import HttpEngine.Proofs.Text.Cut
import HttpEngine.Proofs.Transport.Steady

/-!
# Reading off a plain byte string

However the bytes of a stream are cut into reads, and whatever the size of the read buffer, a
link answers as if it read off the **byte string it has not consumed**.

* `Plain.line`, `Plain.bytes`: a line, and so many bytes, read off a byte string.
* `Link.readLine_holds`, `Link.readBytes_holds`: the same read off a link.
-/

namespace HttpEngine

open Text

/-- The result of an activity that ends in state `s`. -/
def Act.settle {ε σ α : Type} (answer : Except ε α) (s : σ) : EStateM.Result ε σ α :=
  match answer with
  | .ok a => .ok a s
  | .error e => .error e s

theorem Act.settle_map {ε σ α β : Type} {x : EStateM ε σ α} {answer : Except ε α} {s s' : σ}
    (f : α → β) (h : x s = Act.settle answer s') :
    (do return f (← x) : EStateM ε σ β) s = Act.settle (answer.map f) s' := by
  rw [Act.run_bind, h]
  cases answer <;> rfl

/-- Among how many bytes the end of a line is looked for. -/
def ReaderOptions.window (o : ReaderOptions) : Nat := Link.lineCeiling o.maxLine + 1

theorem ReaderOptions.window_pos (o : ReaderOptions) : 0 < o.window := Nat.succ_pos _

theorem ReaderOptions.window_eq {o : ReaderOptions} (h : o.maxLine + 1 ≤ maxWord64) :
    o.window = o.maxLine + 2 := by
  unfold window Link.lineCeiling
  rw [if_pos (by omega)]

/-- The sum of the longest line and one byte more **is a word** for all but the longest line of all. -/
theorem Link.lineFault_of_le {maxLine : Nat} (h : maxLine + 1 ≤ maxWord64) :
    lineFault maxLine = .failed (.lineTooLong maxLine) :=
  if_pos h

theorem Link.lineFault_trapped : lineFault maxWord64 = .trapped := rfl

namespace Plain

/-- What comes of a read that needs more bytes than there are. -/
def starved {ε α : Type} (ends : Bool) (answer : Except (Halt ε) α) : Except (Halt ε) α :=
  if ends then answer else .error .cut

/-- Read on to the end of a line of which `read` has been read, and of which at most `room`
bytes may still come: the answer and what is left. -/
def lineAfter (limit room : Nat) (ends : Bool) (read bytes : Bytes) :
    Except (Halt IoError) (Option Bytes) × Bytes :=
  match cutAt crlf (read ++ bytes) with
  | some (line, rest) =>
    if line.length + 2 ≤ read.length + room then (.ok (some line), rest)
    else (.error (Link.lineFault limit), bytes.drop room)
  | none =>
    if bytes.length < room then (starved ends (.ok none), [])
    else (.error (Link.lineFault limit), bytes.drop room)

/-- The line in front of a byte string, if it ends **within the first `window` bytes**. -/
def line (limit window : Nat) (ends : Bool) (bytes : Bytes) :
    Except (Halt IoError) (Option Bytes) × Bytes :=
  lineAfter limit window ends [] bytes

/-- Read `remaining` more bytes of a body of `want`, having read `got`. -/
def bodyAfter (want remaining : Nat) (ends : Bool) (got bytes : Bytes) :
    Except (Halt IoError) Bytes :=
  if remaining ≤ bytes.length then .ok (got ++ bytes.take remaining)
  else starved ends (.error (.failed (.bodyCutShort (got.length + bytes.length) want)))

/-- The first `count` bytes of a byte string. -/
def bytes (count : Nat) (ends : Bool) (left : Bytes) : Except (Halt IoError) Bytes × Bytes :=
  (if count ≤ left.length then .ok (left.take count)
    else starved ends (.error (.failed (.bodyCutShort left.length count))), left.drop count)

variable {limit room : Nat} {ends : Bool} {read left : Bytes} {b : UInt8}

theorem crlf_infix_concat (h : crlf <:+: read ++ [b]) :
    crlf <:+: read ∨ b = 10 ∧ ∃ line, read = line ++ [13] := by
  rcases List.infix_concat_iff.1 h with ⟨t, ht⟩ | hi
  · refine .inr ?_
    have : t ++ [13] ++ [10] = read ++ [b] := by simpa [crlf] using ht
    obtain ⟨hr, hb⟩ := List.append_inj' this rfl
    exact ⟨(List.cons.inj hb).1.symm, t, hr.symm⟩
  · exact .inl hi

/-- A byte that ends no line **leaves what was read without a line end**, last byte first. -/
theorem not_crlf_infix_cons {soFar : Bytes} (hno : ¬ crlf <:+: soFar.reverse)
    (hend : ¬ (b = 10 ∧ ∃ line, soFar = 13 :: line)) : ¬ crlf <:+: (b :: soFar).reverse := by
  rw [List.reverse_cons]
  intro hi
  rcases crlf_infix_concat hi with hi | ⟨hb, line, hr⟩
  · exact hno hi
  · refine hend ⟨hb, line.reverse, ?_⟩
    rw [← List.reverse_reverse soFar, hr]
    simp

/-- A line that ends within a prefix leaves **its end in the prefix**. -/
theorem crlf_infix_of_fits {line rest bytes p : Bytes} (he : bytes = line ++ 13 :: 10 :: rest)
    (hp : p <+: bytes) (hle : line.length + 2 ≤ p.length) : crlf <:+: p := by
  have hline : line ++ crlf <+: bytes := ⟨rest, by simp [he, crlf]⟩
  have hends : line ++ crlf <+: p :=
    List.prefix_of_prefix_length_le hline hp (by simpa [crlf] using hle)
  exact (List.suffix_append line crlf).isInfix.trans hends.isInfix

theorem lineAfter_end {line : Bytes} (h : ¬ crlf <:+: line) :
    lineAfter limit (room + 1) ends (line ++ [13]) (10 :: left) = (.ok (some line), left) := by
  have hc : cutAt crlf (line ++ [13] ++ 10 :: left) = some (line, left) :=
    (cutAt_pair_eq_some_iff (by decide)).2 ⟨by simp, h⟩
  unfold lineAfter
  rw [hc]
  simp only [List.length_append, List.length_singleton]
  rw [if_pos (by omega)]

theorem lineAfter_cons :
    lineAfter limit (room + 1) ends read (b :: left)
      = lineAfter limit room ends (read ++ [b]) left := by
  unfold lineAfter
  have hw : read ++ b :: left = read ++ [b] ++ left := by simp
  rw [hw]
  cases cutAt crlf (read ++ [b] ++ left) with
  | none => simp only [List.length_cons, Nat.add_lt_add_iff_right, List.drop_succ_cons]
  | some cut =>
    simp only [List.length_append, List.length_singleton, List.drop_succ_cons]
    rw [show read.length + 1 + room = read.length + (room + 1) by omega]

theorem lineAfter_full (h : ¬ crlf <:+: read) :
    lineAfter limit 0 ends read left = (.error (Link.lineFault limit), left) := by
  unfold lineAfter
  cases hc : cutAt crlf (read ++ left) with
  | none => rfl
  | some cut =>
    obtain ⟨line, rest⟩ := cut
    obtain ⟨he, -⟩ := (cutAt_pair_eq_some_iff (by decide)).1 hc
    have hlong : ¬ line.length + 2 ≤ read.length + 0 :=
      fun hle => h (crlf_infix_of_fits he ⟨left, rfl⟩ hle)
    simp only [hlong, if_false, List.drop_zero]

theorem lineAfter_nil (h : ¬ crlf <:+: read) :
    lineAfter limit (room + 1) ends read [] = (starved ends (.ok none), []) := by
  have hc : cutAt crlf (read ++ []) = none := by
    rw [List.append_nil]
    exact (cutAt_eq_none_iff (by decide)).2 h
  unfold lineAfter
  rw [hc]
  rfl

theorem bodyAfter_append {want remaining : Nat} (got : Bytes) {bytes : Bytes} (left : Bytes)
    (h : bytes.length ≤ remaining) :
    bodyAfter want remaining ends got (bytes ++ left)
      = bodyAfter want (remaining - bytes.length) ends (got ++ bytes) left := by
  unfold bodyAfter
  have hle : remaining ≤ (bytes ++ left).length ↔ remaining - bytes.length ≤ left.length := by
    rw [List.length_append]
    omega
  by_cases hr : remaining - bytes.length ≤ left.length
  · rw [if_pos hr, if_pos (hle.2 hr), List.take_append, List.take_of_length_le h,
      List.append_assoc]
  · rw [if_neg hr, if_neg fun hc => hr (hle.1 hc)]
    simp only [List.length_append, Nat.add_assoc]

theorem bytes_eq (count : Nat) (ends : Bool) (left : Bytes) :
    bytes count ends left = (bodyAfter count count ends [] left, left.drop count) := by
  simp [bytes, bodyAfter]

end Plain

namespace Link

variable {o : ReaderOptions} {ends : Bool} {s : Sending} {b : UInt8} {left : Bytes} {l : Link}

/-! ### Lines -/

theorem nextByte_ahead {rest : Bytes} (hu : l.unread = b :: rest) :
    nextByte l = .ok (some b) { l with taken := l.taken + 1, unread := rest } := by
  unfold nextByte
  simp only [Act.run_bind, Act.run_get, hu, List.isEmpty_cons, Bool.false_eq_true, if_false]
  rfl

theorem nextByte_refilled {rest : Bytes} {l₁ : Link} (hu : l.unread = [])
    (hr : refill l.options.retries l = .ok true l₁) (hu₁ : l₁.unread = b :: rest) :
    nextByte l = .ok (some b) { l₁ with taken := l₁.taken + 1, unread := rest } := by
  unfold nextByte
  simp only [Act.run_bind, Act.run_get, hu, List.isEmpty_nil, if_true, hr, Bool.not_true,
    Bool.false_eq_true, if_false, hu₁]
  rfl

theorem nextByte_holds (h : l.Holds o ends s (b :: left)) :
    ∃ l', nextByte l = .ok (some b) l' ∧ l'.Holds o ends s left := by
  obtain ⟨ahead, chunks, hf, hs, hleft⟩ := h
  cases ahead with
  | cons c rest =>
    -- the byte was read ahead
    obtain ⟨rfl, hrest⟩ := List.cons.inj hleft
    exact ⟨_, nextByte_ahead hf.unread, rest, chunks, hf.buffered _ _, hs, hrest⟩
  | nil =>
    -- nothing is read ahead: the buffer is filled, as the byte is still to come
    have hmore : chunks.flatten ≠ [] := by
      rw [List.nil_append] at hleft
      simp [hleft]
    obtain ⟨l₁, c, rest, chunks', hr, hf', hs', he⟩ := refill_more hf hs hs.lull hmore
    rw [List.nil_append, ← he] at hleft
    obtain ⟨rfl, hrest⟩ := List.cons.inj hleft
    rw [← hf.options] at hr
    exact ⟨_, nextByte_refilled hf.unread hr hf'.unread, rest, chunks', hf'.buffered _ _, hs',
      hrest⟩

/-- Past the last byte there is **no byte**, or no end to the wait. -/
theorem nextByte_starved (h : l.Holds o ends s []) :
    ∃ l', nextByte l = Act.settle (Plain.starved ends (.ok none)) l' ∧ l'.Holds o ends s [] := by
  obtain ⟨ahead, chunks, hf, hs, hleft⟩ := h
  obtain ⟨rfl, hend⟩ := List.append_eq_nil_iff.1 hleft
  cases ends with
  | true =>
    obtain ⟨l', rest, hr, hf', hend'⟩ := refill_end o.retries hf hend
    refine ⟨l', ?_, [], rest, hf', steady_of_flatten_eq_nil hend', by simpa using hend'⟩
    unfold nextByte
    simp only [Act.run_bind, Act.run_get, hf.unread, hf.options, List.isEmpty_nil, if_true, hr]
    rfl
  | false =>
    obtain ⟨l', hr, hf'⟩ := refill_open hf hs.lull hend
    refine ⟨l', ?_, [], [], hf', steady_of_ne_nil (by simp), rfl⟩
    unfold nextByte
    simp only [Act.run_bind, Act.run_get, hf.unread, hf.options, List.isEmpty_nil, if_true, hr]
    rfl

theorem lineFrom_step {room : Nat} {soFar : Bytes} {l₁ : Link}
    (hn : nextByte l = .ok (some b) l₁) (hend : ¬ (b = 10 ∧ ∃ line, soFar = 13 :: line)) :
    lineFrom (room + 1) soFar l = lineFrom room (b :: soFar) l₁ := by
  rw [lineFrom, Act.run_bind, hn]
  simp only
  split
  · rename_i line
    exact absurd ⟨rfl, line, rfl⟩ hend
  · rfl

/-- The rest of a line, of which `soFar` has been read, **last byte first**. -/
theorem lineFrom_holds (room : Nat) (soFar : Bytes) (hno : ¬ crlf <:+: soFar.reverse)
    (h : l.Holds o ends s left) :
    ∃ l', lineFrom room soFar l
        = Act.settle (Plain.lineAfter o.maxLine room ends soFar.reverse left).1 l' ∧
      l'.Holds o ends s (Plain.lineAfter o.maxLine room ends soFar.reverse left).2 := by
  -- on the room, of which every byte takes one; that what was read holds no line end is kept
  induction room generalizing soFar left l with
  | zero =>
    rw [Plain.lineAfter_full hno]
    obtain ⟨ahead, chunks, hf, hs, hleft⟩ := h
    refine ⟨l, ?_, ahead, chunks, hf, hs, hleft⟩
    unfold lineFrom
    simp only [Act.run_bind, Act.run_get, hf.options]
    rfl
  | succ room ih =>
    cases left with
    | nil =>
      rw [Plain.lineAfter_nil hno]
      obtain ⟨l', hn, hl'⟩ := nextByte_starved h
      refine ⟨l', ?_, hl'⟩
      unfold lineFrom
      rw [Act.run_bind, hn]
      cases ends <;> rfl
    | cons b left =>
      obtain ⟨l₁, hn, h₁⟩ := nextByte_holds h
      by_cases hend : b = 10 ∧ ∃ line, soFar = 13 :: line
      · -- the byte ends the line
        obtain ⟨rfl, line, rfl⟩ := hend
        have hline : ¬ crlf <:+: line.reverse := fun hi =>
          hno (hi.trans (by simp [List.infix_append_left]))
        rw [List.reverse_cons, Plain.lineAfter_end hline]
        refine ⟨l₁, ?_, h₁⟩
        unfold lineFrom
        rw [Act.run_bind, hn]
        rfl
      · -- the byte does not, so that what was read still holds no line end
        obtain ⟨l', he, hl'⟩ := ih (b :: soFar) (Plain.not_crlf_infix_cons hno hend) h₁
        rw [List.reverse_cons] at he hl'
        rw [Plain.lineAfter_cons]
        exact ⟨l', (lineFrom_step hn hend).trans he, hl'⟩

/-- **A line read off a link** is the line read off the bytes it has not consumed. -/
theorem readLine_holds (h : l.Holds o ends s left) :
    ∃ l', readLine l = Act.settle (Plain.line o.maxLine o.window ends left).1 l' ∧
      l'.Holds o ends s (Plain.line o.maxLine o.window ends left).2 := by
  have ho : l.options = o := by
    obtain ⟨ahead, chunks, hf, -, -⟩ := h
    exact hf.options
  obtain ⟨l', he, hl'⟩ := lineFrom_holds o.window [] (by simp [crlf]) h
  refine ⟨l', ?_, hl'⟩
  unfold readLine
  rw [Act.run_bind, Act.run_get]
  simp only [ho]
  exact he

/-! ### Bodies -/

variable {want missing retries : Nat} {got ahead : Bytes} {chunks : List Bytes} {l₁ : Link}

theorem bodyFrom_more {bytes : Bytes} (ho : l.options = o)
    (hr : read (min (missing + 1) o.room) l = .ok (b :: bytes) l₁) :
    bodyFrom want (missing + 1) retries got l
      = bodyFrom want (missing - bytes.length) o.retries (got ++ b :: bytes) l₁ := by
  rw [bodyFrom]
  simp only [Act.run_bind, Act.run_get, ho, hr]

theorem bodyFrom_again (ho : l.options = o)
    (hr : read (min (missing + 1) o.room) l = .ok [] l₁) (h : l₁.Fed o ends s ahead chunks) :
    ∃ l', bodyFrom want (missing + 1) (retries + 1) got l
        = bodyFrom want (missing + 1) retries got l' ∧ l'.Fed o ends s ahead chunks := by
  obtain ⟨l', hp, hf⟩ := pause_fed o.delay h
  refine ⟨l', ?_, hf⟩
  rw [bodyFrom]
  simp only [Act.run_bind, Act.run_get, ho, hr, hp]

theorem bodyFrom_gives_up (ho : l.options = o)
    (hr : read (min (missing + 1) o.room) l = .ok [] l₁) :
    bodyFrom want (missing + 1) 0 got l
      = .error (.failed (.bodyCutShort got.length want)) l₁ := by
  rw [bodyFrom]
  simp only [Act.run_bind, Act.run_get, ho, hr]
  rfl

theorem bodyFrom_cut (ho : l.options = o)
    (hr : read (min (missing + 1) o.room) l = .error .cut l₁) :
    bodyFrom want (missing + 1) retries got l = .error .cut l₁ := by
  rw [bodyFrom]
  simp only [Act.run_bind, Act.run_get, ho, hr]

/-- Whether a body read straight from the stream takes the bytes still to come. -/
def TakesBody (o : ReaderOptions) (ends : Bool) (s : Sending) (ahead : Bytes)
    (want remaining retries : Nat) (got left : Bytes) (l : Link) : Prop :=
  ∃ l' rest, bodyFrom want remaining retries got l
      = Act.settle (Plain.bodyAfter want remaining ends got left) l' ∧
    l'.Fed o ends s ahead rest ∧ Steady o.retries ends rest ∧ rest.flatten = left.drop remaining

theorem takesBody_chunk {c : Bytes}
    (ih : ∀ m < missing + 1, ∀ got {l chunks}, l.Fed o ends s ahead chunks →
      Steady o.retries ends chunks → TakesBody o ends s ahead want m o.retries got chunks.flatten l)
    (h : l.Fed o ends s ahead ((b :: c) :: chunks))
    (hs : Steady o.retries ends ((b :: c) :: chunks)) :
    TakesBody o ends s ahead want (missing + 1) retries got (b :: c ++ chunks.flatten) l := by
  have hroom : 0 < min (missing + 1) o.room := by
    have := room_pos o
    omega
  obtain ⟨l₁, bytes, chunks', hr, hf, hs₁, hsplit, hfits⟩ := read_more hroom h hs
  have hlen : (b :: bytes).length ≤ missing + 1 := by omega
  have hless : missing + 1 - (b :: bytes).length = missing - bytes.length := by
    rw [List.length_cons]
    omega
  obtain ⟨l', rest, he, hf', hs', hrest⟩ :=
    ih (missing - bytes.length) (by omega) (got ++ b :: bytes) hf hs₁
  refine ⟨l', rest, ?_, hf', hs', ?_⟩
  · rw [bodyFrom_more h.options hr, he, ← hsplit,
      Plain.bodyAfter_append got _ hlen, hless]
  · rw [hrest, ← hsplit, List.drop_append, List.drop_eq_nil_of_le hlen, hless,
      List.nil_append]

theorem takesBody_again (ho : l.options = o)
    (hr : read (min (missing + 1) o.room) l = .ok [] l₁) (hf : l₁.Fed o ends s ahead chunks)
    (ih : ∀ {l}, l.Fed o ends s ahead chunks →
      TakesBody o ends s ahead want (missing + 1) retries got left l) :
    TakesBody o ends s ahead want (missing + 1) (retries + 1) got left l := by
  obtain ⟨l₂, he, hf₂⟩ := bodyFrom_again ho hr hf
  obtain ⟨l', rest, hb, h'⟩ := ih hf₂
  exact ⟨l', rest, he.trans hb, h'⟩

theorem takesBody_open (h : l.Fed o false s ahead []) :
    TakesBody o false s ahead want (missing + 1) retries got [] l :=
  ⟨l, [], bodyFrom_cut h.options (read_open _ h), h, steady_of_ne_nil (by simp), by simp⟩

/-- A body read straight from the stream takes the bytes **still to come**. -/
theorem bodyFrom_holds (want remaining retries : Nat) (got : Bytes)
    (h : l.Fed o ends s ahead chunks) (hs : Steady o.retries ends chunks)
    (hl : Lull retries ends chunks) :
    TakesBody o ends s ahead want remaining retries got chunks.flatten l := by
  -- a read that brings something lowers what remains, an empty one the retries
  induction remaining using Nat.strongRecOn generalizing retries got l chunks with
  | ind remaining ihMore =>
    cases remaining with
    | zero =>
      refine ⟨l, chunks, ?_, h, hs, rfl⟩
      rw [bodyFrom]
      simp [Plain.bodyAfter, Act.settle, Act.run_pure]
    | succ missing =>
      have more : ∀ {k l b c chunks}, l.Fed o ends s ahead ((b :: c) :: chunks) →
          Steady o.retries ends ((b :: c) :: chunks) →
          TakesBody o ends s ahead want (missing + 1) k got (b :: c ++ chunks.flatten) l :=
        fun hf hs => takesBody_chunk
          (fun m hm got _ _ hf hs => ihMore m hm o.retries got hf hs hs.lull) hf hs
      induction retries generalizing l chunks with
      | zero =>
        cases chunks with
        | nil =>
          cases ends with
          | false => exact takesBody_open h
          | true =>
            obtain ⟨l₁, hr, hf⟩ := read_end (min (missing + 1) o.room) h
            exact ⟨l₁, [], bodyFrom_gives_up h.options hr, hf, hs, by simp⟩
        | cons c chunks =>
          cases c with
          | nil =>
            obtain ⟨l₁, hr, hf⟩ := read_empty (min (missing + 1) o.room) h
            obtain ⟨rfl, hend⟩ := hl.last
            refine ⟨l₁, chunks, ?_, hf, hs.tail, by simp [hend]⟩
            rw [bodyFrom_gives_up h.options hr]
            simp [Plain.bodyAfter, Plain.starved, hend, Act.settle]
          | cons b c => exact more h hs
      | succ k ihAgain =>
        cases chunks with
        | nil =>
          cases ends with
          | false => exact takesBody_open h
          | true =>
            obtain ⟨l₁, hr, hf⟩ := read_end (min (missing + 1) o.room) h
            exact takesBody_again h.options hr hf fun hf =>
              ihAgain hf hs (steady_of_ne_nil (by simp)).lull
        | cons c chunks =>
          cases c with
          | nil =>
            obtain ⟨l₁, hr, hf⟩ := read_empty (min (missing + 1) o.room) h
            refine takesBody_again h.options hr hf fun hf => ?_
            have hrest := ihAgain hf hs.tail hl.next
            exact hrest
          | cons b c => exact more h hs

/-- **So many bytes read off a link** are the first of those it has not consumed. -/
theorem readBytes_holds (count : Nat) (h : l.Holds o ends s left) :
    ∃ l', readBytes count l = Act.settle (Plain.bytes count ends left).1 l' ∧
      l'.Holds o ends s (Plain.bytes count ends left).2 := by
  obtain ⟨ahead, chunks, hf, hs, rfl⟩ := h
  obtain rfl := hf.options
  unfold readBytes
  rw [Act.run_bind, Act.run_get]
  simp only [hf.unread]
  by_cases hc : count ≤ ahead.length
  · -- all of them were read ahead
    rw [if_pos hc, Act.run_bind, Act.run_set]
    refine ⟨_, ?_, ahead.drop count, chunks, hf.buffered (l.taken + count) _, hs,
      (List.drop_append_of_le_length hc).symm⟩
    have hle : count ≤ (ahead ++ chunks.flatten).length := by
      rw [List.length_append]
      omega
    simp only [Plain.bytes, hle, if_true, List.take_append_of_le_length hc]
    rfl
  · -- what was read ahead is taken whole, the rest comes straight from the stream
    have hlen : ahead.length ≤ count := Nat.le_of_not_le hc
    rw [if_neg hc, Act.run_bind, Act.run_set]
    simp only
    obtain ⟨l', rest, he, hf', hs', hrest⟩ :=
      bodyFrom_holds count (count - ahead.length) l.options.retries ahead (hf.buffered 0 []) hs
        hs.lull
    rw [List.take_of_length_le hlen, Plain.bytes_eq, Plain.bodyAfter_append [] _ hlen]
    refine ⟨l', he, [], rest, hf', hs', ?_⟩
    rw [List.drop_append, List.drop_eq_nil_of_le hlen, List.nil_append]
    exact hrest

end Link

end HttpEngine
