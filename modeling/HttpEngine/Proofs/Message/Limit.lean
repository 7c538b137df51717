import HttpEngine.Proofs.Message.Holding
import HttpEngine.Proofs.Transport.Landing

/-!
# The write limit counts the response

On a stream that takes all bytes, in parts of any sizes, a response is sent **exactly if it is no longer
than the write limit**: head, bytes in memory and bytes read on the way count alike, and no byte counts
twice, however often a write has to be begun again.

* `Block.Whole`: a block of a source that is read to its end.
* `Link.copyFrom_landed`: copying it.
* `Response.deliver_counts`: sending a response under a limit.
-/

namespace HttpEngine

open Text

namespace Block

/-- A block of a source that **ends without a failure**; a block that holds nothing is empty. -/
structure Whole (b : Block) : Prop where
  ends : b.ended = false → b.source.contents.2 = .ended
  filled : b.unwritten = [] → b.filled = 0

variable {b : Block}

theorem Whole.emptied (h : b.Whole) : b.emptied.Whole := ⟨h.ends, fun _ => rfl⟩

theorem Whole.left (h : b.Whole) (c : UInt8) (bytes : Bytes) :
    Whole { b with unwritten := c :: bytes } :=
  ⟨h.ends, nofun⟩

/-- Reading on succeeds, and unless the source has ended **there is something to write**. -/
theorem Whole.fill (h : b.Whole) :
    ∃ c, b.fill = .ok c ∧ c.Whole ∧ (c.ended = false → c.unwritten ≠ []) := by
  unfold Block.fill
  by_cases hfull : b.ended || size ≤ b.filled
  · simp only [hfull, if_true]
    refine ⟨b, rfl, h, fun hopen hnil => ?_⟩
    -- an empty block is not full
    rw [hopen, h.filled hnil] at hfull
    exact absurd hfull (by decide)
  · obtain ⟨hopen, hroom⟩ := room_of_not_full hfull
    simp only [hfull]
    rcases Script.read_of_ended (h.ends hopen) hroom with
      ⟨rest, hr, -⟩ | ⟨c, bytes, rest, hr, -, hrest⟩
    · simp only [hr]
      refine ⟨_, rfl, ⟨nofun, fun hnil => ?_⟩, nofun⟩
      exact h.filled (by simpa using hnil)
    · simp only [hr]
      exact ⟨_, rfl, ⟨fun _ => hrest, fun hnil => absurd hnil (by simp)⟩, fun _ => by simp⟩

end Block

namespace Link

variable {l l' : Link} {b block : Block} {spare : Nat}

/-- What a block takes in while the stream is full is **read off the same source**. -/
theorem whole_of_pushBlock {begun : Bool} {c : { c : Block // c.weight < b.weight }}
    (hb : b.Whole) (h : pushBlock begun b l = .ok (some c) l') : c.1.Whole := by
  unfold pushBlock at h
  obtain ⟨left, l₁, -, h⟩ := Act.bind_eq_ok.1 h
  cases left with
  | nil => cases h
  | cons byte more =>
    obtain ⟨d, hfill, hd, -⟩ := (hb.left byte more).fill
    simp only [hfill] at h
    split at h
    · obtain ⟨u, l₂, -, h⟩ := Act.bind_eq_ok.1 h
      cases h
      exact hd
    · obtain ⟨u, l₂, -, h⟩ := Act.bind_eq_ok.1 h
      obtain ⟨v, l₃, -, h⟩ := Act.bind_eq_ok.1 h
      cases h

/-- What a block holds lands, or is left to a block **that holds more**, or is more than can be paid
for. -/
theorem pushBlock_landed (begun : Bool) (hb : b.Whole) (h : l.Takes (b.rest.length + spare)) :
    Landed spare b.rest (fun c? => (c?.map (·.1)).elim b.emptied.rest Block.rest) l
      (pushBlock begun b l) := by
  have hwrites := (offerAll_writes begun b.unwritten l).before b.emptied.rest
  rw [b.rest_emptied] at h ⊢
  rw [List.length_append, Nat.add_assoc] at h
  have hoffer := (offerAll_landed begun b.unwritten h).before
  unfold pushBlock
  refine hoffer.bind hwrites fun left l₁ _ h₁ => ?_
  cases left with
  | nil => exact h₁
  | cons byte more =>
    obtain ⟨d, hfill, -, -⟩ := (hb.left byte more).fill
    have hrest : d.rest = byte :: more ++ b.emptied.rest := Block.rest_of_fill hfill
    simp only [hfill]
    split
    · -- the stream was full, and has room again once it was waited for
      have hsome : 0 < (byte :: more ++ b.emptied.rest).length + spare :=
        Nat.add_pos_left (Nat.succ_pos _) spare
      obtain ⟨l₂, hroom, h₂⟩ := awaitRoom_takes h₁ hsome
      rw [Act.run_bind, hroom]
      show l₂.Takes (d.rest.length + spare)
      rw [hrest]
      exact h₂
    · obtain ⟨l₂, hspill, h₂⟩ := spill_takes h₁
      have hspilled : Landed spare (byte :: more ++ b.emptied.rest)
          (fun _ => byte :: more ++ b.emptied.rest) l₁ (spill l₁) := landed_of_ok hspill h₂
      refine hspilled.bind (writes_of_passed (spill_passed l₁)) fun _ l₂ _ h₂ => ?_
      rw [List.length_append, Nat.add_assoc] at h₂
      exact (writeAll_landed (byte :: more) h₂).before.bind
        ((writeAll_writes (byte :: more) l₂).before b.emptied.rest) fun _ l₃ _ h₃ => h₃

/-- A source that ends is copied **to its last byte**, or is more than can be paid for. -/
theorem copyFrom_landed (begun : Bool) (hb : block.Whole)
    (h : l.Takes (block.rest.length + spare)) :
    Landed spare block.rest (fun _ => []) l (copyFrom begun block l) := by
  -- on the blocks; what one leaves unwritten is what the next has still to write
  fun_induction copyFrom begun block generalizing l with
  | case1 begun block cause hfill =>
    obtain ⟨c, hc, -⟩ := hb.fill
    rw [hfill] at hc
    cases hc
  | case2 begun block b hfill ihMore ihNext =>
    obtain ⟨c, hc, hwhole, hsome⟩ := hb.fill
    rw [hfill] at hc
    cases hc
    rw [← Block.rest_of_fill hfill] at h ⊢
    refine (pushBlock_landed begun hwhole h).bind (pushBlock_writes begun b l) fun c? l₁ he h₁ => ?_
    cases c? with
    | some c => exact ihMore c.1 c.2 (whole_of_pushBlock hwhole he) h₁
    | none =>
      simp only
      split
      · -- there is nothing more to come of the source
        rename_i hended
        have hnil : b.emptied.rest = [] := by simp [Block.rest, Block.emptied, hended]
        show l₁.Takes (([] : Bytes).length + spare)
        rw [← hnil]
        exact h₁
      · rename_i hopen
        have hne := hsome (Bool.eq_false_iff.2 hopen)
        simp only [hne, dite_false]
        exact ihNext hne hwhole.emptied h₁

end Link

namespace Body

variable {l : Link} {spare : Nat}

theorem writeTo_landed (b : Body) (hends : b.contents.2 = .ended)
    (h : l.Takes (b.contents.1.length + spare)) :
    Link.Landed spare b.contents.1 (fun _ => []) l (b.writeTo l) := by
  cases b with
  | empty => exact h
  | bytes data => exact Link.writeAll_landed data h
  | reader source => exact Link.copyFrom_landed false ⟨fun _ => hends, fun _ => rfl⟩ h

end Body

namespace Response

variable {l l' : Link}

theorem deliver_landed (r : Response) (cookies : Option CookieStore)
    (hends : r.body.contents.2 = .ended) (h : l.Takes (r.whole cookies).length) :
    (∃ l', r.deliver cookies l = .ok () l') ∨
      ∃ l', r.deliver cookies l = .error (.failed (.overBudget .write)) l' ∧
        l.writeLeft.Exceeded (r.whole cookies).length := by
  have hwrites : Link.Writes (r.whole cookies) (fun _ => []) (r.write cookies) l :=
    ((Link.writeAll_writes _ l).before _).bind fun _ l₁ _ => r.body.writeTo_writes l₁
  have hwrite : Link.Landed 0 (r.whole cookies) (fun _ => []) l (r.write cookies l) := by
    unfold whole at h ⊢
    rw [List.length_append] at h
    have hhead : Link.Landed (r.body.contents.1.length + 0) (utf8 (r.head cookies)) (fun _ => []) l
        (Link.writeAll (utf8 (r.head cookies)) l) := Link.writeAll_landed _ h
    refine hhead.before.bind ((Link.writeAll_writes _ l).before _) fun _ l₁ _ h₁ => ?_
    exact r.body.writeTo_landed hends h₁
  rw [deliver_eq, Act.run_bind]
  cases hw : r.write cookies l with
  | ok u l₁ =>
    rw [hw] at hwrite
    exact .inl (Link.send_of_takes hwrite)
  | error halt l₁ =>
    rw [hw] at hwrite
    obtain ⟨rfl, hover⟩ := hwrite
    exact .inr ⟨l₁, rfl, hover⟩

/-- **The write limit counts exactly the response.** On a stream that takes what is held and the whole
response, in parts of any sizes, sending the response succeeds just when its head and its body are
together no longer than may be written. Then all of it is on the stream, nothing is held, and what may
be written is less by just that; otherwise sending fails because of the limit, and for no other
reason. -/
theorem deliver_counts (r : Response) (cookies : Option CookieStore) (l : Link)
    (hends : r.body.contents.2 = .ended)
    (htakes : l.wire.Takes (l.held.length + (r.whole cookies).length)) :
    ((∃ l', r.deliver cookies l = .ok () l') ↔ ∀ limit ∈ l.writeLeft,
      (utf8 (r.head cookies)).length + r.body.contents.1.length ≤ limit) ∧
    (∀ l', r.deliver cookies l = .ok () l' →
      l'.wire.journal.sent = l.wire.journal.sent ++ l.held ++ r.whole cookies ∧ l'.held = [] ∧
      l'.writeLeft = l.writeLeft.map
        (· - ((utf8 (r.head cookies)).length + r.body.contents.1.length))) ∧
    ∀ halt l', r.deliver cookies l = .error halt l' → halt = .failed (.overBudget .write) := by
  have hlength : (r.whole cookies).length
      = (utf8 (r.head cookies)).length + r.body.contents.1.length := List.length_append
  -- what a response that is sent was paid for with
  have hsent : ∀ l', r.deliver cookies l = .ok () l' →
      l'.written = l.written ++ r.whole cookies ∧
        l.writeLeft.spend (r.whole cookies).length = some l'.writeLeft := by
    intro l' h
    obtain ⟨front, hpassed, -, hall⟩ := r.deliver_writes cookies l
    have hfront : front = r.whole cookies := by
      rw [← List.append_nil front]
      exact hall () l' h
    rw [Act.leaves_of_ok h, hfront] at hpassed
    exact ⟨hpassed.written, hpassed.charged⟩
  rw [← hlength]
  refine ⟨?_, fun l' h => ?_, fun halt l' h => ?_⟩
  · rw [← Budget.not_exceeded_iff]
    constructor
    · rintro ⟨l', h⟩
      exact Budget.not_exceeded_of_spend (hsent l' h).2
    · intro hunder
      rcases r.deliver_landed cookies hends htakes with hok | ⟨l', -, hover⟩
      · exact hok
      · exact absurd hover hunder
  · obtain ⟨hwritten, hpaid⟩ := hsent l' h
    obtain ⟨hheld, -⟩ := deliver_eq_ok h
    rw [Link.written, Link.written, hheld, List.append_nil] at hwritten
    exact ⟨hwritten, hheld, (Budget.less_of_spend hpaid).symm⟩
  · rcases r.deliver_landed cookies hends htakes with ⟨l₁, hok⟩ | ⟨l₁, herror, -⟩
    · rw [hok] at h
      cases h
    · rw [herror] at h
      cases h
      rfl

/-- A response whose body is read in two parts. -/
def trickling : Response := ok (.reader { pieces := [.data (ascii "ab"), .data (ascii "cdefg")] })

/-- A link with a small buffer, over a stream that takes one byte, then three, then two, **and from
then on** five at a time. -/
def narrow (limit : Nat) : Link :=
  { wire := { outbound := .script { writes := [.ok 1, .ok 3, .ok 2], maxWrite := some 5 } }
    capacity := 4
    writeLeft := some limit }

/-- A response passes **at its very length**, and not below it. -/
theorem deliver_counts_trickling :
    trickling.body.contents.2 = .ended ∧
    (∀ n, (narrow n).wire.Takes ((narrow n).held.length + (trickling.whole none).length)) ∧
    (∃ l', trickling.deliver none (narrow 26) = .ok () l' ∧
      l'.wire.journal.sent = trickling.whole none ∧ l'.writeLeft = some 0) ∧
    ¬ ∃ l', trickling.deliver none (narrow 25) = .ok () l' := by
  have hends : trickling.body.contents.2 = .ended := by decide +kernel
  have hlength : (utf8 (trickling.head none)).length + trickling.body.contents.1.length = 26 := by
    decide +kernel
  have htakes : ∀ n, (narrow n).wire.Takes
      ((narrow n).held.length + (trickling.whole none).length) := by
    intro n
    have hcalm : (narrow n).wire.Calm := ⟨rfl, rfl⟩
    have haccepting : (narrow n).wire.outbound.Accepting :=
      ⟨by simp, by simp, rfl, by simp⟩
    exact Wire.takes_of_accepting hcalm haccepting _
  obtain ⟨hok, hsent, -⟩ := deliver_counts trickling none (narrow 26) hends (htakes 26)
  obtain ⟨hfails, -, -⟩ := deliver_counts trickling none (narrow 25) hends (htakes 25)
  rw [hlength] at hok hfails hsent
  obtain ⟨l', hl'⟩ := hok.2 fun limit hlimit => by
    cases hlimit
    exact Nat.le_refl 26
  obtain ⟨hjournal, -, hleft⟩ := hsent l' hl'
  refine ⟨hends, htakes, ⟨l', hl', hjournal, hleft⟩, fun h => ?_⟩
  exact absurd (hfails.1 h 25 rfl) (by decide)

end Response

end HttpEngine
