import HttpEngine.Proofs.Transport.Cursor

/-!
# A reader in memory answers as its link does

Bytes, lines and bodies are read off the buffer with indices and counts that are words. Every one of
these sums and differences fits, **but for the one that says how long a line may be**.

* `Reader.nextByte_follows`: consuming a byte.
* `Reader.readLine_follows`, `Reader.readBytes_follows`, `Reader.readBody_follows`: calls.
* `Reader.readLine_at_limit`: when the longest line is the largest word, no line comes.
-/

namespace HttpEngine

open Text

namespace Reader

variable {o : Overflow} {r r' : Reader} {n room : Nat}

/-! ### Bytes -/

/-- The byte at the index is **the first of those read ahead**. -/
theorem consume_ahead {b : UInt8} {rest : Bytes} (hr : r.Sound) (hu : r.unread = b :: rest) :
    consume o r = .ok b { r with index := r.index + 1 } ∧ r.index < r.count ∧
      unread { r with index := r.index + 1 } = rest := by
  have hcut := hu
  have hlen : (r.buffer.take r.count).length = r.count := List.length_take_of_le hr.count_le
  have hlt : r.index < (r.buffer.take r.count).length := by
    refine Nat.lt_of_not_le fun hge => ?_
    rw [unread, List.drop_eq_nil_of_le hge] at hu
    cases hu
  rw [unread, List.drop_eq_getElem_cons hlt, List.getElem_take] at hcut
  obtain ⟨hb, hrest⟩ := List.cons.inj hcut
  rw [hlen] at hlt
  have hget : r.buffer[r.index]? = some b := by
    rw [List.getElem?_eq_getElem (Nat.lt_of_lt_of_le hlt hr.count_le), hb]
  have hword : r.index + 1 ≤ maxWord64 :=
    Nat.le_trans hlt (Nat.le_trans hr.count_le hr.length_le)
  refine ⟨?_, hlt, hrest⟩
  unfold consume
  rw [Act.bind_of_ok (Act.run_get r)]
  simp only [hget]
  rw [Act.bind_of_ok (plus_eq hword)]
  rfl

theorem consume_follows (hr : r.Sound) (hahead : r.unread ≠ []) :
    Follows (do return some (← consume o)) Link.consume r := by
  obtain ⟨b, rest, hu⟩ := List.exists_cons_of_ne_nil hahead
  obtain ⟨hconsume, hlt, hrest⟩ := consume_ahead (o := o) hr hu
  have hseen : r.seen.unread = b :: rest := hu
  refine ⟨.ok (some b), { r with index := r.index + 1 }, ?_, ?_, ?_, rfl⟩
  · rw [Act.bind_of_ok hconsume]
    rfl
  · unfold Link.consume
    rw [Act.bind_of_ok (Act.run_get r.seen)]
    simp only [hseen]
    rw [← hrest]
    rfl
  · exact ⟨hlt, hr.count_le, hr.length_eq, hr.words⟩

/-- A byte is consumed **once the buffer is filled**, if it was used up. -/
theorem nextByte_follows {retries : UInt32} (hr : r.Sound)
    (hretries : retries.toNat = r.link.options.retries) :
    Follows (nextByte o retries) Link.nextByte r := by
  rw [Link.nextByte_eq]
  by_cases hused : r.index = r.count
  · have hunread : r.seen.unread = [] := unread_of_used hused
    have hfilled : Follows
        (refill o retries 0 >>= fun more =>
          if !more then pure none else do return some (← consume o))
        (Link.refill r.link.options.retries >>= fun more =>
          if !more then pure none else Link.consume) r := by
      refine (refill_follows hr hused (count_none hretries)).bind fun more r' hmore hr' _ => ?_
      cases more with
      | false => exact follows_pure hr' none
      | true => exact consume_follows hr' (Link.available_refill hunread hmore).2
    refine hfilled.of_step ?_ ?_ rfl
    · unfold nextByte
      rw [Act.bind_of_ok (Act.run_get r)]
      simp only [hused, if_true]
    · rw [Act.bind_of_ok (Act.run_get r.seen), hunread]
      rfl
  · have hahead : r.unread ≠ [] := fun h => hused (used_of_unread hr h)
    have hmore : r.seen.unread.isEmpty = false := by
      rw [List.isEmpty_eq_false_iff]
      exact hahead
    refine (consume_follows (o := o) hr hahead).of_step ?_ ?_ rfl
    · unfold nextByte
      rw [Act.bind_of_ok (Act.run_get r)]
      simp only [hused, if_false]
    · rw [Act.bind_of_ok (Act.run_get r.seen), hmore]
      rfl

/-! ### Lines -/

theorem lineCeiling_eq {maxLine : Nat} (h : maxLine + 1 ≤ maxWord64) :
    lineCeiling maxLine = maxLine + 1 ∧ Link.lineCeiling maxLine = maxLine + 1 :=
  ⟨Nat.mod_eq_of_lt (Nat.lt_succ_of_le h), if_pos h⟩

/-- A line ends in its end **where a line feed comes after a carriage return**. -/
theorem ends_iff {line : Bytes} {b : UInt8} :
    crlf <:+ line ++ [b] ↔ b = 10 ∧ ∃ front, line = front ++ [13] := by
  constructor
  · rintro ⟨front, h⟩
    rw [show front ++ crlf = front ++ [13] ++ [10] by simp [crlf]] at h
    obtain ⟨hline, hb⟩ := List.append_inj' h rfl
    exact ⟨(List.cons.inj hb).1.symm, front, hline.symm⟩
  · rintro ⟨rfl, front, rfl⟩
    exact ⟨front, by simp [crlf]⟩

section Lines

variable {retries : UInt32} {maxLine : Nat} {line : Bytes}

/-- What is left of a line **without its end**. -/
theorem endLine_follows {front : Bytes} (hr : r.Sound) (hlen : front.length ≤ maxWord64)
    (hline : line = front ++ [13] ++ [10]) :
    Follows (do return some (line.take (← minus o line.length 2)))
      (pure (some front) : Link.Act (Option Bytes)) r := by
  have hcount : line.length - 2 = front.length := by simp [hline]
  have htake : line.take front.length = front := by
    rw [hline, List.append_assoc, List.take_left' rfl]
  have hminus : minus o line.length 2 r = .ok front.length r := by
    rw [minus_eq (by simp [hline]) (by omega), hcount]
  refine ⟨.ok (some front), r, ?_, rfl, hr, rfl⟩
  rw [Act.bind_of_ok hminus, htake]
  rfl

/-- One byte of a line, **if what comes of one that does not end it is followed**. -/
theorem lineFrom_turn (hr : r.Sound) (hretries : retries.toNat = r.link.options.retries)
    (hlen : line.length ≤ maxWord64)
    (more : ∀ b r', r'.Sound → r'.link.options = r.link.options →
      Follows (do
          fits o (maxLine + 1 ≤ maxWord64)
          if lineCeiling maxLine < (line ++ [b]).length then fail (.lineTooLong maxLine)
          else lineFrom o retries maxLine (line ++ [b]))
        (Link.lineFrom n (b :: line.reverse)) r') :
    Follows (lineFrom o retries maxLine line) (Link.lineFrom (n + 1) line.reverse) r := by
  rw [lineFrom, Link.lineFrom]
  refine (nextByte_follows hr hretries).bind fun b? r' _ hr' ho => ?_
  cases b? with
  | none => exact follows_pure hr' none
  | some b =>
    simp only
    by_cases hend : crlf <:+ line ++ [b]
    · rw [if_pos hend]
      obtain ⟨rfl, front, rfl⟩ := ends_iff.1 hend
      rw [List.length_append, List.length_singleton] at hlen
      rw [List.reverse_append]
      simp only [List.reverse_cons, List.reverse_nil, List.nil_append, List.singleton_append,
        List.reverse_reverse]
      exact endLine_follows hr' (by omega) rfl
    · rw [if_neg hend]
      have hlink : ¬ (b = 10 ∧ ∃ front, line.reverse = 13 :: front) := by
        rintro ⟨hb, front, hline⟩
        refine hend (ends_iff.2 ⟨hb, front.reverse, ?_⟩)
        rw [← List.reverse_reverse line, hline, List.reverse_cons]
      refine (more b r' hr' ho).of_step rfl ?_ rfl
      generalize line.reverse = soFar at hlink
      split
      · exact absurd ⟨rfl, _, rfl⟩ hlink
      · rfl

/-- The rest of a line, of which a link keeps what was read **last byte first**. -/
theorem lineFrom_follows (hr : r.Sound) (hretries : retries.toNat = r.link.options.retries)
    (hmax : r.link.options.maxLine = maxLine) (hfits : maxLine + 1 ≤ maxWord64)
    (hlen : line.length + n = maxLine + 1) :
    Follows (lineFrom o retries maxLine line) (Link.lineFrom (n + 1) line.reverse) r := by
  obtain ⟨hceiling, -⟩ := lineCeiling_eq hfits
  -- on the room after the next byte, of which every byte takes one
  induction n generalizing line r with
  | zero =>
    refine lineFrom_turn hr hretries (by omega) fun b r' hr' ho => ?_
    have hlong : lineCeiling maxLine < (line ++ [b]).length := by
      rw [List.length_append, List.length_singleton]
      omega
    refine (follows_fail hr' (.lineTooLong maxLine)).of_step ?_ ?_ rfl
    · rw [Act.bind_of_ok (fits_eq (.inl hfits)), if_pos hlong]
    · rw [Link.lineFrom, Act.bind_of_ok (Act.run_get r'.seen)]
      simp only [seen, ho, hmax, Link.lineFault_of_le hfits]
  | succ n ih =>
    refine lineFrom_turn hr hretries (by omega) fun b r' hr' ho => ?_
    have hlen' : (line ++ [b]).length + n = maxLine + 1 := by
      rw [List.length_append, List.length_singleton]
      omega
    have hshort : ¬ lineCeiling maxLine < (line ++ [b]).length := by omega
    refine (ih hr' (hretries.trans (by rw [ho])) (by rw [ho, hmax]) hlen').of_step ?_ ?_ rfl
    · rw [Act.bind_of_ok (fits_eq (.inl hfits)), if_neg hshort]
    · rw [List.reverse_append]
      rfl

theorem readLine_eq : readLine o r
    = lineFrom o (.ofNat r.link.options.retries) r.link.options.maxLine [] r := by
  unfold readLine
  rw [Act.bind_of_ok (Act.run_get r)]

theorem Sound.toNat_retries (hr : r.Sound) :
    (UInt32.ofNat r.link.options.retries).toNat = r.link.options.retries := by
  have hle := hr.words.retries_le
  unfold maxWord32 at hle
  exact UInt32.toNat_ofNat_of_lt' (by rw [UInt32.size]; omega)

theorem readLine_follows_of
    (h : Follows (lineFrom o (.ofNat r.link.options.retries) r.link.options.maxLine [])
      (Link.lineFrom (Link.lineCeiling r.link.options.maxLine + 1) []) r) :
    Follows (readLine o) Link.readLine r := by
  refine h.of_step readLine_eq ?_ rfl
  unfold Link.readLine
  rw [Act.bind_of_ok (Act.run_get r.seen)]
  rfl

/-- A line, **if the longest one and a byte more are a word**. -/
theorem readLine_follows (hr : r.Sound) (hfits : r.link.options.maxLine + 1 ≤ maxWord64) :
    Follows (readLine o) Link.readLine r := by
  obtain ⟨-, hceiling⟩ := lineCeiling_eq hfits
  refine readLine_follows_of ?_
  rw [hceiling]
  exact lineFrom_follows hr hr.toNat_retries rfl hfits (Nat.zero_add _)

/-- A line of which **not even one byte comes**, however long it may be. -/
theorem readLine_starved_follows (hr : r.Sound)
    (hnone : ∀ b l, Link.nextByte r.seen ≠ .ok (some b) l) :
    Follows (readLine o) Link.readLine r := by
  refine readLine_follows_of ?_
  rw [lineFrom, Link.lineFrom]
  refine (nextByte_follows hr hr.toNat_retries).bind fun b? r' hbyte hr' _ => ?_
  cases b? with
  | none => exact follows_pure hr' none
  | some b => exact absurd hbyte (hnone b r'.seen)

/-- What a line fails with after its first byte **if the longest one is the largest word**. -/
def limitFault : Overflow → Fault
  | .trapped => .overflow
  | .wrapped => .halted (.failed (.lineTooLong maxWord64))

/-- The longest line and a byte more are no word **if the longest line is the largest**. No line
comes then, whatever becomes of the sum. -/
theorem readLine_at_limit {b : UInt8} {l : Link} (hr : r.Sound)
    (hmax : r.link.options.maxLine = maxWord64)
    (hbyte : Link.nextByte r.seen = .ok (some b) l) :
    ∃ r', readLine o r = .error (limitFault o) r' ∧ r'.seen = l ∧ r'.Sound ∧
      r'.link.options = r.link.options := by
  obtain ⟨answer, r', hx, hy, hr', ho⟩ := nextByte_follows (o := o) hr hr.toNat_retries
  rw [hbyte] at hy
  cases answer with
  | error halt => cases hy
  | ok b? =>
    cases hy
    have hend : ¬ crlf <:+ [] ++ [b] := by
      rintro hend
      obtain ⟨-, front, hfront⟩ := ends_iff.1 hend
      simp at hfront
    refine ⟨r', ?_, rfl, hr', ho⟩
    rw [readLine_eq, hmax, lineFrom, Act.bind_of_ok hx]
    simp only
    rw [if_neg hend]
    cases o <;> rfl

/-- On the link **a trap is what comes of it**. -/
theorem link_readLine_at_limit {b : UInt8} {l : Link} (hr : r.Sound)
    (hmax : r.link.options.maxLine = maxWord64)
    (hbyte : Link.nextByte r.seen = .ok (some b) l) :
    Link.readLine r.seen = .error .trapped l := by
  obtain ⟨r', -, rfl, -, ho⟩ := readLine_at_limit (o := .trapped) hr hmax hbyte
  have hceiling : Link.lineCeiling r.seen.options.maxLine = 0 := by
    rw [show r.seen.options = r.link.options from rfl, hmax]
    rfl
  have hfault : Link.lineFault r'.seen.options.maxLine = .trapped := by
    rw [show r'.seen.options = r'.link.options from rfl, ho, hmax, Link.lineFault_trapped]
  unfold Link.readLine
  rw [Act.bind_of_ok (Act.run_get r.seen), hceiling, Link.lineFrom, Act.bind_of_ok hbyte]
  simp only
  rw [Link.lineFrom, Act.bind_of_ok (Act.run_get r'.seen), hfault]
  rfl

end Lines

/-! ### Bodies -/

section Bodies

variable {retries empties : UInt32} {count k : Nat} {out more : Bytes}

theorem stretch_front (h : Filled o room more r r') :
    ∃ hlen, stretch 0 more.length r' = .ok ⟨more, hlen⟩ r' := by
  obtain ⟨rest, hfront⟩ := h.front
  have hle : more.length ≤ r'.buffer.length := by
    rw [hfront, List.length_append]
    omega
  have hmore : (r'.buffer.take more.length).drop 0 = more := by
    rw [hfront, List.drop_zero, List.take_left' rfl]
  obtain ⟨hlen, hstretch⟩ := stretch_eq (Nat.zero_le _) hle
  simp only [hmore] at hlen hstretch
  exact ⟨hlen, hstretch⟩

/-- A reader whose buffer is used up **and free again**. -/
def Drained (r : Reader) : Prop := r.index = 0 ∧ r.count = 0

theorem Drained.used (h : r.Drained) : r.index = r.count := h.1.trans h.2.symm

theorem Drained.same (h : r.Drained) : { r with index := 0, count := 0 } = r := by
  obtain ⟨l, buffer, index, count⟩ := r
  obtain ⟨rfl, rfl⟩ := h
  rfl

theorem drained_of_nap {ms : Nat} (hr' : r'.Sound) (hdrained : r.Drained)
    (h : Link.onWire (Wire.pause ms) r.seen = .ok () r'.seen) : r'.Drained := by
  have hused := used_of_nap hdrained.used hr' h
  obtain ⟨w, -, hsame⟩ := Link.onWire_eq_ok.1 h
  have hindex : r'.index = r.index := congrArg Link.taken hsame
  exact ⟨hindex.trans hdrained.1, hused ▸ hindex.trans hdrained.1⟩

theorem Filled.drained (h : Filled o room more r r') (hdrained : r.Drained) : r'.Drained :=
  ⟨h.index.trans hdrained.1, h.count.trans hdrained.2⟩

theorem bodyFrom_of_full (hout : out.length = count) :
    bodyFrom o retries count empties out r = .ok out r := by
  rw [bodyFrom, dif_neg (by omega)]
  rfl

/-- What is read **straight from the stream** is read into a buffer that is free. -/
theorem bodyFrom_of_lt {missing : Nat} (hout : out.length + (missing + 1) = count)
    (hcount : count ≤ maxWord64) :
    bodyFrom o retries count empties out r
      = (fill o (min (missing + 1) r.buffer.length) >>= fun brought =>
        stretch 0 brought >>= fun more =>
          if 0 < brought then bodyFrom o retries count 0 (out ++ more.1)
          else if empties = retries then fail (.bodyCutShort (out ++ more.1).length count)
          else do
            fits o (empties.toNat + 1 ≤ maxWord32)
            nap
            bodyFrom o retries count (empties + 1) (out ++ more.1))
        { r with index := 0, count := 0 } := by
  have hminus : ∀ r : Reader, minus o count out.length r = .ok (missing + 1) r := by
    intro r
    rw [minus_eq (by omega) (by omega), show count - out.length = missing + 1 by omega]
  rw [bodyFrom, dif_pos (by omega), Act.bind_of_ok (Act.run_modify _ r),
    Act.bind_of_ok (hminus _), Act.bind_of_ok (Act.run_get _)]
  rfl

section Missing

variable {missing : Nat} (hr : r.Sound) (hdrained : r.Drained) (hcount : count ≤ maxWord64)
  (hout : out.length + (missing + 1) = count)

include hdrained hcount hout

theorem bodyFrom_of_fill (h : Filled o (min (missing + 1) r.buffer.length) more r r') :
    bodyFrom o retries count empties out r
      = (if 0 < more.length then bodyFrom o retries count 0 (out ++ more)
        else if empties = retries then fail (.bodyCutShort (out ++ more).length count)
        else do
          fits o (empties.toNat + 1 ≤ maxWord32)
          nap
          bodyFrom o retries count (empties + 1) (out ++ more)) r' := by
  obtain ⟨hlen, hstretch⟩ := stretch_front h
  rw [bodyFrom_of_lt hout hcount, hdrained.same, Act.bind_of_ok h.fills, Act.bind_of_ok hstretch]

theorem bodyFrom_of_fill_error {fault : Fault}
    (hfill : fill o (min (missing + 1) r.buffer.length) r = .error fault r') :
    bodyFrom o retries count empties out r = .error fault r' := by
  rw [bodyFrom_of_lt hout hcount, hdrained.same, Act.bind_of_error hfill]

include hr

/-- A read of a body that brings something **gives all retries back**. -/
theorem bodyFrom_more_follows {b : UInt8} {bytes : Bytes}
    (h : Filled o (min (missing + 1) r.buffer.length) (b :: bytes) r r')
    (more : (out ++ b :: bytes).length + (missing - bytes.length) = count →
      Follows (bodyFrom o retries count 0 (out ++ b :: bytes))
        (Link.bodyFrom count (missing - bytes.length) r.link.options.retries
          (out ++ b :: bytes)) r') :
    Follows (bodyFrom o retries count empties out) (Link.bodyFrom count (missing + 1) k out) r := by
  have hle := Nat.le_trans h.length_le (Nat.min_le_left _ _)
  rw [List.length_cons] at hle
  have hout' : (out ++ b :: bytes).length + (missing - bytes.length) = count := by
    rw [List.length_append, List.length_cons]
    omega
  have hread : Link.read (min (missing + 1) r.link.options.room) r.seen
      = .ok (b :: bytes) r'.seen := hr.length_eq ▸ h.reads
  refine (more hout').of_step ?_ (Link.bodyFrom_more rfl hread) h.options
  have hpos : 0 < (b :: bytes).length := Nat.succ_pos _
  rw [bodyFrom_of_fill hdrained hcount hout h, if_pos hpos]

/-- An empty read of a body is tried again **after a pause**, or it is the last. -/
theorem bodyFrom_none_follows (hk : empties.toNat + k = retries.toNat)
    (h : Filled o (min (missing + 1) r.buffer.length) [] r r')
    (again : ∀ j r₁, k = j + 1 → r₁.Sound → r₁.Drained → r₁.link.options = r.link.options →
      Follows (bodyFrom o retries count (empties + 1) out)
        (Link.bodyFrom count (missing + 1) j out) r₁) :
    Follows (bodyFrom o retries count empties out) (Link.bodyFrom count (missing + 1) k out) r := by
  have hread : Link.read (min (missing + 1) r.link.options.room) r.seen = .ok [] r'.seen :=
    hr.length_eq ▸ h.reads
  have hturn : bodyFrom o retries count empties out r = _ :=
    bodyFrom_of_fill hdrained hcount hout h
  rw [if_neg (by simp), List.append_nil] at hturn
  cases k with
  | zero =>
    obtain rfl : empties = retries := UInt32.toNat_inj.1 hk
    rw [if_pos rfl] at hturn
    exact ⟨.error (.failed (.bodyCutShort out.length count)), r', hturn,
      Link.bodyFrom_gives_up rfl hread, h.sound, h.options⟩
  | succ k =>
    obtain ⟨hmore, hfits, -⟩ := count_empty hk
    have htail : Follows (nap >>= fun _ => bodyFrom o retries count (empties + 1) out)
        (Link.onWire (Wire.pause r.link.options.delay) >>= fun _ =>
          Link.bodyFrom count (missing + 1) k out) r' :=
      (h.options ▸ nap_follows h.sound).bind fun _ r₁ hpause hr₁ ho =>
        again k r₁ rfl hr₁ (drained_of_nap hr₁ (h.drained hdrained) hpause) (ho.trans h.options)
    refine htail.of_step ?_ ?_ h.options
    · rw [hturn, if_neg hmore, Act.bind_of_ok (fits_eq (.inl hfits))]
    · rw [Link.bodyFrom, Act.bind_of_ok (Act.run_get r.seen)]
      exact Act.bind_of_ok hread

end Missing

/-- The rest of a body, **once all that was read ahead is consumed**. -/
theorem bodyFrom_follows {missing : Nat} (hr : r.Sound) (hdrained : r.Drained)
    (hcount : count ≤ maxWord64) (hout : out.length + missing = count)
    (hretries : retries.toNat = r.link.options.retries) (hk : empties.toNat + k = retries.toNat) :
    Follows (bodyFrom o retries count empties out) (Link.bodyFrom count missing k out) r := by
  induction missing, k, out using Link.bodyFrom.induct generalizing r empties with
  | case1 k out =>
    refine ⟨.ok out, r, bodyFrom_of_full hout, ?_, hr, rfl⟩
    rw [Link.bodyFrom]
    rfl
  | case2 k out missing ihMore ihAgain =>
    have hroom := Nat.min_le_right (missing + 1) r.buffer.length
    rcases fill_reads (o := o) hr hdrained.used hroom with
      ⟨bytes, r', h⟩ | ⟨halt, r', hread, hfill, hr', ho⟩
    · cases bytes with
      | cons b bytes =>
        have hretries' : retries.toNat = r'.link.options.retries := by rw [hretries, h.options]
        exact bodyFrom_more_follows hr hdrained hcount hout h fun hout' =>
          ihMore r.seen b bytes h.sound (h.drained hdrained) hout' hretries' (count_none hretries)
      | nil =>
        refine bodyFrom_none_follows hr hdrained hcount hout hk h fun j r₁ hj hr₁ hfree ho => ?_
        subst hj
        exact ihAgain hr₁ hfree hout (hretries.trans (by rw [ho])) (count_empty hk).2.2
    · rw [hr.length_eq] at hread
      refine ⟨.error halt, r', bodyFrom_of_fill_error hdrained hcount hout hfill, ?_, hr', ho⟩
      rw [Link.bodyFrom, Act.bind_of_ok (Act.run_get r.seen)]
      exact Act.bind_of_error hread

theorem bodyFrom_of_used (hout : out.length < count) (hcount : count ≤ maxWord64) :
    bodyFrom o retries count empties out r
      = bodyFrom o retries count empties out { r with index := 0, count := 0 } := by
  have hmissing : out.length + (count - out.length - 1 + 1) = count := by omega
  rw [bodyFrom_of_lt hmissing hcount, bodyFrom_of_lt hmissing hcount]

theorem buffered_eq (hr : r.Sound) : buffered o r = .ok r.unread.length r := by
  have hle := Nat.le_trans hr.count_le hr.length_le
  unfold buffered
  rw [Act.bind_of_ok (Act.run_get r), minus_eq hr.index_le (by omega), hr.length_unread]

/-- What is read ahead is consumed first, **as far as it goes**. -/
theorem readBytes_eq (hr : r.Sound) (count : Nat) :
    readBytes o count r
      = bodyFrom o (.ofNat r.link.options.retries) count 0 (r.unread.take count)
          { r with index := r.index + min r.unread.length count } := by
  have hunread := hr.length_unread
  have hindex := hr.index_le
  have hle := hr.count_le
  have hword := hr.length_le
  have hbytes : (r.buffer.take (r.index + min r.unread.length count)).drop r.index
      = r.unread.take count := by
    rw [hunread, unread, List.drop_take, List.drop_take, List.take_take]
    congr 1
    omega
  have hstop : r.index + min r.unread.length count ≤ r.buffer.length := by omega
  obtain ⟨hlen, hstretch⟩ := stretch_eq (Nat.le_add_right _ _) hstop
  simp only [hbytes] at hlen hstretch
  unfold readBytes
  rw [Act.bind_of_ok (buffered_eq hr), Act.bind_of_ok (Act.run_get r),
    Act.bind_of_ok (plus_eq (by omega)), Act.bind_of_ok hstretch]
  rfl

theorem readBytes_follows (hr : r.Sound) (hcount : count ≤ maxWord64) :
    Follows (readBytes o count) (Link.readBytes count) r := by
  have hunread := hr.length_unread
  have hindex := hr.index_le
  by_cases hle : count ≤ r.unread.length
  · -- enough is read ahead
    have htake : (r.unread.take count).length = count := List.length_take_of_le hle
    have hadvance : r.index + count ≤ r.count := by omega
    have hseen : seen { r with index := r.index + count }
        = { r.seen with taken := r.seen.taken + count, unread := r.seen.unread.drop count } := by
      simp only [seen, unread, List.drop_drop]
    refine ⟨.ok (r.unread.take count), { r with index := r.index + count }, ?_, ?_, ?_, rfl⟩
    · rw [readBytes_eq hr, Nat.min_eq_right hle, bodyFrom_of_full htake]
      rfl
    · rw [Link.readBytes_of_le hle, Act.settle, hseen]
      rfl
    · exact ⟨hadvance, hr.count_le, hr.length_eq, hr.words⟩
  · -- all of it is consumed, and the rest comes from the stream
    have hlt : r.unread.length < count := by omega
    have htake : r.unread.take count = r.unread := List.take_of_length_le (by omega)
    have hfree : Sound { r with index := 0, count := 0 } :=
      ⟨Nat.le_refl 0, Nat.zero_le _, hr.length_eq, hr.words⟩
    have hmissing : r.unread.length + (count - r.unread.length) = count := by omega
    have hrest := bodyFrom_follows (o := o) hfree ⟨rfl, rfl⟩ hcount hmissing hr.toNat_retries
      (count_none hr.toNat_retries)
    refine hrest.of_step ?_ ?_ rfl
    · rw [readBytes_eq hr, htake, bodyFrom_of_used hlt hcount]
    · have hseen := seen_of_used (r := { r with index := 0, count := 0 }) rfl
      rw [Link.readBytes_of_lt hlt, hseen]
      rfl

theorem readBody_of_poor (hr : r.Sound)
    (h : r.link.readLeft.spend (count - r.unread.length) = none) :
    readBody o count r = fail (.overBudget .read) r := by
  unfold readBody
  rw [Act.bind_of_ok (buffered_eq hr), Act.bind_of_ok (Act.run_get r), h]

theorem readBody_of_solvent {left : Budget} (hr : r.Sound)
    (h : r.link.readLeft.spend (count - r.unread.length) = some left) :
    readBody o count r = readBytes o count r := by
  unfold readBody
  rw [Act.bind_of_ok (buffered_eq hr), Act.bind_of_ok (Act.run_get r), h]

theorem readBody_follows (hr : r.Sound) (hcount : count ≤ maxWord64) :
    Follows (readBody o count) (Link.readBody count) r := by
  cases hs : r.link.readLeft.spend (count - r.unread.length) with
  | none =>
    exact (follows_fail hr _).of_step (readBody_of_poor hr hs) (Link.readBody_of_poor hs) rfl
  | some left =>
    exact (readBytes_follows hr hcount).of_step (readBody_of_solvent hr hs)
      (Link.readBody_of_solvent hs) rfl

end Bodies

end Reader

end HttpEngine
