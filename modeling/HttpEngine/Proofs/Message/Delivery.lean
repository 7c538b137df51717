import HttpEngine.Message.Delivery
import HttpEngine.Proofs.Transport.Writing

/-!
# What a response comes to on the stream

* `Script.contents_of_answer`: one read of a source, and what is left of its contents after it.
* `Script.collect_eq`, `Body.collect_eq_contents`: what is collected.
* `Body.contents`: the bytes of a body, and how they end.
* `Link.copyFrom_wrote`: a source that ends is copied **to its last byte**.
* `Response.deliver_wrote`: head and body, and nothing held afterwards.
-/

namespace HttpEngine

namespace Script

variable {s rest : Script} {room : Nat} {b : UInt8} {bytes : Bytes}

theorem go_congr {s t : Script} (h : s.hangs = t.hangs) (pieces : List Piece) :
    contents.go s pieces = contents.go t pieces := by
  fun_induction contents.go s pieces with
  | case1 => simp only [contents.go, h]
  | case2 => rfl
  | case3 => rfl
  | case4 b bytes pieces ih => simp only [contents.go, ih]

theorem contents_data (b : UInt8) (bytes : Bytes) (pieces : List Piece) (hangs : Bool) :
    contents ⟨.data (b :: bytes) :: pieces, hangs⟩
      = (b :: bytes ++ (contents ⟨pieces, hangs⟩).1, (contents ⟨pieces, hangs⟩).2) := by
  have := go_congr (s := ⟨.data (b :: bytes) :: pieces, hangs⟩) (t := ⟨pieces, hangs⟩) rfl pieces
  simp only [contents, contents.go, this]

/-- The contents of a source that **answers a read so**. -/
def contentsFrom : Option (Except IoError Bytes × Script) → Bytes × Ending
  | none => ([], .never)
  | some (.error cause, _) => ([], .failed cause)
  | some (.ok [], _) => ([], .ended)
  | some (.ok (b :: bytes), rest) => (b :: bytes ++ rest.contents.1, rest.contents.2)

/-- **One read**, whatever it meets, says how the contents begin. -/
theorem contents_of_answer (s : Script) (hroom : 0 < room) :
    s.contents = contentsFrom (s.read room) := by
  obtain ⟨pieces, hangs⟩ := s
  match pieces with
  | [] => cases hangs <;> rfl
  | .failure cause :: pieces => rfl
  | .data [] :: pieces => rfl
  | .data (b :: data) :: pieces =>
    obtain ⟨n, rfl⟩ : ∃ n, room = n + 1 := ⟨room - 1, by omega⟩
    rw [contents_data]
    by_cases hlt : n + 1 < (b :: data).length
    · -- what does not fit stays in front, so the rest begins with a byte
      obtain ⟨c, left, hd⟩ : ∃ c left, data.drop n = c :: left := by
        refine List.exists_cons_of_ne_nil fun hnil => ?_
        have hle := List.drop_eq_nil_iff.1 hnil
        rw [List.length_cons] at hlt
        omega
      simp only [read, hlt, if_true, List.take_succ_cons, List.drop_succ_cons, contentsFrom, hd,
        contents_data]
      rw [← hd]
      simp only [List.cons_append, ← List.append_assoc, List.take_append_drop]
    · simp only [read, hlt, if_false, contentsFrom]

/-- A source whose contents end can be read, and **a read takes from their front**. -/
theorem read_of_ended (h : s.contents.2 = .ended) (hroom : 0 < room) :
    (∃ rest, s.read room = some (.ok [], rest) ∧ s.contents.1 = []) ∨
      ∃ b bytes rest, s.read room = some (.ok (b :: bytes), rest) ∧
        s.contents.1 = b :: bytes ++ rest.contents.1 ∧ rest.contents.2 = .ended := by
  rw [s.contents_of_answer hroom] at h ⊢
  cases hread : s.read room with
  | none =>
    rw [hread] at h
    cases h
  | some step =>
    obtain ⟨answer, rest⟩ := step
    rw [hread] at h
    cases answer with
    | error cause => cases h
    | ok bytes =>
      cases bytes with
      | nil => exact .inl ⟨rest, rfl, rfl⟩
      | cons b bytes => exact .inr ⟨b, bytes, rest, rfl, rfl, h⟩

/-- Reading until a read is empty **collects the contents**, however much room the reads have. -/
theorem collect_eq (s : Script) (soFar : Bytes) :
    s.collect soFar = (soFar ++ s.contents.1, s.contents.2) := by
  have hroom : ∀ bytes : Bytes, 0 < max 32 bytes.length := fun bytes =>
    Nat.lt_of_lt_of_le (by decide) (Nat.le_max_left _ _)
  -- on the reads; what one brings is in front of what the others do
  fun_induction collect s soFar with
  | case1 s soFar hread =>
    rw [contents_of_answer s (hroom soFar), hread]
    simp only [contentsFrom, List.append_nil]
  | case2 s soFar cause rest hread =>
    rw [contents_of_answer s (hroom soFar), hread]
    simp only [contentsFrom, List.append_nil]
  | case3 s soFar rest hread =>
    rw [contents_of_answer s (hroom soFar), hread]
    simp only [contentsFrom, List.append_nil]
  | case4 s soFar b bytes rest hread ih =>
    rw [ih, contents_of_answer s (hroom soFar), hread]
    simp only [contentsFrom, List.append_assoc]

end Script

/-- The bytes of a body, and how they end. -/
def Body.contents : Body → Bytes × Ending
  | empty => ([], .ended)
  | bytes data => (data, .ended)
  | reader source => source.contents

theorem Body.collect_eq_contents (b : Body) : b.collect = b.contents := by
  cases b with
  | empty => rfl
  | bytes data => rfl
  | reader source =>
    rw [collect, Script.collect_eq, List.nil_append]
    rfl

/-- A block with **nothing read into it** since it was last written out. -/
structure Block.Clear (b : Block) : Prop where
  unended : b.ended = false
  filled : b.filled = 0
  unwritten : b.unwritten = []

/-- What comes of filling a block from a source whose contents **begin so**. -/
inductive Block.Filling (b : Block) : Except IoError Block → Prop
  | failed {cause : IoError} : b.source.contents = ([], .failed cause) → Filling b (.error cause)
  | never : b.source.contents = ([], .never) → Filling b (.ok b)
  | ended {c : Block} : b.source.contents = ([], .ended) → c.ended = true → c.filled = 0 →
      c.unwritten = [] → Filling b (.ok c)
  | more {c : Block} :
      b.source.contents = (c.unwritten ++ c.source.contents.1, c.source.contents.2) →
      c.ended = false → c.filled = c.unwritten.length → c.unwritten ≠ [] → Filling b (.ok c)

theorem Block.Clear.filling {b : Block} (h : b.Clear) : Filling b b.fill := by
  have hcontents : b.source.contents = _ :=
    b.source.contents_of_answer (show 0 < Block.size by decide)
  have hroom : ¬ Block.size ≤ 0 := by decide
  unfold Block.fill
  simp only [h.unended, h.filled, h.unwritten, Nat.sub_zero, Nat.zero_add, List.nil_append,
    Bool.false_or, decide_eq_true_eq, hroom, if_false]
  cases hread : b.source.read Block.size with
  | none =>
    rw [hread] at hcontents
    exact .never hcontents
  | some step =>
    obtain ⟨answer, rest⟩ := step
    rw [hread] at hcontents
    cases answer with
    | error cause => exact .failed hcontents
    | ok bytes =>
      cases bytes with
      | nil => exact .ended hcontents rfl rfl rfl
      | cons c bytes => exact .more hcontents rfl rfl (List.cons_ne_nil c bytes)

/-- A block that can be filled with what is left of a source that ends. -/
structure Block.Fresh (b : Block) : Prop where
  unended : b.ended = false
  filled : b.filled = 0
  unwritten : b.unwritten = []
  whole : b.source.contents.2 = .ended

/-- A fresh block takes in **the front of its source**, or learns that there is nothing more. -/
theorem Block.Fresh.fill {b : Block} (h : b.Fresh) :
    ∃ c, b.fill = .ok c ∧
      (c.ended = true ∧ c.unwritten = [] ∧ b.source.contents.1 = [] ∨
        c.ended = false ∧ c.unwritten ≠ [] ∧ c.emptied.Fresh ∧
          b.source.contents.1 = c.unwritten ++ c.source.contents.1) := by
  have hclear : b.Clear := ⟨h.unended, h.filled, h.unwritten⟩
  have hwhole := h.whole
  have hfilling := hclear.filling
  generalize b.fill = filled at hfilling ⊢
  cases hfilling with
  | failed hcontents =>
    rw [hcontents] at hwhole
    cases hwhole
  | never hcontents =>
    rw [hcontents] at hwhole
    cases hwhole
  | ended hcontents hended _ hnil =>
    exact ⟨_, rfl, .inl ⟨hended, hnil, congrArg Prod.fst hcontents⟩⟩
  | more hcontents hopen _ hne =>
    rw [hcontents] at hwhole
    exact ⟨_, rfl, .inr ⟨hopen, hne, ⟨hopen, rfl, rfl, hwhole⟩, congrArg Prod.fst hcontents⟩⟩

namespace Link

variable {l : Link}

theorem pushBlock_wrote (begun : Bool) (b : Block) (h : l.Ready) :
    ∃ l', pushBlock begun b l = .ok none l' ∧ Wrote b.unwritten l l' := by
  obtain ⟨l', he, hw⟩ := offerAll_wrote begun b.unwritten h
  refine ⟨l', ?_, hw⟩
  rw [pushBlock, Act.run_bind, he]
  rfl

/-- A source that ends is copied **to its last byte**. -/
theorem copyFrom_wrote (begun : Bool) {block : Block} (h : l.Ready) (hb : block.Fresh) :
    ∃ l', copyFrom begun block l = .ok () l' ∧ Wrote block.source.contents.1 l l' := by
  -- on the blocks; before each the source is whole and the block empty
  fun_induction copyFrom begun block generalizing l with
  | case1 begun block cause hfill =>
    -- a source that ends never fails to fill a block
    obtain ⟨c, hc, -⟩ := hb.fill
    rw [hfill] at hc
    cases hc
  | case2 begun block b hfill _ ihNext =>
    obtain ⟨c, hc, hcases⟩ := hb.fill
    rw [hfill] at hc
    cases hc
    obtain ⟨l₁, hpush, hw⟩ := pushBlock_wrote begun b h
    rcases hcases with ⟨hended, hnil, hall⟩ | ⟨hopen, hne, hfresh, hsplit⟩
    · -- nothing more came of the source, and nothing of it was left
      refine ⟨l₁, ?_, by rw [hall, ← hnil]; exact hw⟩
      rw [Act.run_bind, hpush]
      simp only [hended, if_true]
      rfl
    · obtain ⟨l', hcopy, hw'⟩ := ihNext hne hw.ready hfresh
      refine ⟨l', ?_, by rw [hsplit]; exact hw.trans hw'⟩
      rw [Act.run_bind, hpush]
      simp only [hopen, hne, Bool.false_eq_true, if_false]
      exact hcopy

end Link

/-- Head and body are put on the stream, and **nothing is held** afterwards. -/
theorem Response.deliver_wrote {l : Link} (r : Response) (cookies : Option CookieStore)
    (h : l.Ready) (hc : r.body.contents.2 = .ended) :
    ∃ l', r.deliver cookies l = .ok () l' ∧
      l.Wrote (Text.utf8 (r.head cookies) ++ r.body.contents.1) l' ∧ l'.held = [] := by
  -- the head, the body, and what is still held
  obtain ⟨l₁, hhead, hw₁⟩ := Link.writeAll_wrote (Text.utf8 (r.head cookies)) h
  have hbody : ∃ l₂, r.body.writeTo l₁ = .ok () l₂ ∧ Link.Wrote r.body.contents.1 l₁ l₂ := by
    cases hb : r.body with
    | empty => exact ⟨l₁, rfl, hw₁.ready.wrote_nil⟩
    | bytes data => exact Link.writeAll_wrote data hw₁.ready
    | reader source =>
      rw [hb] at hc
      exact Link.copyFrom_wrote false hw₁.ready ⟨rfl, rfl, rfl, hc⟩
  obtain ⟨l₂, hpayload, hw₂⟩ := hbody
  obtain ⟨l', hsend, hw₃, hheld⟩ := Link.send_wrote hw₂.ready
  refine ⟨l', ?_, ?_, hheld⟩
  · simp only [deliver, Act.run_bind, hhead, hpayload, hsend]
  · have := (hw₁.trans hw₂).trans hw₃
    rwa [List.append_nil] at this

end HttpEngine
