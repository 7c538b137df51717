import HttpEngine.Proofs.Message.Hearing
import HttpEngine.Proofs.Transport.Reads

/-!
# How many reads a request takes

Header lines may go on for ever, a line may never end, and any read may bring nothing: what ends a
parse **is the read budget**.

* `Draft.headersFrom_bounded`: the header lines.
* `Draft.receive_bounded`: a request.
* `Parser.parse_bounded`: with a budget of `n` bytes and `r` retries, **at most
  `(n + 1) * (r + 1)` reads**.
-/

namespace HttpEngine

open Text Link

theorem Halt.map_ne_cut {ε δ : Type} {f : ε → δ} {halt : Halt ε} (h : halt ≠ .cut) :
    halt.map f ≠ .cut := by
  intro hcut
  cases halt with
  | failed cause => cases hcut
  | cut => exact h rfl
  | trapped => cases hcut

variable {g : Grant} {l : Link}

theorem Link.Stopped.map {ε δ : Type} {halt : Halt ε} (h : l.Stopped g halt) (f : ε → δ) :
    l.Stopped g (halt.map f) :=
  ⟨h.count, fun hc => Halt.map_ne_cut (h.completed hc)⟩

theorem Link.Act.task_bounded {α : Type} {goes : α → Bool} {act : Link.Act α}
    (h : Bounded g goes (act l)) : Bounded g goes (act.task l) := by
  unfold Link.Act.task
  cases hact : act l with
  | ok a l' =>
    rw [hact] at h
    exact h
  | error halt l' =>
    rw [hact] at h
    exact Stopped.map h Error.io

namespace Draft

/-- Each header line leaves the link **as well funded** as it was, so their number does not matter. -/
theorem headersFrom_bounded (soFar : Headers) (h : l.Funded g g.retries) :
    Bounded g Option.isSome (headersFrom soFar l) := by
  have hline := readLine_bounded h
  fun_induction headersFrom soFar l with
  | case1 soFar l halt l' hr =>
    rw [hr] at hline
    exact Stopped.map hline Error.io
  | case2 soFar l l' hr =>
    rw [hr] at hline
    exact bounded_of_stop hline.1 rfl
  | case3 soFar l line l' hr =>
    rw [hr] at hline
    exact (hline.2 rfl).bounded _ _
  | case4 soFar l line l' hr =>
    rw [hr] at hline
    exact stopped_of_failed hline.1 _
  | case5 soFar l line l' hr _ name value _ ih =>
    rw [hr] at hline
    exact ih (hline.2 rfl) (readLine_bounded (hline.2 rfl))

theorem receive_bounded (h : l.Funded g g.retries) :
    Bounded g (fun _ => false) (receive l) := by
  unfold receive
  refine (Act.task_bounded (readLine_bounded h)).bind (fun line? l₁ hline h₁ => ?_)
    fun line? l₁ hline hcount => ?_
  · obtain ⟨line, rfl⟩ := Option.isSome_iff_exists.1 hline
    simp only
    cases requestLine? (line.map latin1Char) with
    | none => exact bounded_of_stop (Nat.le_of_lt h₁.count_lt) rfl
    | some parts =>
      refine (headersFrom_bounded {} h₁).bind (fun headers? l₂ hheaders h₂ => ?_)
        fun headers? l₂ hheaders hcount => ?_
      · obtain ⟨headers, rfl⟩ := Option.isSome_iff_exists.1 hheaders
        simp only
        cases announcedLength headers with
        | error e => exact stopped_of_failed (Nat.le_of_lt h₂.count_lt) e
        | ok length =>
          refine (Act.task_bounded (readBody_bounded length h₂)).bind (fun body l₃ hgoes => ?_)
            fun body l₃ _ hcount => bounded_of_stop hcount rfl
          cases hgoes
      · cases headers? with
        | some headers => cases hheaders
        | none => exact bounded_of_stop hcount rfl
  · cases line? with
    | some line => cases hline
    | none => exact bounded_of_stop hcount rfl

end Draft

namespace Parser

/-- Looking for another method **cuts nothing**. -/
theorem cut_parse_overriding {field : OverrideField} {inner : Parser} {verbs : MethodCache}
    (h : ((overriding field inner verbs).parse l).outcome = .error .cut) :
    (inner.parse l).outcome = .error .cut := by
  rw [parse] at h
  cases hi : inner.parse l with
  | mk outcome inner' l₁ =>
    rw [hi] at h
    cases outcome with
    | error halt => exact h
    | ok request? =>
      cases request? with
      | none => cases h
      | some request =>
        simp only at h
        cases hf : field.read request with
        | none => simp [hf] at h
        | some name =>
          simp only [hf] at h
          cases hv : verbs.provide name with
          | mk found verbs' => cases found <;> simp [hv] at h

theorem parse_funded (p : Parser) (h : l.Funded g g.retries) :
    (p.parse l).link.wire.journal.readCount ≤ g.limit ∧
      (g.start.Completes g.limit → (p.parse l).outcome ≠ .error .cut) := by
  induction p with
  | overriding field inner verbs ih =>
    rw [link_parse_overriding]
    exact ⟨ih.1, fun hc hcut => ih.2 hc (cut_parse_overriding hcut)⟩
  | plain verbs =>
    have hreceive := Draft.receive_bounded h
    unfold parse
    cases hr : Draft.receive l with
    | error halt l' =>
      rw [hr] at hreceive
      exact ⟨hreceive.count, fun hc hcut => hreceive.completed hc (Except.error.inj hcut)⟩
    | ok draft? l' =>
      rw [hr] at hreceive
      cases draft? with
      | none => exact ⟨hreceive.1, fun _ hcut => by cases hcut⟩
      | some draft =>
        simp only
        cases verbs.provide draft.verb with
        | mk found verbs' => cases found <;> exact ⟨hreceive.1, fun _ hcut => by cases hcut⟩

/-- With a budget of `n` bytes and `r` retries a request takes **at most `(n + 1) * (r + 1)` reads**,
whatever they bring, whatever was read ahead and however a method is asked for. Where that many reads
complete the parse **comes to an end**, be it with a request, with none or with a failure; what the
stream would do after them is nothing to it. -/
theorem parse_bounded (p : Parser) (l : Link) {n : Nat} (h : l.readLeft = some n) :
    (p.parse l).link.wire.journal.readCount
        ≤ l.wire.journal.readCount + (n + 1) * (l.options.retries + 1) ∧
      (l.wire.Calm → l.wire.inbound.Answers ((n + 1) * (l.options.retries + 1)) →
        (p.parse l).outcome ≠ .error .cut) := by
  let limit := l.wire.journal.readCount + (n + 1) * (l.options.retries + 1)
  have hfunded : l.Funded ⟨l.wire, limit, l.options.retries⟩ l.options.retries := by
    refine ⟨rfl, ⟨n, h, Nat.le_of_eq ?_⟩, id⟩
    show _ = l.wire.journal.readCount + (n + 1) * (l.options.retries + 1)
    rw [Nat.succ_mul, Nat.add_assoc]
  obtain ⟨hcount, hends⟩ := parse_funded p hfunded
  refine ⟨hcount, fun hcalm hanswers => hends ⟨hcalm, ?_⟩⟩
  show l.wire.inbound.Answers (limit - l.wire.journal.readCount)
  rwa [Nat.add_sub_cancel_left]

/-- A link with a budget of two bytes and one retry, over a stream that brings a byte at every other
read and **never completes a seventh**. -/
def parched : Link :=
  { wire :=
      { inbound := .script
          { pieces := [.data [], .data [71], .data [], .data [69], .data [], .data [84]]
            hangs := true } }
    readLeft := some 2
    options := { retries := 1 } }

theorem parse_bounded_parched :
    (basic.parse parched).link.wire.journal.readCount ≤ 6 ∧
      (basic.parse parched).outcome ≠ .error .cut := by
  have hleft : parched.readLeft = some 2 := rfl
  obtain ⟨hcount, hends⟩ := parse_bounded basic parched hleft
  exact ⟨hcount, hends ⟨rfl, rfl⟩ fun _ => by decide⟩

/-- No fewer reads would do. -/
example : (basic.parse parched).link.wire.journal.readCount = 6 := by decide +kernel

end Parser

end HttpEngine
