import HttpEngine.Message.Progress
import HttpEngine.Proofs.Transport.Hearing

/-!
# Receiving a request writes nothing

Whatever comes of it, `Parser.parse` only adds to the journal what it reads, and **leaves what is
written alone**.
-/

namespace HttpEngine

open Text

theorem Link.Act.leaves_task {α : Type} (act : Link.Act α) (l : Link) :
    HttpEngine.Act.leaves act.task l = HttpEngine.Act.leaves act l := by
  unfold HttpEngine.Act.leaves Link.Act.task
  cases act l <;> rfl

theorem Link.Act.task_heard {α : Type} {act : Link.Act α} (h : Act.Keeps Link.Heard act) :
    Act.Keeps Link.Heard act.task := by
  intro l
  rw [leaves_task]
  exact h l

namespace Draft

theorem headersFrom_heard (soFar : Headers) : Act.Keeps Link.Heard (headersFrom soFar) := by
  intro l
  have hline := Link.readLine_heard l
  unfold Act.leaves at hline ⊢
  fun_induction headersFrom soFar l with
  | case1 soFar l halt l' h => rwa [h] at hline
  | case2 soFar l l' h => rwa [h] at hline
  | case3 soFar l line l' h => rwa [h] at hline
  | case4 soFar l line l' h => rwa [h] at hline
  | case5 soFar l line l' h _ name value _ ih =>
    rw [h] at hline
    exact Link.Heard.trans hline (ih (Link.readLine_heard l'))

theorem receive_heard : Act.Keeps Link.Heard receive := by
  have htrans : ∀ {l₁ l₂ l₃ : Link}, l₁.Heard l₂ → l₂.Heard l₃ → l₁.Heard l₃ :=
    fun h k => h.trans k
  unfold receive
  refine Act.keeps_bind htrans (Link.Act.task_heard Link.readLine_heard) fun line? => ?_
  cases line? with
  | none => exact Link.Heard.refl
  | some line =>
    simp only
    cases requestLine? (line.map latin1Char) with
    | none => exact Link.Heard.refl
    | some parts =>
      refine Act.keeps_bind htrans (headersFrom_heard {}) fun headers? => ?_
      cases headers? with
      | none => exact Link.Heard.refl
      | some headers =>
        simp only
        cases announcedLength headers with
        | error e => exact Link.Heard.refl
        | ok length =>
          exact Act.keeps_bind htrans (Link.Act.task_heard (Link.readBody_heard length))
            fun body => Link.Heard.refl

end Draft

/-- Looking for another method **leaves the link alone**. -/
theorem Parser.link_parse_overriding (field : OverrideField) (inner : Parser) (verbs : MethodCache)
    (l : Link) : ((Parser.overriding field inner verbs).parse l).link = (inner.parse l).link := by
  rw [parse]
  cases inner.parse l with
  | mk outcome inner' l₁ =>
    match outcome with
    | .error halt => rfl
    | .ok none => rfl
    | .ok (some request) =>
      simp only
      cases field.read request with
      | none => rfl
      | some name =>
        simp only
        cases verbs.provide name with
        | mk found verbs' => cases found <;> rfl

/-- Receiving a request **writes nothing**, whatever comes of it. -/
theorem Parser.parse_heard (p : Parser) (l : Link) : l.Heard (p.parse l).link := by
  induction p with
  | plain verbs =>
    have hreceive := Draft.receive_heard l
    unfold Act.leaves at hreceive
    unfold parse
    cases h : Draft.receive l with
    | error halt l' =>
      rw [h] at hreceive
      exact hreceive
    | ok draft? l' =>
      rw [h] at hreceive
      cases draft? with
      | none => exact hreceive
      | some draft =>
        simp only
        cases verbs.provide draft.verb with
        | mk found verbs' =>
          cases found with
          | error e => exact hreceive
          | ok m => exact hreceive.trans ⟨rfl, rfl, Journal.grows_cons rfl⟩
  | overriding field inner verbs ih =>
    rw [link_parse_overriding]
    exact ih

end HttpEngine
