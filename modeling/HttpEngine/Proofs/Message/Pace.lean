import HttpEngine.Proofs.Message.Hearing
import HttpEngine.Proofs.Message.Parsing
import HttpEngine.Proofs.Transport.Pace

/-!
# Requests and responses that are cut earlier

Receiving a request can be cut **before each of its reads**, and both receiving and answering leave
the steps they do not take to what follows.

* `Draft.receive_waits`, `Parser.parse_cut`: receiving a request.
* `Parser.parse_goes`, `Response.deliver_goes`: what succeeds takes a number of steps.
-/

namespace HttpEngine

open Text

theorem Link.Waits.task {α : Type} {act : Link.Act α} (h : Link.Waits act) :
    Link.Waits act.task where
  goes l a l' ha := by
    rw [Link.Act.task_eq_ok] at ha
    obtain ⟨n, hn⟩ := h.goes l a l' ha
    exact ⟨n, fun k => Link.Act.task_eq_ok.2 (hn k)⟩
  grows l := by
    rw [Link.Act.leaves_task]
    exact h.grows l
  cut {l t older} ht hread hl := by
    rw [Link.Act.leaves_task] at hread
    obtain ⟨k, l', hcut, hj⟩ := h.cut ht hread hl
    exact ⟨k, l', by simp only [Link.Act.task, hcut, Halt.map], hj⟩

namespace Draft

theorem headersFrom_goes (soFar : Headers) : Act.Goes Link.within (headersFrom soFar) := by
  intro l headers? l' h
  -- on the lines; each takes its steps, and the next ones theirs
  fun_induction headersFrom soFar l with
  | case1 => cases h
  | case2 soFar l l₁ hline =>
    cases h
    obtain ⟨n, hn⟩ := Link.readLine_waits.goes l _ _ hline
    exact ⟨n, fun k => by rw [headersFrom_eq, hn]⟩
  | case3 soFar l line l₁ hline hempty =>
    cases h
    obtain ⟨n, hn⟩ := Link.readLine_waits.goes l _ _ hline
    exact ⟨n, fun k => by rw [headersFrom_eq, hn]; simp only [hempty, if_true]⟩
  | case4 => cases h
  | case5 soFar l line l₁ hline hempty name value hentry ih =>
    obtain ⟨n, hn⟩ := Link.readLine_waits.goes l _ _ hline
    obtain ⟨m, hm⟩ := ih h
    refine ⟨n + m, fun k => ?_⟩
    rw [headersFrom_eq, Nat.add_assoc, hn]
    simp only [hempty, hentry]
    exact hm k

theorem headersFrom_later (soFar : Headers) : Act.Keeps Link.Later (headersFrom soFar) :=
  fun l => (headersFrom_heard soFar l).grows.suffix

theorem headersFrom_waits (soFar : Headers) : Link.Waits (headersFrom soFar) where
  goes := headersFrom_goes soFar
  grows := headersFrom_later soFar
  cut {l t older} ht hread hl := by
    -- a read in the first line cuts there
    have hfirst : ∀ {soFar : Headers} {l : Link}, l.wire.journal <:+ older →
        (.transfer t :: older) <:+ (Act.leaves Link.readLine l).wire.journal →
        ∃ k l', headersFrom soFar (l.within k) = .error .cut l' ∧ l'.wire.journal = older := by
      intro soFar l hl hread
      obtain ⟨k, l', hcut, hj⟩ := Link.readLine_waits.cut ht hread hl
      exact ⟨k, l', by rw [headersFrom_eq, hcut]; rfl, hj⟩
    unfold Act.leaves at hread
    fun_induction headersFrom soFar l with
    | case1 soFar l halt l₁ hline =>
      exact hfirst hl (by rwa [Act.leaves_of_error hline])
    | case2 soFar l l₁ hline =>
      exact hfirst hl (by rwa [Act.leaves_of_ok hline])
    | case3 soFar l line l₁ hline hempty =>
      exact hfirst hl (by rwa [Act.leaves_of_ok hline])
    | case4 soFar l line l₁ hline hempty hentry =>
      exact hfirst hl (by rwa [Act.leaves_of_ok hline])
    | case5 soFar l line l₁ hline hempty name value hentry ih =>
      rcases Journal.behind_or_ahead hread (headersFrom_later _ l₁) with hbehind | hahead
      · exact hfirst hl (by rwa [Act.leaves_of_ok hline])
      · obtain ⟨n, hn⟩ := Link.readLine_waits.goes l _ _ hline
        obtain ⟨k, l', hcut, hj⟩ := ih hread hahead
        refine ⟨n + k, l', ?_, hj⟩
        rw [headersFrom_eq, hn]
        simp only [hempty, hentry]
        exact hcut

theorem receive_waits : Link.Waits receive := by
  unfold receive
  refine Link.readLine_waits.task.bind fun line? => ?_
  cases line? with
  | none => exact Link.waits_pure _
  | some line =>
    simp only
    cases requestLine? (line.map latin1Char) with
    | none => exact Link.waits_pure _
    | some parts =>
      refine (headersFrom_waits {}).bind fun headers? => ?_
      cases headers? with
      | none => exact Link.waits_pure _
      | some headers =>
        simp only
        cases announcedLength headers with
        | error e => exact Link.waits_throw _
        | ok length => exact (Link.readBody_waits length).task.bind fun body => Link.waits_pure _

end Draft

namespace Parser

variable {p p' inner : Parser} {l l₁ l₂ l' : Link} {request : Request} {field : OverrideField}
  {verbs : MethodCache}

/-- A request that asks for another method **came of a request**. -/
theorem received_of_overriding
    (h : (overriding field inner verbs).parse l = ⟨.ok (some request), p', l'⟩) :
    ∃ request' inner', inner.parse l = ⟨.ok (some request'), inner', l'⟩ := by
  have hlink := link_parse_overriding field inner verbs l
  rw [h] at hlink
  rw [parse] at h
  cases hi : inner.parse l with
  | mk outcome inner' l₁ =>
    rw [hi] at h hlink
    cases outcome with
    | error halt => cases h
    | ok request? =>
      cases request? with
      | none => cases h
      | some request' =>
        cases hlink
        exact ⟨request', inner', rfl⟩

/-- Where a request came on another link, what is made of it is **the same on that link**. -/
theorem parse_overriding_onto (h : inner.parse l₁ = { inner.parse l with link := l₂ }) :
    (overriding field inner verbs).parse l₁
      = { (overriding field inner verbs).parse l with link := l₂ } := by
  rw [parse, parse, h]
  cases inner.parse l with
  | mk outcome inner' l' =>
    cases outcome with
    | error halt => rfl
    | ok request? =>
      cases request? with
      | none => rfl
      | some request =>
        simp only
        cases field.read request with
        | none => rfl
        | some name =>
          simp only
          cases verbs.provide name with
          | mk found verbs' => cases found <;> rfl

/-- A request that is received is received **within some number of steps**. -/
theorem parse_goes (h : p.parse l = ⟨.ok (some request), p', l'⟩) :
    ∃ n, ∀ k, p.parse (l.within (n + k)) = ⟨.ok (some request), p', l'.within k⟩ := by
  induction p generalizing p' request l' with
  | plain verbs =>
    rw [parse] at h
    cases hr : Draft.receive l with
    | error halt l₁ =>
      rw [hr] at h
      cases h
    | ok draft? l₁ =>
      rw [hr] at h
      obtain ⟨n, hn⟩ := Draft.receive_waits.goes l _ _ hr
      cases draft? with
      | none => cases h
      | some draft =>
        refine ⟨n, fun k => ?_⟩
        rw [parse, hn]
        simp only at h ⊢
        cases hv : verbs.provide draft.verb with
        | mk found verbs' =>
          rw [hv] at h
          cases found with
          | error e => cases h
          | ok m =>
            cases h
            rfl
  | overriding field inner verbs ih =>
    obtain ⟨request', inner', hi⟩ := received_of_overriding h
    obtain ⟨n, hn⟩ := ih hi
    refine ⟨n, fun k => ?_⟩
    have hinner : inner.parse (l.within (n + k)) = { inner.parse l with link := l'.within k } := by
      rw [hn, hi]
    rw [parse_overriding_onto hinner, h]

/-- Whenever something is read while a request is received, receiving it can be cut **just
before**. -/
theorem parse_cut {t : Transfer} {older : Journal} (ht : t.isRead = true)
    (hread : (.transfer t :: older) <:+ (p.parse l).link.wire.journal)
    (hl : l.wire.journal <:+ older) :
    ∃ k p' l', p.parse (l.within k) = ⟨.error .cut, p', l'⟩ ∧ l'.wire.journal = older := by
  induction p with
  | plain verbs =>
    have hreceive : (.transfer t :: older) <:+ (Act.leaves Draft.receive l).wire.journal := by
      unfold parse at hread
      unfold Act.leaves
      cases hr : Draft.receive l with
      | error halt l₁ =>
        rw [hr] at hread
        exact hread
      | ok draft? l₁ =>
        rw [hr] at hread
        cases draft? with
        | none => exact hread
        | some draft =>
          simp only at hread ⊢
          cases hv : verbs.provide draft.verb with
          | mk found verbs' =>
            rw [hv] at hread
            cases found with
            | error e => exact hread
            | ok m =>
              -- what is noted of a request that was received is no read
              rcases List.suffix_cons_iff.1 hread with h | h
              · cases h
              · exact h
    obtain ⟨k, l', hcut, hj⟩ := Draft.receive_waits.cut ht hreceive hl
    exact ⟨k, plain verbs, l', by unfold parse; rw [hcut], hj⟩
  | overriding field inner verbs ih =>
    rw [link_parse_overriding] at hread
    obtain ⟨k, inner', l', hcut, hj⟩ := ih hread
    exact ⟨k, overriding field inner' verbs, l', by unfold parse; rw [hcut], hj⟩

end Parser

/-! ### Answering -/

theorem Body.writeTo_goes (b : Body) : Act.Goes Link.within b.writeTo := by
  cases b with
  | empty => exact Act.goes_pure _
  | bytes data => exact Link.writeAll_goes data
  | reader source => exact Link.copyFrom_goes false { source := source }

theorem Response.deliver_goes (r : Response) (cookies : Option CookieStore) :
    Act.Goes Link.within (r.deliver cookies) :=
  (Link.writeAll_goes _).bind fun _ => (Body.writeTo_goes r.body).bind fun _ => Link.send_goes

end HttpEngine
