import HttpEngine.Handling.Stock
import HttpEngine.Proofs.Handling.Moments
import Mathlib.Data.List.Forall2

/-!
# Handlers around each other

A handler that goes on is left after everything behind it was, unless it drops that half-way. So the
handlers of a chain are **entered in their order and left in the opposite one**, and each hears how the
one directly inside it ended.

* `Next.through_eq`, `Chain.passage_append`: a chain cut in two.
* `Chain.Member.trace_moment`: the lines of handlers that note going in and coming out, at any moment.
* `Chain.passage_timed`, `Chain.alike_timed`: a handler that only watches the time.
* `Chain.nested_run`: what holds of every run of a chain.
-/

namespace HttpEngine

/-! ### A chain cut in two -/

namespace Next

theorem remaining_through (handlers : List Handler) (rest : Next) :
    (through handlers rest).remaining = handlers.length + rest.remaining := by
  induction handlers with
  | nil => simp [through]
  | cons h handlers ih =>
    show (through handlers rest).remaining + 1 = _
    rw [ih, List.length_cons]
    omega

theorem through_append (front back : List Handler) (rest : Next) :
    through (front ++ back) rest = through front (through back rest) :=
  List.foldr_append

/-- What a handler in front of others goes on to **is the chain of these**. -/
theorem through_eq (handlers : List Handler) :
    through handlers done = ⟨handlers.length, (Chain.mk handlers).passage⟩ := by
  have h := remaining_through handlers done
  rw [show done.remaining = 0 from rfl, Nat.add_zero] at h
  rw [← h]
  rfl

end Next

namespace Chain

/-- A chain is its front, **with its back to go on to**: at every wait, and in the end. -/
theorem passage_append (front back : List Handler) (c : Context) :
    (mk (front ++ back)).passage c = (Next.through front ⟨back.length, (mk back).passage⟩).run c := by
  rw [passage, Next.through_append, Next.through_eq]

end Chain

/-! ### Lines noted on the way in and out -/

/-- The lines noted that are of a kind, **oldest first**. -/
def Context.trace (mine : String → Bool) (c : Context) : List String := c.notes.filter mine

theorem Context.trace_note {mine : String → Bool} {line : String} (h : mine line = true)
    (c : Context) : (c.note line).trace mine = c.trace mine ++ [line] := by
  simp [trace, note, notes, h]

/-- A handler of a chain: one that **notes going in and coming out**, or any other. -/
inductive Chain.Member
  | recorder (name : String) (phased : Bool)
  | other (h : Handler)

/-- How things stand at **each moment** of a passage. -/
def Passage.moments {α : Type} (p : Passage α) : List α := p.waits ++ [p.last]

theorem Passage.mem_moments_of_at {α : Type} {p : Passage α} {a : α}
    {back? : Option (Return × α)} (h : p.At a back?) : a ∈ p.moments :=
  h.elim (fun ⟨ha, _⟩ => List.mem_append_left _ ha)
    fun ⟨ha, _⟩ => List.mem_append_right _ (List.mem_singleton.2 ha)

theorem Passage.at_of_mem_moments {α : Type} {p : Passage α} {a : α} (h : a ∈ p.moments) :
    ∃ back?, p.At a back? :=
  (List.mem_append.1 h).elim (fun ha => ⟨none, .inl ⟨ha, rfl⟩⟩)
    fun ha => ⟨p.end?, .inr ⟨List.mem_singleton.1 ha, rfl⟩⟩

theorem Passage.moments_map {α β : Type} (f : α → β) (p : Passage α) :
    (p.map f).moments = p.moments.map f := by
  simp [moments, map]

namespace Chain.Member

/-- The handler itself. -/
def handler : Member → Handler
  | recorder name phased => Handler.record name phased
  | other h => h

/-- The line noted when going in: **how many handlers come after it**. -/
def lineIn? (remaining : Nat) (c : Context) : Member → Option String
  | recorder name phased =>
    let phase := match c.phase? with
      | some p => if phased then " " ++ p.word else ""
      | none => ""
    some (name ++ " in, " ++ toString remaining ++ " left" ++ phase)
  | other _ => none

/-- The line noted when the rest of the chain comes back, with **the error heard of** if there was
one; none for a rest that did not come back. -/
def lineOut? (heard : Option (Return × Context)) : Member → Option String
  | recorder name _ =>
    match heard with
    | some (.done, c) => some (name ++ " out, " ++ c.statusText)
    | some (.failed text, _) => some (name ++ " error: " ++ text)
    | some (.dropped, _) => none
    | none => none
  | other _ => none

/-- Lines that begin with the name of a recorder are of this kind, and **no other handler** adds or
takes one. -/
def Keeps (mine : String → Bool) : Member → Prop
  | recorder name _ => ∀ rest, mine (name ++ rest) = true
  | other h => ∀ n c,
    match h n c with
    | .finish p => ∀ d ∈ p.moments, d.trace mine = c.trace mine
    | .proceed waits d _ leave => (∀ w ∈ d :: waits, w.trace mine = c.trace mine) ∧
        ∀ r e, ∀ f ∈ (leave r e).moments, f.trace mine = e.trace mine

/-- The members that were entered, with their visits. -/
def visited (members : List Member) (visits : List Visit) : List (Member × Visit) :=
  members.zip visits

variable {mine : String → Bool} {members : List Member} {m : Member} {visits : List Visit}
  {c d : Context} {back? : Option (Return × Context)}

/-- The members that were entered are **the first ones**. -/
theorem visited_prefix (members : List Member) (visits : List Visit) :
    (visited members visits).map Prod.fst <+: members := by
  unfold visited
  induction members generalizing visits with
  | nil => simp
  | cons m rest ih =>
    cases visits with
    | nil => simp
    | cons v visits => simpa using ih visits

/-- The lines noted by members that go in and come out: those of **going in, in the order of the
chain**, and then those of **coming out, in the opposite one**. -/
def lines (entered : List (Member × Visit)) : List String :=
  entered.filterMap (fun e => e.1.lineIn? e.2.remaining e.2.entered) ++
    entered.reverse.filterMap fun e => e.1.lineOut? e.2.heard

theorem filterMap_cons_toList {α β : Type} (f : α → Option β) (a : α) (l : List α) :
    (a :: l).filterMap f = (f a).toList ++ l.filterMap f := by
  rw [List.filterMap_cons]
  cases f a <;> rfl

/-- The lines of one member **are around** the lines of those inside it. -/
theorem lines_cons (m : Member) (v : Visit) (inner : List (Member × Visit)) :
    lines ((m, v) :: inner) = (m.lineIn? v.remaining v.entered).toList ++ lines inner ++
      (m.lineOut? v.heard).toList := by
  have hlast : ∀ o : Option String, [o].filterMap id = o.toList := fun o => by cases o <;> rfl
  simp only [lines, filterMap_cons_toList, List.reverse_cons, List.filterMap_append,
    List.filterMap_nil, List.append_nil, List.append_assoc]

theorem lines_nil : lines [] = [] := rfl

theorem lineOut?_none (m : Member) : m.lineOut? none = none := by cases m <;> rfl

/-- One that does not go on, and is no recorder, **notes no line**. -/
theorem Keeps.alone (h : m.Keeps mine) {n : Nat} {p : Passage Context}
    (enters : m.handler n c = .finish p) (hd : d ∈ p.moments) :
    d.trace mine = c.trace mine ++ (m.lineIn? n c).toList := by
  cases m with
  | recorder name phased => cases enters
  | other k =>
    have hk := h n c
    rw [show k n c = .finish p from enters] at hk
    simp [lineIn?, hk d hd]

/-- One that goes on **has noted going in**, if it is a recorder, and waits for nothing before. -/
theorem Keeps.goingIn (h : m.Keeps mine) {n : Nat} {waits : List Context} {patience : Option Nat}
    {leave : Return → Context → Passage Context}
    (enters : m.handler n c = .proceed waits d patience leave) :
    d.trace mine = c.trace mine ++ (m.lineIn? n c).toList ∧
      ∀ w ∈ waits, w.trace mine = c.trace mine ++ (m.lineIn? n c).toList := by
  cases m with
  | recorder name phased =>
    cases enters
    refine ⟨Context.trace_note ?_ c, fun w hw => absurd hw List.not_mem_nil⟩
    simp only [String.append_assoc]
    exact h _
  | other k =>
    have hk := h n c
    rw [show k n c = .proceed waits d patience leave from enters] at hk
    obtain ⟨hd, hwaits⟩ := List.forall_mem_cons.1 hk.1
    simp only [lineIn?, Option.toList_none, List.append_nil]
    exact ⟨hd, hwaits⟩

/-- One that **heard how the rest of the chain came back** has noted so, if it is a recorder; a recorder
never drops the rest. -/
theorem Keeps.comingOut (h : m.Keeps mine) {n : Nat} {waits : List Context} {patience : Option Nat}
    {leave : Return → Context → Passage Context} {r : Return} {c₀ e : Context}
    (enters : m.handler n c = .proceed waits c₀ patience leave)
    (hr : r = .dropped → patience.isSome) (hd : d ∈ (leave r e).moments) :
    d.trace mine = e.trace mine ++ (m.lineOut? (some (r, e))).toList := by
  cases m with
  | recorder name phased =>
    have hline : ∀ mid rest, mine (name ++ mid ++ rest) = true := by
      intro mid rest
      rw [String.append_assoc]
      exact h _
    cases enters
    cases r with
    | done =>
      rw [List.mem_singleton.1 hd]
      exact Context.trace_note (hline _ _) e
    | failed text =>
      rw [List.mem_singleton.1 hd]
      exact Context.trace_note (hline _ _) e
    | dropped => cases hr rfl
  | other k =>
    have hk := h n c
    rw [show k n c = .proceed waits c₀ patience leave from enters] at hk
    simp only [lineOut?, Option.toList_none, List.append_nil]
    exact hk.2 r e d hd

/-- **At every moment of a run** the lines of recorders are those of going in, and then those of coming
out again. -/
theorem trace_moment {handlers : List Handler} (hm : Moment handlers c d visits back?)
    (hmembers : handlers = members.map handler) (h : ∀ m ∈ members, m.Keeps mine) :
    d.trace mine = c.trace mine ++ lines (visited members visits) := by
  induction hm generalizing members with
  | nothing =>
    obtain rfl : members = [] := List.map_eq_nil_iff.1 hmembers.symm
    simp [visited, lines]
  | alone enters now =>
    obtain ⟨m, rest, rfl, rfl, rfl⟩ := List.map_eq_cons_iff.1 hmembers.symm
    rw [(h m List.mem_cons_self).alone enters (Passage.mem_moments_of_at now)]
    simp [visited, lines_cons, lines_nil, lineOut?_none]
  | before enters now =>
    obtain ⟨m, rest, rfl, rfl, rfl⟩ := List.map_eq_cons_iff.1 hmembers.symm
    rw [((h m List.mem_cons_self).goingIn enters).2 _ now]
    simp [visited, lines_cons, lines_nil, lineOut?_none]
  | inside enters now ih =>
    obtain ⟨m, rest, rfl, rfl, rfl⟩ := List.map_eq_cons_iff.1 hmembers.symm
    rw [ih rfl fun t ht => h t (List.mem_cons_of_mem _ ht),
      ((h m List.mem_cons_self).goingIn enters).1]
    simp [visited, lines_cons, lineOut?_none]
  | behind enters was heard now ih =>
    obtain ⟨m, rest, rfl, rfl, rfl⟩ := List.map_eq_cons_iff.1 hmembers.symm
    have hm := h m List.mem_cons_self
    have himpatient := was.impatient_of_dropped heard
    rw [hm.comingOut enters himpatient (Passage.mem_moments_of_at now),
      ih rfl fun t ht => h t (List.mem_cons_of_mem _ ht), (hm.goingIn enters).1]
    simp [visited, lines_cons]

end Chain.Member

/-! ### A handler that only watches the time -/

/-- A handler told that **one more** comes after it. -/
def Handler.told (h : Handler) : Handler := fun n => h (n + 1)

namespace Chain

/-- A rest of a chain that is waited for to its end **comes back as it is** where it is only passed
on. -/
theorem passage_timed_cons (back : List Handler) (c : Context) :
    (mk (Handler.timed :: back)).passage c = (mk back).passage c := by
  rw [passage_cons]
  simp only [Handler.timed, Entry.goOn, Entry.leaveWith, Passage.awaited]
  obtain ⟨waits, verdict, last⟩ := (mk back).passage c
  cases verdict <;> simp [Passage.comesBack?, Passage.after, Handler.passOn]

/-- A handler that watches the time does nothing but **count** for those in front of it. -/
theorem passage_timed (front back : List Handler) (c : Context) :
    (mk (front ++ Handler.timed :: back)).passage c
      = (mk (front.map Handler.told ++ back)).passage c := by
  induction front generalizing c with
  | nil => exact passage_timed_cons back c
  | cons h front ih =>
    have hlength : (front ++ Handler.timed :: back).length
        = (front.map Handler.told ++ back).length + 1 := by
      simp only [List.length_append, List.length_cons, List.length_map]
      omega
    have htold : Handler.told h (front.map Handler.told ++ back).length c
        = h ((front.map Handler.told ++ back).length + 1) c := rfl
    rw [List.cons_append, List.map_cons, List.cons_append, passage_cons, passage_cons, hlength, htold]
    cases h ((front.map Handler.told ++ back).length + 1) c with
    | finish p => rfl
    | proceed waits d patience leave => simp only [ih d]

end Chain

/-- The same but for the lines noted. -/
def Context.Alike (c d : Context) : Prop := { c with log := [] } = { d with log := [] }

/-- The same verdict, with the same left behind **but for the lines noted**. -/
def Verdict.Alike (a b : Verdict × Context) : Prop := a.1 = b.1 ∧ a.2.Alike b.2

/-- The same waits and the same end, but for the lines noted. -/
structure Passage.Alike (p q : Passage Context) : Prop where
  waits : List.Forall₂ Context.Alike p.waits q.waits
  verdict : p.verdict = q.verdict
  last : p.last.Alike q.last

/-- Entries that do the same but for the lines noted. -/
def Entry.Alike : Entry → Entry → Prop
  | finish p, finish q => p.Alike q
  | proceed waits c patience leave, proceed waits' d patience' leave' =>
    List.Forall₂ Context.Alike waits waits' ∧ c.Alike d ∧ patience = patience' ∧
      ∀ r c d, c.Alike d → (leave r c).Alike (leave' r d)
  | _, _ => False

/-- A handler to which **the lines noted** are nothing. -/
def Handler.Blind (h : Handler) : Prop := ∀ n c d, c.Alike d → (h n c).Alike (h n d)

/-- A handler that may note how many handlers come after it, and **otherwise does not heed it**. -/
def Handler.Heedless (h : Handler) : Prop := ∀ n m c d, c.Alike d → (h n c).Alike (h m d)

theorem Context.Alike.respond {c d : Context} (h : c.Alike d) (r : Response) :
    (c.respond r).Alike (d.respond r) :=
  congrArg (fun e : Context => e.respond r) h

theorem Entry.alike_goOn {c d : Context}
    {leave leave' : Option String → Context → Verdict × Context} (h : c.Alike d)
    (hleave : ∀ failure c d, Context.Alike c d →
      Verdict.Alike (leave failure c) (leave' failure d)) :
    (goOn c leave).Alike (goOn d leave') := by
  refine ⟨.nil, h, rfl, fun r c d hcd => ?_⟩
  cases r with
  | done => exact ⟨.nil, (hleave none c d hcd).1, (hleave none c d hcd).2⟩
  | failed text => exact ⟨.nil, (hleave (some text) c d hcd).1, (hleave (some text) c d hcd).2⟩
  | dropped => exact ⟨.nil, (hleave none c d hcd).1, (hleave none c d hcd).2⟩

namespace Handler

theorem heedless_record (name : String) (phased : Bool) : Heedless (record name phased) := by
  intro n m c d h
  simp only [record]
  refine Entry.alike_goOn ?_ fun failure c d h => ?_
  · exact h
  cases failure with
  | none => exact ⟨rfl, h⟩
  | some text => exact ⟨rfl, h⟩

theorem heedless_recover : Heedless recover := by
  refine fun n m c d h => Entry.alike_goOn h fun failure c d h => ?_
  cases failure with
  | none => exact ⟨rfl, h⟩
  | some text => exact ⟨rfl, h.respond _⟩

theorem heedless_fail (text : String) : Heedless (fail text) := fun _ _ _ _ h => ⟨.nil, rfl, h⟩

theorem Heedless.blind {h : Handler} (hh : Heedless h) : Blind h := fun n => hh n n

end Handler

namespace Passage.Alike

variable {p q : Passage Context} {waits waits' : List Context} {patience : Option Nat}

theorem after (h : p.Alike q) (hwaits : List.Forall₂ Context.Alike waits waits') :
    (p.after waits).Alike (q.after waits') :=
  ⟨List.rel_append hwaits h.waits, h.verdict, h.last⟩

theorem comesBack?_eq (h : p.Alike q) : p.comesBack? = q.comesBack? := by
  simp only [comesBack?, h.verdict]

/-- Passages that are alike **are awaited alike**. -/
theorem awaited (h : p.Alike q) (patience : Option Nat) :
    List.Forall₂ Context.Alike (p.awaited patience).1 (q.awaited patience).1 ∧
      (p.awaited patience).2.1 = (q.awaited patience).2.1 ∧
      Context.Alike (p.awaited patience).2.2 (q.awaited patience).2.2 := by
  cases patience with
  | none => exact ⟨h.waits, h.comesBack?_eq, h.last⟩
  | some k =>
    have hlength := h.waits.length_eq
    by_cases hk : k < p.waits.length
    · have hk' : k < q.waits.length := hlength ▸ hk
      simp only [Passage.awaited, within, List.getElem?_eq_getElem hk, List.getElem?_eq_getElem hk']
      exact ⟨List.forall₂_take _ h.waits, trivial, h.waits.get hk hk'⟩
    · have hk' : ¬ k < q.waits.length := hlength ▸ hk
      simp only [Passage.awaited, within, List.getElem?_eq_none (Nat.not_lt.1 hk),
        List.getElem?_eq_none (Nat.not_lt.1 hk'), h.comesBack?_eq]
      cases q.comesBack? with
      | some r => exact ⟨h.waits, rfl, h.last⟩
      | none => exact ⟨List.rel_append h.waits (.cons h.last .nil), rfl, h.last⟩

theorem leaveWith {leave leave' : Return → Context → Passage Context} (h : p.Alike q)
    (hleave : ∀ r c d, Context.Alike c d → (leave r c).Alike (leave' r d)) :
    (Entry.leaveWith patience leave p).Alike (Entry.leaveWith patience leave' q) := by
  have hawaited := h.awaited patience
  unfold Entry.leaveWith
  revert hawaited
  obtain ⟨waits, r?, c⟩ := p.awaited patience
  obtain ⟨waits', r?', d⟩ := q.awaited patience
  rintro ⟨hwaits, hback, hlast⟩
  obtain rfl : r? = r?' := hback
  cases r? with
  | some r => exact (hleave r c d hlast).after hwaits
  | none => exact ⟨hwaits, rfl, hlast⟩

end Passage.Alike

namespace Chain

/-- Handlers that do the same in front of chains that do **make chains that do**. -/
theorem alike_cons {h : Handler} {rest rest' : List Handler}
    (hh : ∀ c d, Context.Alike c d → (h rest.length c).Alike (h rest'.length d))
    (hrest : ∀ c d, Context.Alike c d → ((mk rest).passage c).Alike ((mk rest').passage d))
    {c d : Context} (hcd : c.Alike d) :
    ((mk (h :: rest)).passage c).Alike ((mk (h :: rest')).passage d) := by
  have hentry := hh c d hcd
  rw [passage_cons, passage_cons]
  cases he : h rest.length c with
  | finish p =>
    cases he' : h rest'.length d with
    | finish q => simpa only [he, he', Entry.Alike] using hentry
    | proceed _ _ _ _ => simp [he, he', Entry.Alike] at hentry
  | proceed waits e patience leave =>
    cases he' : h rest'.length d with
    | finish q => simp [he, he', Entry.Alike] at hentry
    | proceed waits' e' patience' leave' =>
      simp only [he, he', Entry.Alike] at hentry
      obtain ⟨hwaits, hee, rfl, hleave⟩ := hentry
      exact ((hrest _ _ hee).leaveWith hleave).after hwaits

/-- With a handler that watches the time or without it, **all is the same but for the counts** that
handlers in front of it may note. -/
theorem alike_timed {front back : List Handler} (hfront : ∀ h ∈ front, Handler.Heedless h)
    (hback : ∀ h ∈ back, Handler.Blind h) (c : Context) :
    ((mk (front ++ Handler.timed :: back)).passage c).Alike ((mk (front ++ back)).passage c) := by
  have behind : ∀ (back : List Handler), (∀ h ∈ back, Handler.Blind h) → ∀ c d,
      Context.Alike c d → ((mk back).passage c).Alike ((mk back).passage d) := by
    intro back
    induction back with
    | nil => exact fun _ c d hcd => ⟨.nil, rfl, hcd⟩
    | cons h back ih =>
      exact fun hb c d hcd => alike_cons (hb h List.mem_cons_self _)
        (ih fun k hk => hb k (List.mem_cons_of_mem _ hk)) hcd
  have before : ∀ c d, Context.Alike c d →
      ((mk (front ++ Handler.timed :: back)).passage c).Alike ((mk (front ++ back)).passage d) := by
    induction front with
    | nil =>
      intro c d hcd
      rw [List.nil_append, List.nil_append, passage_timed_cons]
      exact behind back hback c d hcd
    | cons h front ih =>
      exact fun c d hcd => alike_cons (hfront h List.mem_cons_self _ _)
        (ih fun k hk => hfront k (List.mem_cons_of_mem _ hk)) hcd
  exact before c c rfl

/-! ### Every run -/

/-- What holds of every moment of a run: of what is known then, of the handlers that were entered, and
of how the run has come back if it has. -/
structure Standing (handlers : List Handler) (c d : Context) (visits : List Visit)
    (back? : Option (Return × Context)) : Prop where
  /-- The chain is entered and left as its first handler is. -/
  first : ∀ v, visits[0]? = some v → v.entered = c ∧ v.ended = back?
  /-- The handlers that were entered are the first ones, each once, and each is told how many come
  after it. -/
  counted : ∀ (i : Nat) v, visits[i]? = some v → v.remaining + (i + 1) = handlers.length
  /-- Each does what it does, with the next one inside it; none comes after one that did not go on,
  and those that went on hear how the next one ended, unless they dropped it before. -/
  follows : ∀ (i : Nat) v h, visits[i]? = some v → handlers[i]? = some h → v.Follows h visits[i + 1]?
  /-- When the run has come back, so have all that no other one dropped. -/
  returned : back? ≠ none → ∀ (i : Nat) v, visits[i]? = some v →
    (∀ j < i, ∀ u, visits[j]? = some u → ∀ e, u.heard ≠ some (.dropped, e)) → v.ended ≠ none
  /-- An error is heard of by the handlers around it, from the inside up to the first that does not
  pass it on; the one around that hears how that one ended, or dropped it before. -/
  seen : ∀ (j : Nat) v text e, visits[j]? = some v → v.ended = some (.failed text, e) →
    ∃ seen unseen, Seen text (visits.take j).reverse seen unseen
  /-- Handlers that note going in and coming out have noted going in, in their order, and those that the
  rest of the chain came back to have noted so, in the opposite one. -/
  traced : ∀ mine members, handlers = members.map Member.handler → (∀ m ∈ members, m.Keeps mine) →
    (Member.visited members visits).map Prod.fst <+: members ∧
    d.trace mine = c.trace mine ++
      (Member.visited members visits).filterMap (fun e => e.1.lineIn? e.2.remaining e.2.entered) ++
      (Member.visited members visits).reverse.filterMap (fun e => e.1.lineOut? e.2.heard)

theorem Moment.standing {handlers : List Handler} {c d : Context} {visits : List Visit}
    {back? : Option (Return × Context)} (hm : Moment handlers c d visits back?) :
    Standing handlers c d visits back? where
  first v := hm.first
  counted := hm.counted
  follows := hm.follows
  returned hback i v hv hkept := hm.returned hback hkept hv
  seen j v text e := hm.seen
  traced mine members hmembers hkeeps := by
    refine ⟨Member.visited_prefix members visits, ?_⟩
    rw [Member.trace_moment hm hmembers hkeeps, Member.lines, List.append_assoc]

/-- What holds of every run of a chain. -/
structure Nested (handlers : List Handler) (c : Context) : Prop where
  /-- Cut anywhere, the chain is its front with its back to go on to. -/
  split : ∀ front back, handlers = front ++ back →
    (mk handlers).passage c = (Next.through front ⟨back.length, (mk back).passage⟩).run c
  /-- The run is a tour, at every moment of which so many handlers have been entered. -/
  toured : (tour handlers c).map Prod.fst = (mk handlers).passage c
  standing : ∀ m back?, (tour handlers c).At m back? →
    Standing handlers c m.1 m.2 (back?.map fun b => (b.1, b.2.1))
  /-- A handler that watches the time, put in anywhere, counts for those in front of it; where these
  do no more than note the count, that is all. -/
  timed : ∀ front back, handlers = front ++ back →
    (mk (front ++ Handler.timed :: back)).passage c
      = (mk (front.map Handler.told ++ back)).passage c ∧
    ((∀ h ∈ front, Handler.Heedless h) → (∀ h ∈ back, Handler.Blind h) →
      ((mk (front ++ Handler.timed :: back)).passage c).Alike ((mk handlers).passage c))

/-- Handlers are **around each other**, at every moment of a run: whatever they do, however many there
are, however long they wait for each other and wherever a chain is cut. -/
theorem nested_run (handlers : List Handler) (c : Context) : Nested handlers c where
  split front back h := by
    subst h
    exact passage_append front back c
  toured := tour_passage handlers c
  standing m back? hm := (moment_of_tour hm).standing
  timed front back h := by
    subst h
    exact ⟨passage_timed front back c, fun hfront hback => alike_timed hfront hback c⟩

/-- Three handlers that note going in and coming out; behind the first an error is made a response,
the one that fails stands behind the third, and the fourth is never entered. -/
def nesting : List Member :=
  [.recorder "a" false, .other Handler.recover, .recorder "b" false, .recorder "c" false,
    .other (Handler.fail "no"), .recorder "d" false]

/-- The request the chain is run on. -/
def anything : Context where
  request := { method := .get, target := "/", protocol := "HTTP/1.1", headers := {}, body := [] }
  remote := ⟨"127.0.0.1", 40000⟩

theorem nested_run_nesting :
    ((mk (nesting.map Member.handler)).run anything).2.trace (fun _ => true) =
      ["a in, 5 left", "b in, 3 left", "c in, 2 left", "c error: no", "b error: no",
        "a out, 500 Internal Server Error"] ∧
    ((mk ([Handler.record "a", Handler.recover] ++ Handler.timed ::
        [Handler.record "b", Handler.record "c", Handler.fail "no", Handler.record "d"])).passage
      anything).Alike ((mk (nesting.map Member.handler)).passage anything) := by
  have hnested := nested_run (nesting.map Member.handler) anything
  constructor
  · have hkeeps : ∀ m ∈ nesting, m.Keeps fun _ => true := by
      have hrecover : Member.Keeps (fun _ => true) (.other Handler.recover) := by
        refine fun n c => ⟨by simp, fun r e f hf => ?_⟩
        rw [List.mem_singleton.1 hf]
        cases r <;> rfl
      have hfail : Member.Keeps (fun _ => true) (.other (Handler.fail "no")) := by
        intro n c d hd
        rw [List.mem_singleton.1 hd]
      simp only [nesting, List.forall_mem_cons, List.not_mem_nil, false_implies, implies_true,
        and_true]
      exact ⟨fun _ => rfl, hrecover, fun _ => rfl, fun _ => rfl, hfail, fun _ => rfl⟩
    have hlast : (tour (nesting.map Member.handler) anything).At
        (tour (nesting.map Member.handler) anything).last
        (tour (nesting.map Member.handler) anything).end? := .inr ⟨rfl, rfl⟩
    have hrun : ((mk (nesting.map Member.handler)).run anything).2
        = (tour (nesting.map Member.handler) anything).last.1 := by
      rw [run, ← hnested.toured]
      rfl
    rw [hrun, ((hnested.standing _ _ hlast).traced (fun _ => true) nesting rfl hkeeps).2]
    decide +kernel
  · have hrecord : ∀ name, Handler.Heedless (Handler.record name) :=
      fun name => Handler.heedless_record name false
    refine (hnested.timed [Handler.record "a", Handler.recover] _ rfl).2 ?_ ?_
    · rintro h (_ | ⟨_, _ | ⟨_, ⟨⟩⟩⟩)
      · exact hrecord "a"
      · exact Handler.heedless_recover
    · rintro h (_ | ⟨_, _ | ⟨_, _ | ⟨_, _ | ⟨_, ⟨⟩⟩⟩⟩⟩)
      · exact (hrecord "b").blind
      · exact (hrecord "c").blind
      · exact (Handler.heedless_fail "no").blind
      · exact (hrecord "d").blind

/-- A handler that **drops the rest of the chain** at its first wait. -/
def hasty : Handler := fun _ c => .proceed [] c (some 0) fun _ d => { verdict := .done, last := d }

/-- A handler that waits for ever. -/
def idling : Handler := fun _ c => .stop .stuck c

/-- A handler that was entered **need not be left**, though the run comes back: one that drops the rest
of the chain half-way leaves those inside it where they are. -/
theorem not_nested_of_dropped :
    ¬ ∀ (members : List Member) (mine : String → Bool) (c : Context), (∀ m ∈ members, m.Keeps mine) →
      ((mk (members.map Member.handler)).run c).1 = .done →
      ∃ goingIn comingOut : List String, goingIn.length = comingOut.length ∧
        ((mk (members.map Member.handler)).run c).2.trace mine
          = c.trace mine ++ goingIn ++ comingOut := by
  intro h
  have hkeeps : ∀ m ∈ [Member.other hasty, .recorder "a" false, .other idling],
      m.Keeps fun _ => true := by
    have hhasty : Member.Keeps (fun _ => true) (.other hasty) := by
      refine fun n c => ⟨by simp, fun r e f hf => ?_⟩
      rw [List.mem_singleton.1 hf]
    have hidling : Member.Keeps (fun _ => true) (.other idling) := by
      intro n c d hd
      rw [List.mem_singleton.1 hd]
    simp only [List.forall_mem_cons, List.not_mem_nil, false_implies, implies_true, and_true]
    exact ⟨hhasty, fun _ => rfl, hidling⟩
  obtain ⟨goingIn, comingOut, hsame, htrace⟩ := h _ _ anything hkeeps rfl
  have hone := congrArg List.length htrace
  rw [List.length_append, List.length_append, hsame] at hone
  have hlines : (((mk ([Member.other hasty, .recorder "a" false, .other idling].map
      Member.handler)).run anything).2.trace fun _ => true) = ["a in, 1 left"] := by decide +kernel
  have hbefore : (anything.trace fun _ => true) = [] := by decide +kernel
  rw [hlines, hbefore, List.length_nil, List.length_singleton] at hone
  omega

end Chain

end HttpEngine
