import HttpEngine.Handling.Chain

/-!
# Moments of a run of handlers

Handlers can be kept waiting, and whoever runs a chain may lose patience meanwhile. So what is said
of a run is said of **every moment** of it: of each wait, and of its end.

* `Passage.At`: a moment of a passage.
* `Chain.tour`: a run with the handlers that were entered so far, at each of its moments.
* `Chain.Moment`: what a moment can be, one case for each place a handler can be at.
* `Chain.Moment.follows`: a visit does what its handler does.
* `Chain.Moment.seen`: who hears of an error.
-/

namespace HttpEngine

/-! ### Passages -/

namespace Passage

variable {α β γ δ : Type} {p : Passage α} {patience : Option Nat} {a : α} {r : Return}

/-- How a passage comes back, if it does, **with how things stand then**. -/
def end? (p : Passage α) : Option (Return × α) := p.comesBack?.map (·, p.last)

/-- A moment of a passage: how things stand, and **how it has come back** if it has. -/
def At (p : Passage α) (a : α) (back? : Option (Return × α)) : Prop :=
  a ∈ p.waits ∧ back? = none ∨ a = p.last ∧ back? = p.end?

theorem not_dropped_of_end? (h : p.end? = some (r, a)) : r ≠ .dropped := by
  unfold end? comesBack? at h
  cases hv : p.verdict with
  | done => simp only [hv, Option.map_some] at h; cases h; decide
  | failed text => simp only [hv, Option.map_some] at h; cases h; nofun
  | stuck => simp [hv] at h

theorem end?_map (f : α → β) (p : Passage α) : (p.map f).end? = p.end?.map fun e => (e.1, f e.2) := by
  unfold end? map comesBack?
  cases p.verdict <;> rfl

/-- One with so much patience **hears how a passage comes back, drops it before it does, or waits for
ever**; until then it has not come back. -/
theorem awaited_cases (p : Passage α) (patience : Option Nat) :
    (∃ r, p.end? = some (r, p.last) ∧ p.awaited patience = (p.waits, some r, p.last)) ∨
    (∃ waits a, patience.isSome ∧ p.awaited patience = (waits, some .dropped, a) ∧
      p.At a none ∧ ∀ b ∈ waits, p.At b none) ∨
    p.end? = none ∧ p.awaited patience = (p.waits, none, p.last) := by
  cases patience with
  | none =>
    cases hend : p.comesBack? with
    | some r => exact .inl ⟨r, by simp [end?, hend], by simp [awaited, hend]⟩
    | none => exact .inr (.inr ⟨by simp [end?, hend], by simp [awaited, hend]⟩)
  | some k =>
    cases hk : p.waits[k]? with
    | some a =>
      refine .inr (.inl ⟨p.waits.take (k + 1), a, rfl, by simp [awaited, within, hk],
        .inl ⟨List.mem_of_getElem? hk, rfl⟩, fun b hb => .inl ⟨List.mem_of_mem_take hb, rfl⟩⟩)
    | none =>
      cases hend : p.comesBack? with
      | some r => exact .inl ⟨r, by simp [end?, hend], by simp [awaited, within, hk, hend]⟩
      | none =>
        have hlast : p.At p.last none := .inr ⟨rfl, by simp [end?, hend]⟩
        refine .inr (.inl ⟨p.waits ++ [p.last], p.last, rfl, by simp [awaited, within, hk, hend],
          hlast, fun b hb => ?_⟩)
        rcases List.mem_append.1 hb with hb | hb
        · exact .inl ⟨hb, rfl⟩
        · exact List.mem_singleton.1 hb ▸ hlast

theorem awaited_map (f : α → β) (p : Passage α) (patience : Option Nat) :
    (p.map f).awaited patience
      = ((p.awaited patience).1.map f, (p.awaited patience).2.1, f (p.awaited patience).2.2) := by
  have hback : (p.map f).comesBack? = p.comesBack? := rfl
  cases patience with
  | none => rfl
  | some k =>
    have hwaits : (p.map f).waits[k]? = p.waits[k]?.map f := List.getElem?_map
    simp only [awaited, within, hwaits, hback]
    cases p.waits[k]? with
    | some a => simp [map]
    | none => cases p.comesBack? <;> simp [map]

theorem map_after (f : α → β) (waits : List α) (p : Passage α) :
    (p.after waits).map f = (p.map f).after (waits.map f) := by
  simp [map, after]

theorem at_after {waits : List α} {back? : Option (Return × α)} (h : (p.after waits).At a back?) :
    a ∈ waits ∧ back? = none ∨ p.At a back? := by
  rcases h with ⟨ha, hnone⟩ | hlast
  · exact (List.mem_append.1 ha).imp (⟨·, hnone⟩) fun ha => .inl ⟨ha, hnone⟩
  · exact .inr (.inr hlast)

/-- What is made of a passage by one who has so much patience and sees it **as from `inside`**. -/
def leftBy (patience : Option Nat) (inside : α → β) (leave : Return → α → Passage β)
    (p : Passage α) : Passage β :=
  match p.awaited patience with
  | (waits, some r, a) => (leave r a).after (waits.map inside)
  | (waits, none, a) => { waits := waits.map inside, verdict := .stuck, last := inside a }

theorem leaveWith_eq (patience : Option Nat) (leave : Return → Context → Passage Context)
    (p : Passage Context) : Entry.leaveWith patience leave p = p.leftBy patience id leave := by
  unfold Entry.leaveWith leftBy
  obtain ⟨waits, r?, c⟩ := p.awaited patience
  cases r? <;> simp

/-- What is made of a passage **can be seen otherwise** as the passage can. -/
theorem leftBy_map {inside : α → β} {leave : Return → α → Passage β} {inside' : γ → δ}
    {leave' : Return → γ → Passage δ} (f : β → δ) (g : α → γ)
    (hinside : ∀ a, f (inside a) = inside' (g a))
    (hleave : ∀ r a, (leave r a).map f = leave' r (g a)) (p : Passage α) :
    (p.leftBy patience inside leave).map f = (p.map g).leftBy patience inside' leave' := by
  have hwaits : ∀ waits : List α, (waits.map inside).map f = (waits.map g).map inside' := by
    intro waits
    simp [hinside]
  unfold leftBy
  rw [awaited_map]
  obtain ⟨waits, r?, a⟩ := p.awaited patience
  cases r? with
  | some r => simp only [map_after, hwaits, hleave]
  | none => simp only [map, hwaits, hinside]

/-- **A moment** of what is made of a passage: one of the passage before it came back, or one after
it did or was dropped. -/
theorem at_leftBy {inside : α → β} {leave : Return → α → Passage β} {b : β}
    {back? : Option (Return × β)} (h : (p.leftBy patience inside leave).At b back?) :
    (∃ a, p.At a none ∧ b = inside a ∧ back? = none) ∨
    ∃ r a back₁, p.At a back₁ ∧
      (back₁ = some (r, a) ∨ back₁ = none ∧ r = .dropped ∧ patience.isSome) ∧
      (leave r a).At b back? := by
  have hafter : ∀ {waits : List α} {q : Passage β}, (∀ a ∈ waits, p.At a none) →
      (q.after (waits.map inside)).At b back? →
      (∃ a, p.At a none ∧ b = inside a ∧ back? = none) ∨ q.At b back? := by
    intro waits q hwaits hb
    refine (at_after hb).imp (fun ⟨hb, hnone⟩ => ?_) id
    obtain ⟨a, ha, rfl⟩ := List.mem_map.1 hb
    exact ⟨a, hwaits a ha, rfl, hnone⟩
  have hwaiting : ∀ a ∈ p.waits, p.At a none := fun a ha => .inl ⟨ha, rfl⟩
  unfold leftBy at h
  rcases p.awaited_cases patience with ⟨r, hend, he⟩ | ⟨waits, a, hsome, he, ha, hwaits⟩ | ⟨hend, he⟩
  · rw [he] at h
    refine (hafter hwaiting h).imp id fun hq => ?_
    exact ⟨r, p.last, _, .inr ⟨rfl, rfl⟩, .inl hend, hq⟩
  · rw [he] at h
    refine (hafter hwaits h).imp id fun hq => ?_
    exact ⟨.dropped, a, none, ha, .inr ⟨rfl, rfl, hsome⟩, hq⟩
  · rw [he] at h
    rcases h with ⟨hb, hnone⟩ | ⟨hb, hnone⟩
    · obtain ⟨a, ha, rfl⟩ := List.mem_map.1 hb
      exact .inl ⟨a, hwaiting a ha, rfl, hnone⟩
    · exact .inl ⟨p.last, .inr ⟨rfl, hend.symm⟩, hb, hnone⟩

end Passage

namespace Chain

/-- The passage through a chain: what its first handler makes of the passage **through the others**. -/
theorem passage_cons (h : Handler) (rest : List Handler) (c : Context) :
    (mk (h :: rest)).passage c = match h rest.length c with
      | .finish p => p
      | .proceed waits d patience leave =>
        (Entry.leaveWith patience leave ((mk rest).passage d)).after waits := by
  have hremaining : ∀ handlers : List Handler,
      (Next.through handlers Next.done).remaining = handlers.length := by
    intro handlers
    induction handlers with
    | nil => rfl
    | cons k handlers ih => exact congrArg (· + 1) ih
  show (Next.before h (Next.through rest Next.done)).run c = _
  unfold Next.before
  rw [hremaining]
  rfl

/-! ### Visits -/

/-- A handler that was entered, **as it is with it at some moment**. -/
structure Visit where
  /-- The number of handlers it was told come after it. -/
  remaining : Nat
  entered : Context
  /-- How the rest of the chain came back to it or that it dropped it, if it has done either. -/
  heard : Option (Return × Context) := none
  /-- How it was left, if it was. -/
  ended : Option (Return × Context) := none

/-- A handler on its way out, with the visits inside it. -/
def Visit.leaving (v : Visit) (inner : List Visit) (p : Passage Context) :
    Passage (Context × List Visit) where
  waits := p.waits.map fun d => (d, v :: inner)
  verdict := p.verdict
  last := (p.last, { v with ended := p.end? } :: inner)

/-- The passage through a chain, with the handlers **entered so far**, the outermost first. -/
def tour : List Handler → Context → Passage (Context × List Visit)
  | [], c => { verdict := .done, last := (c, []) }
  | h :: rest, c =>
    let v : Visit := { remaining := rest.length, entered := c }
    match h rest.length c with
    | .finish p => v.leaving [] p
    | .proceed waits d patience leave =>
      ((tour rest d).leftBy patience (fun m => (m.1, v :: m.2)) fun r m =>
        Visit.leaving { v with heard := some (r, m.1) } m.2 (leave r m.1)).after
          (waits.map (·, [v]))

variable {h : Handler} {rest handlers : List Handler} {c d e : Context} {v w u : Visit}
  {visits : List Visit} {back? : Option (Return × Context)} {text : String}

theorem Visit.leaving_map (v : Visit) (inner : List Visit) (p : Passage Context) :
    (v.leaving inner p).map Prod.fst = p := by
  obtain ⟨waits, verdict, last⟩ := p
  simp [leaving, Passage.map, Function.comp_def]

/-- The visits aside, a tour **is the passage itself**. -/
theorem tour_passage (handlers : List Handler) (c : Context) :
    (tour handlers c).map Prod.fst = (mk handlers).passage c := by
  induction handlers generalizing c with
  | nil => rfl
  | cons h rest ih =>
    rw [passage_cons, tour]
    cases h rest.length c with
    | finish p => exact Visit.leaving_map _ _ _
    | proceed waits d patience leave =>
      have hown : (waits.map fun w => (w, [({ remaining := rest.length, entered := c } : Visit)])).map
          Prod.fst = waits := by simp [Function.comp_def]
      simp only [Passage.map_after, Passage.leaveWith_eq, ← ih d, hown]
      refine congrArg (Passage.after waits) ?_
      refine Passage.leftBy_map Prod.fst Prod.fst (fun m => ?_) (fun r m => ?_) _
      · rfl
      · exact Visit.leaving_map _ _ _

/-! ### What a moment can be -/

/-- **A moment of a run**: what is known, the handlers that were entered so far, and how the run has
come back if it has. -/
inductive Moment :
    List Handler → Context → Context → List Visit → Option (Return × Context) → Prop
  /-- There is no handler. -/
  | nothing {c : Context} : Moment [] c c [] (some (.done, c))
  /-- The first handler does not go on. -/
  | alone {h : Handler} {rest : List Handler} {c d : Context} {p : Passage Context}
      {back? : Option (Return × Context)} (enters : h rest.length c = .finish p)
      (now : p.At d back?) : Moment (h :: rest) c d [⟨rest.length, c, none, back?⟩] back?
  /-- It waits before it goes on. -/
  | before {h : Handler} {rest : List Handler} {c d d₀ : Context} {waits : List Context}
      {patience : Option Nat} {leave : Return → Context → Passage Context}
      (enters : h rest.length c = .proceed waits d₀ patience leave) (now : d ∈ waits) :
      Moment (h :: rest) c d [⟨rest.length, c, none, none⟩] none
  /-- It waits for the rest of the chain. -/
  | inside {h : Handler} {rest : List Handler} {c d d₀ : Context} {waits : List Context}
      {patience : Option Nat} {leave : Return → Context → Passage Context} {visits : List Visit}
      (enters : h rest.length c = .proceed waits d₀ patience leave)
      (now : Moment rest d₀ d visits none) :
      Moment (h :: rest) c d (⟨rest.length, c, none, none⟩ :: visits) none
  /-- The rest of the chain came back to it, **or was dropped by it**, which leaves the visits as
  they were then. -/
  | behind {h : Handler} {rest : List Handler} {c d d₀ e : Context} {waits : List Context}
      {patience : Option Nat} {leave : Return → Context → Passage Context} {visits : List Visit}
      {back₀ back? : Option (Return × Context)} {r : Return}
      (enters : h rest.length c = .proceed waits d₀ patience leave)
      (was : Moment rest d₀ e visits back₀)
      (heard : back₀ = some (r, e) ∨ back₀ = none ∧ r = .dropped ∧ patience.isSome)
      (now : (leave r e).At d back?) :
      Moment (h :: rest) c d (⟨rest.length, c, some (r, e), back?⟩ :: visits) back?

theorem Visit.at_leaving {inner : List Visit} {p : Passage Context} {m : Context × List Visit}
    {back? : Option (Return × Context × List Visit)} (hv : v.ended = none)
    (h : (v.leaving inner p).At m back?) :
    m.2 = { v with ended := back?.map fun b => (b.1, b.2.1) } :: inner ∧
      p.At m.1 (back?.map fun b => (b.1, b.2.1)) := by
  have hend : (v.leaving inner p).end?.map (fun b => (b.1, b.2.1)) = p.end? := by
    rw [← Passage.end?_map Prod.fst, Visit.leaving_map]
  rcases h with ⟨hm, rfl⟩ | ⟨rfl, rfl⟩
  · obtain ⟨d, hd, rfl⟩ := List.mem_map.1 hm
    refine ⟨?_, .inl ⟨hd, rfl⟩⟩
    show v :: inner = _
    rw [Option.map_none, ← hv]
  · rw [hend]
    exact ⟨rfl, .inr ⟨rfl, rfl⟩⟩

/-- Every moment of a tour **is such a moment**. -/
theorem moment_of_tour {m : Context × List Visit} {back? : Option (Return × Context × List Visit)}
    (hm : (tour handlers c).At m back?) :
    Moment handlers c m.1 m.2 (back?.map fun b => (b.1, b.2.1)) := by
  induction handlers generalizing c m back? with
  | nil =>
    rcases hm with ⟨hm, -⟩ | ⟨rfl, rfl⟩
    · cases hm
    · exact .nothing
  | cons h rest ih =>
    rw [tour] at hm
    cases henters : h rest.length c with
    | finish p =>
      simp only [henters] at hm
      obtain ⟨hvisits, hat⟩ := Visit.at_leaving rfl hm
      rw [hvisits]
      exact .alone henters hat
    | proceed waits d patience leave =>
      simp only [henters] at hm
      rcases Passage.at_after hm with ⟨hwait, rfl⟩ | hm
      · obtain ⟨w, hw, rfl⟩ := List.mem_map.1 hwait
        exact .before henters hw
      · rcases Passage.at_leftBy hm with ⟨m₀, hm₀, rfl, rfl⟩ | ⟨r, m₀, back₀, hm₀, hheard, hm⟩
        · exact .inside henters (ih hm₀)
        · obtain ⟨hvisits, hat⟩ := Visit.at_leaving rfl hm
          rw [hvisits]
          refine .behind henters (ih hm₀) ?_ hat
          exact hheard.imp (by rintro rfl; rfl) (by rintro ⟨rfl, hr⟩; exact ⟨rfl, hr⟩)

/-! ### What a handler does -/

/-- A visit is **what its handler does**, the next one being inside it. A handler that does not go on
is the last. One that went on has heard nothing as long as the next one was not left, and then how that
one was; or it has dropped it before. -/
def Visit.Follows (v : Visit) (h : Handler) (next? : Option Visit) : Prop :=
  match h v.remaining v.entered with
  | .finish p => next? = none ∧ v.heard = none ∧ (v.ended = none ∨ v.ended = p.end?)
  | .proceed _ d patience leave =>
    (∀ w, next? = some w → w.entered = d) ∧
    match v.heard with
    | none => v.ended = none ∧ ∀ w, next? = some w → w.ended = none
    | some (r, e) =>
      (v.ended = none ∨ v.ended = (leave r e).end?) ∧
      match next? with
      | some w => w.ended = some (r, e) ∨ w.ended = none ∧ r = .dropped ∧ patience.isSome
      | none => v.remaining = 0 ∧ (r, e) = (.done, d)

/-- A visit hears **how the one inside it ended**, just when it does, or dropped it before. -/
def Visit.Hears (v w : Visit) : Prop :=
  v.heard = w.ended ∨ w.ended = none ∧ ∃ e, v.heard = some (.dropped, e)

theorem Visit.Follows.hears (hfollows : v.Follows h (some w)) : v.Hears w := by
  unfold Follows at hfollows
  cases henters : h v.remaining v.entered with
  | finish p => simp [henters] at hfollows
  | proceed waits d patience leave =>
    simp only [henters] at hfollows
    obtain ⟨-, hheard⟩ := hfollows
    cases hv : v.heard with
    | none =>
      simp only [hv] at hheard
      exact .inl (hv.trans (hheard.2 w rfl).symm)
    | some heard =>
      obtain ⟨r, e⟩ := heard
      simp only [hv] at hheard
      rcases hheard.2 with hended | ⟨hended, rfl, -⟩
      · exact .inl (hv.trans hended.symm)
      · exact .inr ⟨hended, e, hv⟩

/-- One that was left **has seen the last of the one inside it**. -/
theorem Visit.Follows.inner_ended (hfollows : v.Follows h (some w)) (hended : v.ended ≠ none)
    (hkept : ∀ e, v.heard ≠ some (.dropped, e)) : w.ended ≠ none := by
  intro hnone
  rcases hfollows.hears with hheard | ⟨-, e, hdropped⟩
  · rw [hnone] at hheard
    unfold Follows at hfollows
    cases henters : h v.remaining v.entered with
    | finish p => simp [henters] at hfollows
    | proceed waits d patience leave =>
      simp only [henters, hheard] at hfollows
      exact hended hfollows.2.1
  · exact hkept e hdropped

namespace Moment

/-- **The outermost visit** is to the first handler, and is left when the run comes back. -/
theorem outermost (hm : Moment handlers c d visits back?) :
    (handlers = [] ∧ visits = [] ∧ d = c ∧ back? = some (.done, c)) ∨
      ∃ v inner, visits = v :: inner ∧ v.remaining + 1 = handlers.length ∧ v.entered = c ∧
        v.ended = back? := by
  cases hm with
  | nothing => exact .inl ⟨rfl, rfl, rfl, rfl⟩
  | alone _ _ => exact .inr ⟨_, _, rfl, rfl, rfl, rfl⟩
  | before _ _ => exact .inr ⟨_, _, rfl, rfl, rfl, rfl⟩
  | inside _ _ => exact .inr ⟨_, _, rfl, rfl, rfl, rfl⟩
  | behind _ _ _ _ => exact .inr ⟨_, _, rfl, rfl, rfl, rfl⟩

theorem first (hm : Moment handlers c d visits back?) (hv : visits[0]? = some v) :
    v.entered = c ∧ v.ended = back? := by
  rcases hm.outermost with ⟨-, rfl, -, -⟩ | ⟨u, inner, rfl, -, hentered, hended⟩
  · cases hv
  · cases hv
    exact ⟨hentered, hended⟩

/-- A run **never comes back as dropped**. -/
theorem back_ne_dropped (hm : Moment handlers c d visits back?) (e : Context) :
    back? ≠ some (.dropped, e) := by
  rintro rfl
  cases hm with
  | alone _ now =>
    rcases now with ⟨-, hnone⟩ | ⟨-, hend⟩
    · cases hnone
    · exact Passage.not_dropped_of_end? hend.symm rfl
  | behind _ _ _ now =>
    rcases now with ⟨-, hnone⟩ | ⟨-, hend⟩
    · cases hnone
    · exact Passage.not_dropped_of_end? hend.symm rfl

/-- Only one that **has no patience left** drops the rest of a chain. -/
theorem impatient_of_dropped (hm : Moment handlers c d visits back?) {patience : Option Nat}
    {r : Return} (heard : back? = some (r, d) ∨ back? = none ∧ r = .dropped ∧ patience.isSome)
    (hr : r = .dropped) : patience.isSome := by
  subst hr
  exact heard.elim (fun hback => absurd hback (hm.back_ne_dropped d)) fun h => h.2.2

theorem counted_cons {inner : List Visit} (hu : u.remaining = rest.length)
    (hinner : ∀ (i : Nat) v, inner[i]? = some v → v.remaining + (i + 1) = rest.length)
    {i : Nat} (hv : (u :: inner)[i]? = some v) :
    v.remaining + (i + 1) = (h :: rest).length := by
  rw [List.length_cons]
  cases i with
  | zero =>
    cases hv
    rw [hu]
  | succ i =>
    have := hinner i v (by simpa using hv)
    omega

/-- Handlers are told **exactly how many come after them**; so none is visited twice. -/
theorem counted (hm : Moment handlers c d visits back?) :
    ∀ (i : Nat) v, visits[i]? = some v → v.remaining + (i + 1) = handlers.length := by
  induction hm with
  | nothing => simp
  | alone _ _ => exact fun i v => counted_cons rfl (by simp)
  | before _ _ => exact fun i v => counted_cons rfl (by simp)
  | inside _ _ ih => exact fun i v => counted_cons rfl ih
  | behind _ _ _ _ ih => exact fun i v => counted_cons rfl ih

/-- There are **no more visits than handlers**. -/
theorem length_le (hm : Moment handlers c d visits back?) : visits.length ≤ handlers.length := by
  rcases Nat.eq_zero_or_pos visits.length with hnone | hpos
  · omega
  · have hlast := List.getElem?_eq_getElem (Nat.sub_lt hpos Nat.one_pos)
    have := hm.counted _ _ hlast
    omega

theorem follows_cons {inner : List Visit} (hfirst : u.Follows h inner[0]?)
    (hinner : ∀ (i : Nat) v k, inner[i]? = some v → rest[i]? = some k → v.Follows k inner[i + 1]?)
    {i : Nat} {k : Handler} (hv : (u :: inner)[i]? = some v) (hk : (h :: rest)[i]? = some k) :
    v.Follows k (u :: inner)[i + 1]? := by
  cases i with
  | zero =>
    cases hv
    cases hk
    exact hfirst
  | succ i => exact hinner i v k (by simpa using hv) (by simpa using hk)

/-- **Every visit does what its handler does**, at every moment. -/
theorem follows (hm : Moment handlers c d visits back?) :
    ∀ (i : Nat) v k, visits[i]? = some v → handlers[i]? = some k → v.Follows k visits[i + 1]? := by
  induction hm with
  | nothing => simp
  | alone enters now =>
    refine fun i v k => follows_cons ?_ (by simp)
    simp only [Visit.Follows, enters]
    exact ⟨rfl, trivial, now.imp And.right And.right⟩
  | before enters now =>
    refine fun i v k => follows_cons ?_ (by simp)
    simp [Visit.Follows, enters]
  | inside enters now ih =>
    refine fun i v k => follows_cons ?_ ih
    simp only [Visit.Follows, enters]
    exact ⟨fun w hw => (now.first hw).1, trivial, fun w hw => (now.first hw).2⟩
  | @behind _ _ _ _ _ _ _ _ _ inner _ _ r enters was heard now ih =>
    refine fun i v k => follows_cons ?_ ih
    simp only [Visit.Follows, enters]
    refine ⟨fun w hw => (was.first hw).1, now.imp And.right And.right, ?_⟩
    rcases was.outermost with ⟨rfl, rfl, rfl, rfl⟩ | ⟨w, inner, rfl, -, -, hended⟩
    · rcases heard with hback | ⟨hback, -⟩
      · cases hback
        exact ⟨rfl, rfl⟩
      · cases hback
    · exact heard.imp hended.trans fun ⟨hnone, hdropped⟩ => ⟨hended.trans hnone, hdropped⟩

theorem hears (hm : Moment handlers c d visits back?) {i : Nat} (hv : visits[i]? = some v)
    (hw : visits[i + 1]? = some w) : v.Hears w := by
  have hi : i < handlers.length :=
    Nat.lt_of_lt_of_le (List.getElem?_eq_some_iff.1 hv).1 hm.length_le
  have hfollows := hm.follows i v _ hv (List.getElem?_eq_getElem hi)
  rw [hw] at hfollows
  exact hfollows.hears

/-- When a run has come back **all visits have been left**, but for those inside a handler that dropped
the rest of the chain. -/
theorem returned (hm : Moment handlers c d visits back?) (hback : back? ≠ none) {i : Nat}
    (hkept : ∀ j < i, ∀ u, visits[j]? = some u → ∀ e, u.heard ≠ some (.dropped, e))
    (hv : visits[i]? = some v) : v.ended ≠ none := by
  induction i generalizing v with
  | zero => rwa [(hm.first hv).2]
  | succ i ih =>
    have hi := Nat.lt_of_succ_lt (List.getElem?_eq_some_iff.1 hv).1
    have hu := List.getElem?_eq_getElem hi
    have hlt : i < handlers.length := Nat.lt_of_lt_of_le hi hm.length_le
    have hfollows := hm.follows i _ _ hu (List.getElem?_eq_getElem hlt)
    rw [hv] at hfollows
    exact hfollows.inner_ended (ih (fun j hj => hkept j (Nat.lt_succ_of_lt hj)) hu)
      (hkept i (Nat.lt_succ_self i) _ hu)

end Moment

/-! ### Errors -/

/-- The handlers around one that failed, **from the inside out**: those that have seen the error, and
behind them those that have not. -/
structure Seen (text : String) (around seen unseen : List Visit) : Prop where
  parted : around = seen ++ unseen
  heard : ∀ w ∈ seen, ∃ d, w.heard = some (.failed text, d)
  /-- All but the last of them passed it on. -/
  passed : ∀ w ∈ seen.dropLast, ∃ d, w.ended = some (.failed text, d)
  /-- The last of them did not, if there are any further out, and **how it ended** is what the next
  one hears of, unless that has dropped it before. -/
  stopped : ∀ u, unseen.head? = some u →
    ∃ w, seen.getLast? = some w ∧ (∀ d, w.ended ≠ some (.failed text, d)) ∧ u.Hears w

theorem Seen.nil (text : String) : Seen text [] [] [] := ⟨rfl, by simp, by simp, by simp⟩

/-- A handler that **passes the error on**. -/
theorem Seen.pass {around seen unseen : List Visit} (h : Seen text around seen unseen)
    (hheard : ∃ d, w.heard = some (.failed text, d))
    (hpass : ∃ d, w.ended = some (.failed text, d)) :
    Seen text (w :: around) (w :: seen) unseen := by
  refine ⟨by rw [h.parted, List.cons_append], ?_, ?_, ?_⟩
  · exact List.forall_mem_cons.2 ⟨hheard, h.heard⟩
  · cases seen with
    | nil => simp
    | cons u seen => exact List.forall_mem_cons.2 ⟨hpass, h.passed⟩
  · intro u hu
    obtain ⟨x, hx, hrest⟩ := h.stopped u hu
    refine ⟨x, ?_, hrest⟩
    cases seen with
    | nil => cases hx
    | cons y seen => rwa [List.getLast?_cons_cons]

/-- A handler that **does not pass the error on**. -/
theorem Seen.stop {around : List Visit} (hheard : ∃ d, w.heard = some (.failed text, d))
    (hstop : ∀ d, w.ended ≠ some (.failed text, d))
    (hnext : ∀ u, around.head? = some u → u.Hears w) : Seen text (w :: around) [w] around :=
  ⟨rfl, by simpa using hheard, by simp, fun u hu => ⟨w, rfl, hstop, hnext u hu⟩⟩

namespace Moment

/-- The one directly around a handler, if there is one, **hears how that one ended**. -/
theorem hears_around (hm : Moment handlers c d visits back?) {j : Nat} (hv : visits[j]? = some v)
    (u : Visit) (hu : (visits.take j).reverse.head? = some u) : u.Hears v := by
  cases j with
  | zero => simp at hu
  | succ j =>
    have hj := Nat.lt_of_succ_lt (List.getElem?_eq_some_iff.1 hv).1
    have hlast : visits[j]? = some u := by
      rw [List.take_add_one, List.getElem?_eq_getElem hj, List.reverse_append] at hu
      rwa [List.getElem?_eq_getElem hj]
    exact hm.hears hlast hv

/-- Of the handlers around one that ends with an error, **those from the inside up to the first that
does not pass it on** hear of it. -/
theorem seen (hm : Moment handlers c d visits back?) {j : Nat} (hv : visits[j]? = some v)
    (herror : v.ended = some (.failed text, e)) :
    ∃ seen unseen, Seen text (visits.take j).reverse seen unseen := by
  induction j generalizing v e with
  | zero => exact ⟨[], [], Seen.nil text⟩
  | succ j ih =>
    have hj := Nat.lt_of_succ_lt (List.getElem?_eq_some_iff.1 hv).1
    obtain ⟨w, hw⟩ : ∃ w, visits[j]? = some w := ⟨_, List.getElem?_eq_getElem hj⟩
    have hheard : ∃ d, w.heard = some (.failed text, d) := by
      rcases hm.hears hw hv with hheard | ⟨hnone, -⟩
      · exact ⟨e, hheard.trans herror⟩
      · rw [herror] at hnone
        cases hnone
    have haround : (visits.take (j + 1)).reverse = w :: (visits.take j).reverse := by
      rw [List.take_add_one, hw, List.reverse_append]
      rfl
    rw [haround]
    by_cases hpass : ∃ d, w.ended = some (.failed text, d)
    · obtain ⟨d, hd⟩ := hpass
      obtain ⟨seen, unseen, hseen⟩ := ih hw hd
      exact ⟨w :: seen, unseen, hseen.pass hheard ⟨d, hd⟩⟩
    · exact ⟨[w], _, Seen.stop hheard (not_exists.1 hpass) (hm.hears_around hw)⟩

end Moment

end Chain

end HttpEngine
