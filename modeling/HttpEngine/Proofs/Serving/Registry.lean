import HttpEngine.Serving.Server
import Mathlib.Data.List.Nodup
import Mathlib.Data.List.Perm.Basic

/-!
# The registry, and shutting down

Loops accept, tasks come to their ends, and anyone closes connections, in any order and as one step
after another. **The registry is exact at every moment, no two calls count one connection, and
shutting down never waits for an announcement that will not come.**

* `Server.Happens`: what each event brings about, and when it can happen.
* `Server.history`: what has happened, passing over what could not.
* `Server.Enrolled`, `Tallied`, `Attended`, `Settled`: the invariants of the registry, of the calls
  to close, of the accept loops, and of shutting down, each with its lemma for one step.
* `Server.Sound`: what they come to, and `Server.play_sound`, for whatever happens.
-/

namespace HttpEngine

/-- Whether shutting down has found all loops over. -/
def Shutdown.isJoined : Shutdown → Bool
  | notAsked => false
  | joining => false
  | _ => true

namespace Server

/-! ### One step -/

/-- The server with a connection gone from the registry. -/
def without (s : Server) (connection : Nat) : Server :=
  { s with
    registry := s.registry.erase connection
    leaving := connection :: s.leaving }

/-- **What each event brings about**, and when it can happen. -/
inductive Happens (s : Server) : Event → Server → Prop
  | accept {loop : Nat} (free : s.loops[loop]? = some .accepting) :
      Happens s (.accept loop)
        { s with registry := s.registry ++ [s.accepted], accepted := s.accepted + 1 }
  | refuse {loop : Nat} (free : s.loops[loop]? = some .accepting) :
      Happens s (.refuse loop) { s with loops := s.loops.set loop .resting }
  | resume {loop : Nat} (rests : s.loops[loop]? = some .resting) :
      Happens s (.resume loop) { s with loops := s.loops.set loop .accepting }
  | notice {loop : Nat} {now : AcceptLoop} (stopping : s.stopping = true)
      (runs : s.loops[loop]? = some now) :
      Happens s (.notice loop) { s with loops := s.loops.set loop .ended }
  | shut {c : Nat} (present : c ∈ s.registry) :
      Happens s (.shut c) { s with closed := s.answer c ++ s.closed }
  | conclude {c : Nat} (present : c ∈ s.registry) (closed : c ∈ s.closed) :
      Happens s (.conclude c) (s.without c)
  | unwind {c : Nat} (present : c ∈ s.registry) : Happens s (.unwind c) (s.without c)
  | lookBack {c : Nat} (left : c ∈ s.leaving) :
      Happens s (.lookBack c)
        { s with
          leaving := s.leaving.erase c
          announcing := if s.registry = [] then c :: s.announcing else s.announcing }
  | announce {c : Nat} (alone : c ∈ s.announcing) :
      Happens s (.announce c)
        { s with announcing := s.announcing.erase c, announced := s.announced + 1 }
  | close {c : Nat} (known : c < s.accepted) :
      Happens s (.close c)
        { s with closed := s.answer c ++ s.closed, singles := s.answer c ++ s.singles }
  | closeAll (serving : s.stopping = false) : Happens s .closeAll s.sweep
  | visit {k c : Nat} {w : Sweep} (begun : s.sweeps[k]? = some w) (goes : w.ended = false)
      (present : c ∈ s.registry) : Happens s (.visit k c) (s.reach k w c)
  | finish {k : Nat} {w : Sweep} (begun : s.sweeps[k]? = some w) (goes : w.ended = false)
      (done : ∀ c ∈ w.ahead, c ∉ s.registry) :
      Happens s (.finish k)
        { s with
          sweeps := s.sweeps.set k { w with ended := true }
          shutdown := if s.shutdown = .closing k then .draining else s.shutdown }
  | stop (serving : s.stopping = false) : Happens s .stop { s with shutdown := .joining }
  | join (joining : s.shutdown = .joining) (ended : ∀ loop ∈ s.loops, loop = .ended) :
      Happens s .join { s.sweep with shutdown := .closing s.sweeps.length }
  | listen (draining : s.shutdown = .draining) :
      Happens s .listen { s with shutdown := .listening s.announced }
  | look {after : Nat} (listening : s.shutdown = .listening after) :
      Happens s .look
        { s with shutdown := if s.registry = [] then .returned else .waiting after }
  | hear {after : Nat} (waiting : s.shutdown = .waiting after) (news : s.announced ≠ after) :
      Happens s .hear { s with shutdown := .draining }

variable {s s' : Server} {e : Event} {c : Nat}

theorem turn_eq_some {loop : Nat} {now next : AcceptLoop} (h : s.turn loop now next = some s') :
    s.loops[loop]? = some now ∧ s' = { s with loops := s.loops.set loop next } := by
  unfold turn at h
  split at h
  · rename_i hnow
    exact ⟨hnow, (Option.some.inj h).symm⟩
  · cases h

theorem leave_eq_some (h : s.leave c = some s') : c ∈ s.registry ∧ s' = s.without c := by
  unfold leave at h
  split at h
  · rename_i hmem
    exact ⟨hmem, (Option.some.inj h).symm⟩
  · cases h

/-- A step **is one of the things that happen**. -/
theorem happens_of_step (h : s.step e = some s') : s.Happens e s' := by
  cases e with
  | accept loop =>
    simp only [step, Option.ite_none_right_eq_some, Option.some.injEq] at h
    obtain ⟨hfree, rfl⟩ := h
    exact .accept hfree
  | refuse loop =>
    obtain ⟨hfree, rfl⟩ := turn_eq_some h
    exact .refuse hfree
  | resume loop =>
    obtain ⟨hrests, rfl⟩ := turn_eq_some h
    exact .resume hrests
  | notice loop =>
    simp only [step, Option.ite_none_right_eq_some, Option.or_eq_some_iff] at h
    obtain ⟨hstopping, h | ⟨-, h⟩⟩ := h
    · obtain ⟨hruns, rfl⟩ := turn_eq_some h
      exact .notice hstopping hruns
    · obtain ⟨hruns, rfl⟩ := turn_eq_some h
      exact .notice hstopping hruns
  | shut c =>
    simp only [step, Option.ite_none_right_eq_some, Option.some.injEq] at h
    obtain ⟨hmem, rfl⟩ := h
    exact .shut hmem
  | conclude c =>
    simp only [step, Option.ite_none_right_eq_some] at h
    obtain ⟨hclosed, h⟩ := h
    obtain ⟨hmem, rfl⟩ := leave_eq_some h
    exact .conclude hmem hclosed
  | unwind c =>
    obtain ⟨hmem, rfl⟩ := leave_eq_some h
    exact .unwind hmem
  | lookBack c =>
    simp only [step, Option.ite_none_right_eq_some, Option.some.injEq] at h
    obtain ⟨hmem, rfl⟩ := h
    exact .lookBack hmem
  | announce c =>
    simp only [step, Option.ite_none_right_eq_some, Option.some.injEq] at h
    obtain ⟨hmem, rfl⟩ := h
    exact .announce hmem
  | close c =>
    simp only [step, Option.ite_none_right_eq_some, Option.some.injEq] at h
    obtain ⟨hknown, rfl⟩ := h
    exact .close hknown
  | closeAll =>
    simp only [step, Option.ite_none_left_eq_some, Option.some.injEq, Bool.not_eq_true] at h
    obtain ⟨hserving, rfl⟩ := h
    exact .closeAll hserving
  | visit k c =>
    cases hk : s.sweeps[k]? with
    | none => simp only [step, hk, reduceCtorEq] at h
    | some w =>
      simp only [step, hk, Option.ite_none_right_eq_some, Option.some.injEq] at h
      obtain ⟨⟨hgoes, hmem⟩, rfl⟩ := h
      exact .visit hk hgoes hmem
  | finish k =>
    cases hk : s.sweeps[k]? with
    | none => simp only [step, hk, reduceCtorEq] at h
    | some w =>
      simp only [step, hk, Option.ite_none_right_eq_some, Option.some.injEq] at h
      obtain ⟨⟨hgoes, hdone⟩, rfl⟩ := h
      exact .finish hk hgoes hdone
  | stop =>
    simp only [step, Option.ite_none_left_eq_some, Option.some.injEq, not_or, Bool.not_eq_true] at h
    obtain ⟨⟨hserving, -⟩, rfl⟩ := h
    exact .stop hserving
  | join =>
    simp only [step, Option.ite_none_right_eq_some, Option.some.injEq, List.all_eq_true,
      beq_iff_eq] at h
    obtain ⟨⟨hjoining, hended⟩, rfl⟩ := h
    exact .join hjoining hended
  | listen =>
    simp only [step, Option.ite_none_right_eq_some, Option.some.injEq] at h
    obtain ⟨hdraining, rfl⟩ := h
    exact .listen hdraining
  | look =>
    cases hd : s.shutdown with
    | listening after =>
      simp only [step, hd, Option.some.injEq] at h
      subst h
      exact .look hd
    | _ => simp only [step, hd, reduceCtorEq] at h
  | hear =>
    cases hd : s.shutdown with
    | waiting after =>
      simp only [step, hd, ne_eq, Option.ite_none_right_eq_some, Option.some.injEq] at h
      obtain ⟨hnews, rfl⟩ := h
      exact .hear hd hnews
    | _ => simp only [step, hd, reduceCtorEq] at h

/-! ### What has happened -/

/-- What has happened, **newest first**, once these events came on top of what happened before;
those that could not happen are left out. -/
def history (s : Server) (past : List Event) : List Event → List Event
  | [] => past
  | e :: later =>
    match s.step e with
    | some s' => s'.history (e :: past) later
    | none => s.history past later

/-- The connection whose task an event ends, normally or not. **A task ends with the step in which it
leaves the registry**; to look who is left and to announce it come after its end. -/
def Event.ends? : Event → Option Nat
  | conclude c => some c
  | unwind c => some c
  | _ => none

/-- Whether an event is the accepting of a connection. -/
def Event.isAccept : Event → Bool
  | accept _ => true
  | _ => false

/-- The connections whose tasks have ended, **which is when they left the registry**. -/
def endedIn (past : List Event) : List Nat := past.filterMap (·.ends?)

variable {past : List Event}

/-! ### The registry -/

/-- **The registry is exact.** -/
structure Enrolled (past : List Event) (s : Server) : Prop where
  registry : s.registry = (List.range s.accepted).filter (· ∉ endedIn past)
  accepted : s.accepted = past.countP Event.isAccept
  /-- Only what was accepted has ended. -/
  known : ∀ c ∈ endedIn past, c < s.accepted

theorem Enrolled.mem_iff (h : s.Enrolled past) :
    c ∈ s.registry ↔ c < s.accepted ∧ c ∉ endedIn past := by
  rw [h.registry, List.mem_filter, List.mem_range, decide_eq_true_eq]

theorem Enrolled.same (h : s.Enrolled past) (hends : e.ends? = none) (haccept : e.isAccept = false)
    (hregistry : s'.registry = s.registry) (haccepted : s'.accepted = s.accepted) :
    s'.Enrolled (e :: past) := by
  have hended : endedIn (e :: past) = endedIn past := List.filterMap_cons_none hends
  refine ⟨?_, ?_, ?_⟩
  · rw [hregistry, haccepted, hended]
    exact h.registry
  · rw [haccepted, List.countP_cons_of_neg (by simp [haccept])]
    exact h.accepted
  · rw [haccepted, hended]
    exact h.known

/-- A connection **is entered once it is accepted**. -/
theorem Enrolled.enter (h : s.Enrolled past) {loop : Nat} :
    ({ s with registry := s.registry ++ [s.accepted], accepted := s.accepted + 1 } :
      Server).Enrolled (.accept loop :: past) := by
  have hended : endedIn (.accept loop :: past) = endedIn past := List.filterMap_cons_none rfl
  have hnew : s.accepted ∉ endedIn past := fun hc => Nat.lt_irrefl _ (h.known _ hc)
  refine ⟨?_, ?_, fun c hc => ?_⟩
  · show s.registry ++ [s.accepted] = (List.range (s.accepted + 1)).filter _
    rw [hended, List.range_succ, List.filter_append, ← h.registry]
    simp [hnew]
  · rw [List.countP_cons_of_pos rfl, ← h.accepted]
  · rw [hended] at hc
    exact Nat.lt_succ_of_lt (h.known c hc)

/-- A connection **leaves once its task ends**. -/
theorem Enrolled.leave (h : s.Enrolled past) (hmem : c ∈ s.registry) (hends : e.ends? = some c)
    (haccept : e.isAccept = false) : (s.without c).Enrolled (e :: past) := by
  have hended : endedIn (e :: past) = c :: endedIn past := List.filterMap_cons_some hends
  have hnodup : s.registry.Nodup := by
    rw [h.registry]
    exact List.nodup_range.filter _
  refine ⟨?_, ?_, fun d hd => ?_⟩
  · show s.registry.erase c = (List.range s.accepted).filter _
    rw [hnodup.erase_eq_filter, h.registry, List.filter_filter, hended]
    refine List.filter_congr fun d _ => ?_
    simp only [List.mem_cons, not_or, Bool.decide_and, decide_not]
    rfl
  · rw [List.countP_cons_of_neg (by simp [haccept])]
    exact h.accepted
  · rw [hended] at hd
    rcases List.mem_cons.1 hd with rfl | hd
    · exact (h.mem_iff.1 hmem).1
    · exact h.known d hd

theorem enrolled_of_happens (h : s.Enrolled past) (hstep : s.Happens e s') :
    s'.Enrolled (e :: past) := by
  cases hstep with
  | accept free => exact h.enter
  | conclude present closed => exact h.leave present rfl rfl
  | unwind present => exact h.leave present rfl rfl
  | _ => exact h.same rfl rfl rfl rfl

/-! ### Calls to close -/

/-- The connections that **calls to close** answered yes for, or counted. -/
def counted (s : Server) : List Nat := s.singles ++ s.sweeps.flatMap (·.counted)

/-- No connection **is counted twice**. -/
structure Tallied (s : Server) : Prop where
  nodup : s.counted.Nodup
  closed : ∀ c ∈ s.counted, c ∈ s.closed
  known : ∀ c ∈ s.closed, c < s.accepted

theorem Tallied.same (h : s.Tallied) (hcounted : s'.counted = s.counted)
    (hclosed : s'.closed = s.closed) (haccepted : s.accepted ≤ s'.accepted) : s'.Tallied := by
  refine ⟨?_, ?_, ?_⟩
  · rw [hcounted]
    exact h.nodup
  · rw [hcounted, hclosed]
    exact h.closed
  · rw [hclosed]
    exact fun c hc => Nat.lt_of_lt_of_le (h.known c hc) haccepted

/-- A switch **answers yes once**, whoever uses it. -/
theorem Tallied.answered (h : s.Tallied) (hknown : c < s.accepted)
    (hcounted : s'.counted.Perm (s.answer c ++ s.counted) ∨ s'.counted = s.counted)
    (hclosed : s'.closed = s.answer c ++ s.closed) (haccepted : s'.accepted = s.accepted) :
    s'.Tallied := by
  have hanswer : ∀ d ∈ s.answer c, d = c ∧ c ∉ s.closed := by
    intro d hd
    unfold answer at hd
    split at hd
    · cases hd
    · rename_i hopen
      exact ⟨List.mem_singleton.1 hd, hopen⟩
  have hnodup : (s.answer c).Nodup := by
    unfold answer
    split
    · exact List.nodup_nil
    · exact List.nodup_singleton c
  refine ⟨?_, fun d hd => ?_, fun d hd => ?_⟩
  · rcases hcounted with hcounted | hcounted
    · refine hcounted.nodup_iff.2 (List.Nodup.append hnodup h.nodup fun d hd hcount => ?_)
      -- what was counted before is closed, and a closed switch answers no
      obtain ⟨rfl, hopen⟩ := hanswer d hd
      exact hopen (h.closed d hcount)
    · rw [hcounted]
      exact h.nodup
  · rw [hclosed]
    rcases hcounted with hcounted | hcounted
    · rcases List.mem_append.1 (hcounted.subset hd) with hd | hd
      · exact List.mem_append_left _ hd
      · exact List.mem_append_right _ (h.closed d hd)
    · rw [hcounted] at hd
      exact List.mem_append_right _ (h.closed d hd)
  · rw [haccepted]
    rw [hclosed] at hd
    rcases List.mem_append.1 hd with hd | hd
    · rw [(hanswer d hd).1]
      exact hknown
    · exact h.known d hd

/-- One call to close all that counts more **adds that to the whole**. -/
theorem flatMap_set_perm {l : List Sweep} {k : Nat} {w w' : Sweep} {more : List Nat}
    (hk : l[k]? = some w) (hw : w'.counted = more ++ w.counted) :
    ((l.set k w').flatMap (·.counted)).Perm (more ++ l.flatMap (·.counted)) := by
  induction l generalizing k with
  | nil => cases hk
  | cons v l ih =>
    cases k with
    | zero =>
      cases hk
      rw [List.set_cons_zero, List.flatMap_cons, List.flatMap_cons, hw, List.append_assoc]
    | succ k =>
      rw [List.set_cons_succ, List.flatMap_cons, List.flatMap_cons]
      refine ((ih hk).append_left v.counted).trans ?_
      rw [← List.append_assoc, ← List.append_assoc]
      exact List.perm_append_comm.append_right _

theorem tallied_of_happens (h : s.Tallied) (henrolled : s.Enrolled past)
    (hstep : s.Happens e s') : s'.Tallied := by
  cases hstep with
  | accept free => exact h.same rfl rfl (Nat.le_succ _)
  | shut present => exact h.answered (henrolled.mem_iff.1 present).1 (.inr rfl) rfl rfl
  | close known =>
    refine h.answered known (.inl ?_) rfl rfl
    show (_ ++ s.singles ++ _).Perm (_ ++ (s.singles ++ _))
    rw [List.append_assoc]
  | closeAll serving =>
    refine h.same ?_ rfl (Nat.le_refl _)
    simp only [counted, sweep, List.flatMap_append, List.flatMap_singleton, List.append_nil]
  | visit begun goes present =>
    refine h.answered (henrolled.mem_iff.1 present).1 (.inl ?_) rfl rfl
    refine ((flatMap_set_perm begun rfl).append_left s.singles).trans ?_
    rw [counted, ← List.append_assoc, ← List.append_assoc]
    exact List.perm_append_comm.append_right _
  | @finish k w begun goes done =>
    have hperm : ((s.sweeps.set k { w with ended := true }).flatMap (·.counted)).Perm
        ([] ++ s.sweeps.flatMap (·.counted)) := flatMap_set_perm begun rfl
    have hcounted := hperm.append_left s.singles
    exact ⟨hcounted.nodup_iff.2 h.nodup, fun c hc => h.closed c (hcounted.subset hc), h.known⟩
  | join joining ended =>
    refine h.same ?_ rfl (Nat.le_refl _)
    simp only [counted, sweep, List.flatMap_append, List.flatMap_singleton, List.append_nil]
  | _ => exact h.same rfl rfl (Nat.le_refl _)

/-! ### Accept loops -/

/-- **A loop is over only when it noticed** that the server stops. -/
structure Attended (past : List Event) (s : Server) : Prop where
  ended : ∀ loop, s.loops[loop]? = some .ended ↔ .notice loop ∈ past
  asked : s.stopping = true ↔ .stop ∈ past
  noticed : ∀ loop, .notice loop ∈ past → .stop ∈ past
  joined : s.shutdown.isJoined = true → ∀ loop ∈ s.loops, loop = .ended

theorem Attended.same (h : s.Attended past) (hnotice : ∀ loop, e ≠ .notice loop) (hstop : e ≠ .stop)
    (hloops : s'.loops = s.loops) (hstopping : s'.stopping = s.stopping)
    (hjoined : s'.shutdown.isJoined = true → s.shutdown.isJoined = true) :
    s'.Attended (e :: past) := by
  refine ⟨fun loop => ?_, ?_, fun loop hloop => ?_, fun hj => ?_⟩
  · rw [hloops, h.ended, List.mem_cons, or_iff_right (hnotice loop).symm]
  · rw [hstopping, h.asked, List.mem_cons, or_iff_right hstop.symm]
  · rcases List.mem_cons.1 hloop with he | hloop
    · exact absurd he.symm (hnotice loop)
    · exact List.mem_cons_of_mem _ (h.noticed loop hloop)
  · rw [hloops]
    exact h.joined (hjoined hj)

theorem stopping_of_isJoined (h : s.shutdown.isJoined = true) : s.stopping = true := by
  unfold stopping
  cases hd : s.shutdown with
  | notAsked =>
    rw [hd] at h
    cases h
  | _ => rfl

/-- Nothing is different for the loops **once they are all over**. -/
theorem Attended.further (h : s.Attended past) (hnotice : ∀ loop, e ≠ .notice loop)
    (hstop : e ≠ .stop) (hloops : s'.loops = s.loops) (hjoined : s.shutdown.isJoined = true)
    (hjoined' : s'.shutdown.isJoined = true) : s'.Attended (e :: past) := by
  refine h.same hnotice hstop hloops ?_ fun _ => hjoined
  rw [stopping_of_isJoined hjoined, stopping_of_isJoined hjoined']

/-- A loop that fails to accept, or has rested, **goes on**. -/
theorem Attended.turned (h : s.Attended past) {loop : Nat} {now next : AcceptLoop}
    (hnotice : ∀ loop, e ≠ .notice loop) (hstop : e ≠ .stop) (hruns : s.loops[loop]? = some now)
    (hnow : now ≠ .ended) (hnext : next ≠ .ended) :
    ({ s with loops := s.loops.set loop next } : Server).Attended (e :: past) := by
  refine ⟨fun i => ?_, ?_, fun i hi => ?_, fun hj => ?_⟩
  · show (s.loops.set loop next)[i]? = some .ended ↔ _
    rw [List.mem_cons, or_iff_right (hnotice i).symm, ← h.ended]
    by_cases hi : loop = i
    · subst hi
      rw [List.getElem?_set_self (List.getElem?_eq_some_iff.1 hruns).1, hruns]
      simp only [Option.some.injEq, hnow, hnext]
    · rw [List.getElem?_set_ne hi]
  · rw [List.mem_cons, or_iff_right hstop.symm]
    exact h.asked
  · rcases List.mem_cons.1 hi with he | hi
    · exact absurd he.symm (hnotice i)
    · exact List.mem_cons_of_mem _ (h.noticed i hi)
  · -- all loops would be over, and this one is not
    exact absurd (h.joined hj now (List.mem_of_getElem? hruns)) hnow

theorem Attended.notices (h : s.Attended past) {loop : Nat} {now : AcceptLoop}
    (hstopping : s.stopping = true) (hruns : s.loops[loop]? = some now) :
    ({ s with loops := s.loops.set loop .ended } : Server).Attended (.notice loop :: past) := by
  have hstop := h.asked.1 hstopping
  refine ⟨fun i => ?_, ?_, fun i _ => List.mem_cons_of_mem _ hstop, fun hj x hx => ?_⟩
  · show (s.loops.set loop .ended)[i]? = some .ended ↔ _
    rw [List.mem_cons, ← h.ended, Event.notice.injEq]
    by_cases hi : loop = i
    · subst hi
      rw [List.getElem?_set_self (List.getElem?_eq_some_iff.1 hruns).1]
      simp only [true_or]
    · rw [List.getElem?_set_ne hi, or_iff_right (Ne.symm hi)]
  · exact ⟨fun _ => List.mem_cons_of_mem _ hstop, fun _ => hstopping⟩
  · rcases List.mem_or_eq_of_mem_set hx with hx | rfl
    · exact h.joined hj x hx
    · rfl

theorem attended_of_happens (h : s.Attended past) (hstep : s.Happens e s') :
    s'.Attended (e :: past) := by
  cases hstep with
  | refuse free => exact h.turned nofun nofun free (by decide) (by decide)
  | resume rests => exact h.turned nofun nofun rests (by decide) (by decide)
  | notice stopping runs => exact h.notices stopping runs
  | stop serving =>
    refine ⟨fun loop => ?_, ?_, fun loop hloop => List.mem_cons_self, nofun⟩
    · rw [List.mem_cons, or_iff_right nofun]
      exact h.ended loop
    · exact ⟨fun _ => List.mem_cons_self, fun _ => rfl⟩
  | join joining ended =>
    have hstop : .stop ∈ past := h.asked.1 (by rw [stopping, joining]; rfl)
    refine ⟨fun loop => ?_, ?_, fun _ _ => List.mem_cons_of_mem _ hstop, fun _ => ended⟩
    · rw [List.mem_cons, or_iff_right nofun]
      exact h.ended loop
    · exact ⟨fun _ => List.mem_cons_of_mem _ hstop, fun _ => rfl⟩
  | @finish k w begun goes done =>
    by_cases hd : s.shutdown = .closing k
    · exact h.further nofun nofun rfl (by rw [hd]; rfl) (by simp only [hd, if_true]; rfl)
    · refine h.same nofun nofun rfl ?_ ?_
      · simp only [stopping, hd, if_false]
      · simp only [hd, if_false, imp_self]
  | listen draining => exact h.further nofun nofun rfl (by rw [draining]; rfl) rfl
  | look listening =>
    refine h.further nofun nofun rfl (by rw [listening]; rfl) ?_
    dsimp only
    split <;> rfl
  | hear waiting news => exact h.further nofun nofun rfl (by rw [waiting]; rfl) rfl
  | _ => exact h.same nofun nofun rfl rfl id

/-! ### Shutting down -/

/-- Some task that left **is still to see who is left, or to announce** that nobody is. -/
def Pending (s : Server) : Prop := s.leaving ≠ [] ∨ s.announcing ≠ []

/-- What holds **at each stage** of shutting down. -/
def Settled (s : Server) : Shutdown → Prop
  | .notAsked => True
  | .joining => True
  | .closing k => ∃ w, s.sweeps[k]? = some w ∧ w.ended = false ∧
      ∀ c ∈ s.registry, c ∈ w.ahead ∨ c ∈ s.closed
  | .draining => s.registry ⊆ s.closed
  | .listening after => s.registry ⊆ s.closed ∧ after ≤ s.announced
  | .waiting after => s.registry ⊆ s.closed ∧ after ≤ s.announced ∧
      (s.registry = [] → s.announced = after → s.Pending)
  | .returned => s.registry = []

/-- What is settled **stays so** while connections are only closed and leave. -/
theorem Settled.mono {d : Shutdown} (h : s.Settled d) (hregistry : s'.registry ⊆ s.registry)
    (hclosed : s.closed ⊆ s'.closed) (hannounced : s.announced ≤ s'.announced)
    (hsweeps : ∀ k w, d = .closing k → s.sweeps[k]? = some w → w.ended = false →
      ∃ w', s'.sweeps[k]? = some w' ∧ w'.ended = false ∧ ∀ c ∈ w.ahead, c ∈ w'.ahead ∨ c ∈ s'.closed)
    (hpending : s'.registry = [] → s'.announced = s.announced → (s.registry = [] → s.Pending) →
      s'.Pending) : s'.Settled d := by
  cases d with
  | notAsked => trivial
  | joining => trivial
  | closing k =>
    obtain ⟨w, hk, hgoes, hahead⟩ := h
    obtain ⟨w', hk', hgoes', hahead'⟩ := hsweeps k w rfl hk hgoes
    refine ⟨w', hk', hgoes', fun c hc => ?_⟩
    rcases hahead c (hregistry hc) with hc | hc
    · exact hahead' c hc
    · exact .inr (hclosed hc)
  | draining => exact List.Subset.trans hregistry (List.Subset.trans h hclosed)
  | listening after =>
    obtain ⟨hall, hafter⟩ := h
    exact ⟨List.Subset.trans hregistry (List.Subset.trans hall hclosed),
      Nat.le_trans hafter hannounced⟩
  | waiting after =>
    obtain ⟨hall, hafter, hawaited⟩ := h
    refine ⟨List.Subset.trans hregistry (List.Subset.trans hall hclosed),
      Nat.le_trans hafter hannounced, fun hnil heq => ?_⟩
    -- nothing was announced meanwhile
    have hsame : s.announced = after := Nat.le_antisymm (heq ▸ hannounced) hafter
    exact hpending hnil (heq.trans hsame.symm) fun hregistry => hawaited hregistry hsame
  | returned => exact List.eq_nil_of_subset_nil (h ▸ hregistry)

/-- What is settled stays so while the calls to close all **stand as they are**. -/
theorem Settled.aside {d : Shutdown} (h : s.Settled d) (hregistry : s'.registry ⊆ s.registry)
    (hclosed : s.closed ⊆ s'.closed) (hannounced : s.announced ≤ s'.announced)
    (hsweeps : s'.sweeps = s.sweeps)
    (hpending : s'.registry = [] → s'.announced = s.announced → (s.registry = [] → s.Pending) →
      s'.Pending) : s'.Settled d := by
  refine h.mono hregistry hclosed hannounced (fun k w _ hk hgoes => ?_) hpending
  exact ⟨w, by rw [hsweeps, hk], hgoes, fun _ hc => .inl hc⟩

theorem Settled.unjoined {d : Shutdown} (hd : d.isJoined = false) : s.Settled d := by
  cases d with
  | notAsked => trivial
  | joining => trivial
  | _ => cases hd

/-- The switch of a connection that was used **is closed**. -/
theorem mem_answer_append (s : Server) (c : Nat) : c ∈ s.answer c ++ s.closed := by
  unfold answer
  split
  · assumption
  · exact List.mem_cons_self

theorem Settled.leave {d : Shutdown} (h : s.Settled d) : (s.without c).Settled d :=
  h.aside List.erase_subset (List.Subset.refl _) (Nat.le_refl _) rfl
    fun _ _ _ => .inl (List.cons_ne_nil _ _)

/-- Nothing is different for shutting down **but what is closed**. -/
theorem Settled.close {d : Shutdown} (h : s.Settled d) (hregistry : s'.registry = s.registry)
    (hclosed : s.closed ⊆ s'.closed) (hannounced : s'.announced = s.announced)
    (hsweeps : s'.sweeps = s.sweeps) (hleaving : s'.leaving = s.leaving)
    (hannouncing : s'.announcing = s.announcing) : s'.Settled d := by
  refine h.aside (fun c hc => hregistry ▸ hc) hclosed (Nat.le_of_eq hannounced.symm) hsweeps ?_
  intro hnil _ hpending
  unfold Pending
  rw [hleaving, hannouncing]
  exact hpending (hregistry ▸ hnil)

theorem Settled.visit {d : Shutdown} (h : s.Settled d) {k : Nat} {w : Sweep}
    (hk : s.sweeps[k]? = some w) (hgoes : w.ended = false) : (s.reach k w c).Settled d := by
  refine h.mono (List.Subset.refl _) (List.subset_append_right _ _) (Nat.le_refl _) ?_
    fun hnil _ hpending => hpending hnil
  intro i v _ hi hv
  by_cases hik : k = i
  · subst hik
    rw [hk] at hi
    cases hi
    refine ⟨_, List.getElem?_set_self (List.getElem?_eq_some_iff.1 hk).1, hgoes, fun a ha => ?_⟩
    by_cases hac : a = c
    · subst hac
      exact .inr (mem_answer_append s a)
    · exact .inl ((List.mem_erase_of_ne hac).2 ha)
  · exact ⟨v, by rw [reach, List.getElem?_set_ne hik, hi], hv, fun a ha => .inl ha⟩

theorem Settled.finish (h : s.Settled s.shutdown) {k : Nat} {w : Sweep}
    (hk : s.sweeps[k]? = some w) (hdone : ∀ c ∈ w.ahead, c ∉ s.registry) :
    ({ s with
        sweeps := s.sweeps.set k { w with ended := true }
        shutdown := if s.shutdown = .closing k then .draining else s.shutdown } : Server).Settled
      (if s.shutdown = .closing k then .draining else s.shutdown) := by
  by_cases hd : s.shutdown = .closing k
  · rw [hd] at h
    rw [if_pos hd]
    intro c hc
    obtain ⟨v, hv, -, hahead⟩ := h
    rw [hk] at hv
    cases hv
    exact (hahead c hc).resolve_left fun ha => hdone c ha hc
  · rw [if_neg hd]
    refine h.mono (List.Subset.refl _) (List.Subset.refl _) (Nat.le_refl _) ?_
      fun hnil _ hpending => hpending hnil
    intro i v hi hv hgoes
    have hik : k ≠ i := fun hki => hd (hki ▸ hi)
    exact ⟨v, by rw [List.getElem?_set_ne hik, hv], hgoes, fun a ha => .inl ha⟩

theorem settled_of_happens (h : s.Settled s.shutdown) (hattended : s.Attended past)
    (hstep : s.Happens e s') : s'.Settled s'.shutdown := by
  cases hstep with
  | @accept loop free =>
    -- a loop still runs, so they have not all been found over
    refine Settled.unjoined (Bool.eq_false_iff.2 fun hjoined => ?_)
    have hended := hattended.joined hjoined _ (List.mem_of_getElem? free)
    cases hended
  | shut present => exact h.close rfl (List.subset_append_right _ _) rfl rfl rfl rfl
  | conclude present closed => exact h.leave
  | unwind present => exact h.leave
  | lookBack left =>
    refine h.aside (List.Subset.refl _) (List.Subset.refl _) (Nat.le_refl _) rfl
      fun hnil _ _ => .inr ?_
    rw [if_pos hnil]
    exact List.cons_ne_nil _ _
  | announce alone =>
    refine h.aside (List.Subset.refl _) (List.Subset.refl _) (Nat.le_succ _) rfl
      fun _ heq _ => ?_
    exact absurd heq (Nat.succ_ne_self _)
  | close known => exact h.close rfl (List.subset_append_right _ _) rfl rfl rfl rfl
  | closeAll serving =>
    have hnot : s.shutdown = .notAsked := by
      simpa only [stopping, bne_eq_false_iff_eq] using serving
    show Settled _ s.shutdown
    rw [hnot]
    trivial
  | visit begun goes present => exact h.visit begun goes
  | finish begun goes done => exact h.finish begun done
  | stop serving => trivial
  | join joining ended =>
    exact ⟨_, List.getElem?_concat_length, rfl, fun c hc => .inl hc⟩
  | listen draining =>
    rw [draining] at h
    exact ⟨h, Nat.le_refl _⟩
  | look listening =>
    rw [listening] at h
    by_cases hnil : s.registry = []
    · show Settled _ (if s.registry = [] then _ else _)
      rw [if_pos hnil]
      exact hnil
    · show Settled _ (if s.registry = [] then _ else _)
      rw [if_neg hnil]
      exact ⟨h.1, h.2, fun hnil' => absurd hnil' hnil⟩
  | hear waiting news =>
    rw [waiting] at h
    exact h.1
  | _ => exact h.close rfl (List.Subset.refl _) rfl rfl rfl rfl

/-! ### Whatever happens -/

/-- The invariants **together**. -/
structure Kept (past : List Event) (s : Server) : Prop where
  enrolled : s.Enrolled past
  tallied : s.Tallied
  attended : s.Attended past
  settled : s.Settled s.shutdown

theorem kept_of_step (h : s.Kept past) (hstep : s.step e = some s') : s'.Kept (e :: past) := by
  have hhappens := happens_of_step hstep
  exact ⟨enrolled_of_happens h.enrolled hhappens, tallied_of_happens h.tallied h.enrolled hhappens,
    attended_of_happens h.attended hhappens, settled_of_happens h.settled h.attended hhappens⟩

theorem kept_of_play (h : s.Kept past) (events : List Event) :
    (s.play events).Kept (s.history past events) := by
  induction events generalizing s past with
  | nil => exact h
  | cons e later ih =>
    show (((s.step e).getD s).play later).Kept (s.history past (e :: later))
    cases hstep : s.step e with
    | none =>
      simp only [history, hstep]
      exact ih h
    | some s' =>
      simp only [history, hstep]
      exact ih (kept_of_step h hstep)

theorem loops_startFrom (running : List AcceptLoop) (addresses : List Address)
    (listeners : List (Except IoError Address)) :
    ∃ n, (startFrom running addresses listeners).server
      = { loops := running ++ List.replicate n .accepting } := by
  induction listeners generalizing running addresses with
  | nil => exact ⟨0, by rw [List.replicate_zero, List.append_nil]; rfl⟩
  | cons listener listeners ih =>
    cases listener with
    | error cause => exact ⟨0, by rw [List.replicate_zero, List.append_nil]; rfl⟩
    | ok address =>
      obtain ⟨n, hn⟩ := ih (running ++ [.accepting]) (addresses ++ [address])
      refine ⟨n + 1, hn.trans ?_⟩
      rw [List.append_assoc, List.replicate_succ]
      rfl

/-- A server starts with **so many loops**, all of them accepting. -/
theorem loops_start (listeners : List (Except IoError Address)) :
    ∃ n, (start listeners).server = { loops := List.replicate n .accepting } := by
  unfold start
  split
  · exact ⟨0, rfl⟩
  · exact loops_startFrom [] [] listeners

theorem kept_of_start (listeners : List (Except IoError Address)) :
    (start listeners).server.Kept [] := by
  obtain ⟨n, hn⟩ := loops_start listeners
  rw [hn]
  refine ⟨⟨rfl, rfl, nofun⟩, ⟨List.nodup_nil, nofun, nofun⟩, ⟨fun loop => ?_, ?_, nofun, nofun⟩,
    trivial⟩
  · show (List.replicate n AcceptLoop.accepting)[loop]? = some .ended ↔ _
    rw [List.getElem?_replicate]
    split <;> simp
  · simp [stopping]

/-- Whether an event is one of the last: a task that has left, **or shutting down**, goes on. -/
def Event.isParting : Event → Bool
  | lookBack _ => true
  | announce _ => true
  | listen => true
  | look => true
  | hear => true
  | _ => false

/-- What **shutting down still needs**, once it hears that the registry is empty. -/
theorem returned_of_heard {after : Nat} (hwaiting : s.shutdown = .waiting after)
    (hnews : s.announced ≠ after) (hnil : s.registry = []) :
    (s.play [.hear, .listen, .look]).shutdown = .returned := by
  simp [play, step, hwaiting, hnews, hnil]

theorem returned_of_announcing {after : Nat} (hwaiting : s.shutdown = .waiting after)
    (hafter : after ≤ s.announced) (hnil : s.registry = []) (hc : c ∈ s.announcing) :
    (s.play [.announce c, .hear, .listen, .look]).shutdown = .returned := by
  have hnews : s.announced + 1 ≠ after := Nat.ne_of_gt (Nat.lt_succ_of_le hafter)
  have hstep : s.step (.announce c) = some
      { s with announcing := s.announcing.erase c, announced := s.announced + 1 } := if_pos hc
  show (((s.step (.announce c)).getD s).play [.hear, .listen, .look]).shutdown = .returned
  rw [hstep]
  exact returned_of_heard hwaiting hnews hnil

/-- **No wakeup is lost**: shutting down waits with nobody left only while it was told so, or will be
by a task that has left, and comes to its end by their last steps alone. -/
theorem Kept.awaited (h : s.Kept past) {after : Nat} (hwaiting : s.shutdown = .waiting after)
    (hnil : s.registry = []) :
    (s.announced ≠ after ∨ s.Pending) ∧
      ∃ events, (∀ e ∈ events, e.isParting = true) ∧ (s.play events).shutdown = .returned := by
  have hsettled := h.settled
  rw [hwaiting] at hsettled
  obtain ⟨-, hafter, hawaited⟩ := hsettled
  by_cases hnews : s.announced = after
  · have hpending := hawaited hnil hnews
    refine ⟨.inr hpending, ?_⟩
    rcases hpending with hleaving | hannouncing
    · obtain ⟨c, hc⟩ := List.exists_mem_of_ne_nil _ hleaving
      have hstep : s.step (.lookBack c) = some
          { s with leaving := s.leaving.erase c, announcing := c :: s.announcing } := by
        simp only [step, hc, hnil, if_true]
      refine ⟨[.lookBack c, .announce c, .hear, .listen, .look], by simp [Event.isParting], ?_⟩
      show (((s.step (.lookBack c)).getD s).play [.announce c, .hear, .listen, .look]).shutdown
        = .returned
      rw [hstep]
      exact returned_of_announcing hwaiting hafter hnil List.mem_cons_self
    · obtain ⟨c, hc⟩ := List.exists_mem_of_ne_nil _ hannouncing
      exact ⟨_, by simp [Event.isParting], returned_of_announcing hwaiting hafter hnil hc⟩
  · exact ⟨.inl hnews, _, by decide, returned_of_heard hwaiting hnews hnil⟩

/-- When shutting down has returned, **nothing runs any more**. -/
theorem Kept.returned (h : s.Kept past) (hreturned : s.shutdown = .returned) :
    (∀ loop ∈ s.loops, loop = .ended) ∧ s.registry = [] ∧ ∀ c < s.accepted, c ∈ endedIn past := by
  have hnil := h.settled
  rw [hreturned] at hnil
  refine ⟨h.attended.joined (by rw [hreturned]; rfl), hnil, fun c hc => ?_⟩
  by_contra hrunning
  have hmem := h.enrolled.mem_iff.2 ⟨hc, hrunning⟩
  rw [show s.registry = [] from hnil] at hmem
  cases hmem

theorem Kept.dismissed (h : s.Kept past) {after : Nat} (hwaiting : s.shutdown = .waiting after) :
    s.registry ⊆ s.closed := by
  have hsettled := h.settled
  rw [hwaiting] at hsettled
  exact hsettled.1

/-- A loop that failed to accept **can go on as if nothing had been**. -/
theorem resume_of_refuse {loop : Nat} (h : s.step (.refuse loop) = some s') :
    s'.step (.resume loop) = some s := by
  obtain ⟨hfree, rfl⟩ := turn_eq_some h
  obtain ⟨hlt, hloop⟩ := List.getElem?_eq_some_iff.1 hfree
  have hrests : (s.loops.set loop .resting)[loop]? = some .resting := List.getElem?_set_self hlt
  simp only [step, turn, hrests, if_true, List.set_set, Option.some.injEq]
  rw [← hloop, List.set_getElem_self]

/-- A loop that is free **can accept**, and who is accepted is in the registry at once. -/
theorem accept_of_free {loop : Nat} (hfree : s.loops[loop]? = some .accepting) :
    ∃ s', s.step (.accept loop) = some s' ∧ s.accepted ∈ s'.registry := by
  refine ⟨_, if_pos hfree, ?_⟩
  exact List.mem_append_right _ List.mem_cons_self

/-- What a switch answers comes before what was answered: **yes, unless it was used before**. -/
theorem mem_answer_iff {earlier : List Nat} :
    c ∈ s.answer c ++ earlier ↔ c ∉ s.closed ∨ c ∈ earlier := by
  unfold answer
  split <;> simp [*]

/-- A connection that was accepted **can be closed**, and is closed then; the call answers yes unless it
was closed before. -/
theorem close_of_known (hknown : c < s.accepted) :
    ∃ s', s.step (.close c) = some s' ∧ c ∈ s'.closed ∧
      (c ∈ s'.singles ↔ c ∉ s.closed ∨ c ∈ s.singles) :=
  ⟨_, if_pos hknown, mem_answer_append s c, mem_answer_iff⟩

/-- A call to close all **closes each connection it comes to**, and counts it unless it was closed
before. -/
theorem visit_of_present {k : Nat} {w : Sweep} (hk : s.sweeps[k]? = some w) (hgoes : w.ended = false)
    (hmem : c ∈ s.registry) :
    ∃ s' w', s.step (.visit k c) = some s' ∧ c ∈ s'.closed ∧ s'.sweeps[k]? = some w' ∧
      (c ∈ w'.counted ↔ c ∉ s.closed ∨ c ∈ w.counted) := by
  refine ⟨s.reach k w c, _, ?_, mem_answer_append s c,
    List.getElem?_set_self (List.getElem?_eq_some_iff.1 hk).1, mem_answer_iff⟩
  simp only [step, hk, hgoes, hmem, and_self, if_true]

/-- A connection that is closed **can come to its end**, and leaves the registry then. -/
theorem Enrolled.conclude_of_closed (h : s.Enrolled past) (hmem : c ∈ s.registry)
    (hclosed : c ∈ s.closed) : ∃ s', s.step (.conclude c) = some s' ∧ c ∉ s'.registry := by
  have hnodup : s.registry.Nodup := by
    rw [h.registry]
    exact List.nodup_range.filter _
  have hleave : s.leave c = some (s.without c) := if_pos hmem
  exact ⟨s.without c, (if_pos hclosed).trans hleave, hnodup.not_mem_erase⟩

/-- **What is true of a server at any moment**, whatever has happened. -/
structure Sound (past : List Event) (s : Server) : Prop where
  /-- The registry holds what was accepted and has not ended, in the order of accepting. -/
  registered : s.registry = (List.range s.accepted).filter (· ∉ endedIn past)
  accepted : s.accepted = past.countP Event.isAccept
  /-- A free loop can accept at any time, and the registry then holds who was accepted. -/
  enters : ∀ loop, s.loops[loop]? = some .accepting →
    ∃ s', s.step (.accept loop) = some s' ∧ s.accepted ∈ s'.registry
  /-- No two calls to close, and none twice, count one connection. -/
  counted : s.counted.Nodup
  /-- What was counted is closed. -/
  told : ∀ c ∈ s.counted, c ∈ s.closed
  /-- Who was accepted can be closed at any time, and the call counts it unless it was closed before. -/
  closes : ∀ c < s.accepted, ∃ s', s.step (.close c) = some s' ∧ c ∈ s'.closed ∧
    (c ∈ s'.singles ↔ c ∉ s.closed ∨ c ∈ s.singles)
  /-- So it is with each connection that a call to close all comes to. -/
  closesAll : ∀ k w c, s.sweeps[k]? = some w → w.ended = false → c ∈ s.registry →
    ∃ s' w', s.step (.visit k c) = some s' ∧ c ∈ s'.closed ∧ s'.sweeps[k]? = some w' ∧
      (c ∈ w'.counted ↔ c ∉ s.closed ∨ c ∈ w.counted)
  /-- Who is closed can come to its end. -/
  leaves : ∀ c ∈ s.registry, c ∈ s.closed →
    ∃ s', s.step (.conclude c) = some s' ∧ c ∉ s'.registry
  /-- A failed accept is nothing that the loop does not come back from. -/
  undeterred : ∀ loop s', s.step (.refuse loop) = some s' → s'.step (.resume loop) = some s
  /-- A loop is over only when it noticed that the server stops, which someone asked for. -/
  ended : ∀ loop, s.loops[loop]? = some .ended ↔ .notice loop ∈ past
  asked : ∀ loop, .notice loop ∈ past → .stop ∈ past
  /-- When shutting down returns nothing is left. -/
  returned : s.shutdown = .returned →
    (∀ loop ∈ s.loops, loop = .ended) ∧ s.registry = [] ∧ ∀ c < s.accepted, c ∈ endedIn past
  /-- Who is waited for has been told to stop. -/
  dismissed : ∀ after, s.shutdown = .waiting after → s.registry ⊆ s.closed
  /-- Shutting down does not wait with nobody left, but for what was announced or will be. -/
  awaited : ∀ after, s.shutdown = .waiting after → s.registry = [] →
    (s.announced ≠ after ∨ s.Pending) ∧
      ∃ events, (∀ e ∈ events, e.isParting = true) ∧ (s.play events).shutdown = .returned

/-- **Whatever happens** to a server with any number of loops, and in whatever order, it is sound. -/
theorem play_sound (listeners : List (Except IoError Address)) (events : List Event) :
    Sound ((start listeners).server.history [] events) ((start listeners).server.play events) := by
  have h := kept_of_play (kept_of_start listeners) events
  exact
    { registered := h.enrolled.registry
      accepted := h.enrolled.accepted
      enters := fun _ => accept_of_free
      counted := h.tallied.nodup
      told := h.tallied.closed
      closes := fun _ => close_of_known
      closesAll := fun _ _ _ => visit_of_present
      leaves := fun _ => h.enrolled.conclude_of_closed
      undeterred := fun _ _ => resume_of_refuse
      ended := h.attended.ended
      asked := h.attended.noticed
      returned := h.returned
      dismissed := fun _ => h.dismissed
      awaited := fun _ => h.awaited }

/-- The last connection leaves **after shutting down looked** and is heard of all the same. -/
example :
    let s : Server := { loops := [.accepting] }
    (s.play [.accept 0, .stop, .notice 0, .join, .visit 0 0, .finish 0, .listen, .look, .conclude 0,
      .hear, .lookBack 0, .announce 0, .hear, .listen, .look]).shutdown = .returned := by decide

end Server

end HttpEngine
