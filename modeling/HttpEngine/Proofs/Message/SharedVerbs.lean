import HttpEngine.Proofs.Message.Fields
import Mathlib.Data.List.Nodup
import Mathlib.Data.List.Perm.Subperm
import Mathlib.Tactic.Ring

/-!
# The names of methods that connections share

One cache of method names serves every connection. A call of `provide` reads the cache once and, for
a name that is not kept yet, writes it once; between the two **any other call may read and write**.

* `MethodCache.Call`, `MethodCache.Shared`: the calls and where each of them stands.
* `MethodCache.Move`, `Shared.after`: calls that come and go on, **in any order**.
* `Shared.Sound`: what holds at every moment; kept by every move (`Sound.move`).
* `Shared.rank_run`: a call has its answer after two moves of its own.
* `Method.mem_spellings`: the names a cache can keep, of which there are 432.
* `Shared.unseen_after`: the cache is **not seen in any answer, and bounded**.
-/

namespace HttpEngine

open Text

/-! ### The spellings of a word -/

theorem Text.eq_or_eq_toLower {c d : Char} (hc : c.isUpper = true) (h : d.toLower = c.toLower) :
    d = c ∨ d = c.toLower := by
  by_cases hd : d.isUpper = true
  · left
    -- a great letter is 32 before its small one
    have hval : ∀ {e : Char}, e.isUpper = true → e.toLower.val = e.val + 32 :=
      fun he => congrArg Char.val (dif_pos (of_decide_eq_true he))
    have hsame : d.val + 32 = c.val + 32 := by rw [← hval hd, ← hval hc, h]
    exact Char.ext ((UInt32.add_left_inj 32).1 hsame)
  · right
    have hsmall : d.toLower = d := dif_neg fun he => hd (decide_eq_true he)
    rw [← h, hsmall]

/-- A word with each of its letters great or small. -/
def Text.casings : List Char → List (List Char)
  | [] => [[]]
  | c :: rest => (casings rest).flatMap fun w => [c :: w, c.toLower :: w]

theorem Text.length_casings (word : List Char) : (casings word).length = 2 ^ word.length := by
  induction word with
  | nil => rfl
  | cons c rest ih =>
    simp [casings, ih, pow_succ]

/-- What equals a word of capitals up to case is **one of its casings**. -/
theorem Text.mem_casings {word : List Char} (hw : ∀ c ∈ word, c.isUpper = true) {text : List Char}
    (h : text.map Char.toLower = word.map Char.toLower) : text ∈ casings word := by
  induction word generalizing text with
  | nil => simpa [casings] using h
  | cons c rest ih =>
    cases text with
    | nil => cases h
    | cons d text =>
      rw [List.map_cons, List.map_cons, List.cons.injEq] at h
      have hrest := ih (fun e he => hw e (List.mem_cons_of_mem _ he)) h.2
      refine List.mem_flatMap.2 ⟨text, hrest, ?_⟩
      obtain rfl | rfl := eq_or_eq_toLower (hw c List.mem_cons_self) h.1 <;> simp

namespace Method

/-- Every name of a method. -/
def spellings : List String := all.flatMap fun m => (casings m.token.toList).map String.ofList

theorem mem_spellings {name : String} {m : Method} (h : sameName m.token name = true) :
    name ∈ spellings := by
  have hm : m ∈ all := by cases m <;> decide
  have hcap : m.token.toList.all Char.isUpper = true := by cases m <;> decide
  rw [sameName_iff] at h
  have hname := mem_casings (List.all_eq_true.1 hcap) h.symm
  exact List.mem_flatMap.2 ⟨m, hm, List.mem_map.2 ⟨_, hname, String.ofList_toList⟩⟩

theorem length_spellings : spellings.length = 432 := by
  simp only [spellings, List.length_flatMap, List.length_map, length_casings]
  decide

end Method

namespace MethodCache

/-! ### Calls between each other -/

/-- Where a call of `provide` stands. -/
inductive Standing
  /-- It has not read the cache yet. -/
  | asked
  /-- The name was not kept, and is a name of this method. -/
  | missed (m : Method)
  /-- It has returned; `kept` when its **last step was to keep the name**. -/
  | answered (answer : Except Error Method) (kept : Bool)

/-- A call of `provide` with this name. -/
structure Call where
  name : String
  standing : Standing := .asked

namespace Call

/-- The next step of a call: **read the cache, or keep the name**. Each is one step of the cache,
and a call that has returned takes none. -/
def proceed (cache : MethodCache) (c : Call) : Call × MethodCache :=
  match c.standing with
  | .asked =>
    match cache.find? c.name with
    | some m => ({ c with standing := .answered (.ok m) false }, cache)
    | none =>
      match Method.ofName c.name with
      | .error e => ({ c with standing := .answered (.error e) false }, cache)
      | .ok m => ({ c with standing := .missed m }, cache)
  | .missed m =>
    let (kept, cache) := cache.keep c.name m
    ({ c with standing := .answered (.ok kept) true }, cache)
  | .answered .. => (c, cache)

/-- The steps before a call returns, at most. -/
def rank (c : Call) : Nat :=
  match c.standing with
  | .asked => 2
  | .missed _ => 1
  | .answered .. => 0

/-- A call that found its method and **has kept the name**. -/
def HasKept (c : Call) : Prop := ∃ m, c.standing = .answered (.ok m) true

end Call

/-- A cache and the calls on it, those that have returned among them. -/
structure Shared where
  cache : MethodCache := empty
  calls : List Call := []

/-- What happens next to a shared cache. -/
inductive Move
  /-- Someone calls `provide` with this name. -/
  | call (name : String)
  /-- The call with this number takes a step. -/
  | proceed (number : Nat)
  deriving DecidableEq

namespace Shared

/-- One move. -/
def move (s : Shared) : Move → Shared
  | .call name => { s with calls := s.calls ++ [{ name }] }
  | .proceed i =>
    match s.calls[i]? with
    | none => s
    | some c => ⟨(c.proceed s.cache).2, s.calls.set i (c.proceed s.cache).1⟩

/-- These moves, one after another. -/
def run (s : Shared) (moves : List Move) : Shared := moves.foldl move s

/-- A new cache after these moves. -/
def after (moves : List Move) : Shared := run {} moves

end Shared

/-- The names that are kept. -/
def names (cache : MethodCache) : List String := cache.entries.map Prod.fst

@[simp] theorem names_concat (entries : List (String × Method)) (name : String) (m : Method) :
    names ⟨entries ++ [(name, m)]⟩ = (names ⟨entries⟩).concat name := by
  simp [names]

theorem mem_names_of_find? {cache : MethodCache} {name : String} {m : Method}
    (h : cache.find? name = some m) : name ∈ cache.names := by
  obtain ⟨before, after, hentries, -⟩ := List.lookup_eq_some_iff.1 h
  simp [names, hentries]

theorem not_mem_names_of_find? {cache : MethodCache} {name : String}
    (h : cache.find? name = none) : name ∉ cache.names := by
  intro hname
  obtain ⟨e, he, rfl⟩ := List.mem_map.1 hname
  exact absurd (List.lookup_eq_none_iff.1 h e he) (by simp)

/-! ### One step of a call -/

namespace Call

variable {cache cache' : MethodCache} {c c' : Call}

/-- What a step of a call comes to: `Goes cache c c' cache'` **says all that it reads and writes**. -/
inductive Goes (cache : MethodCache) (c : Call) : Call → MethodCache → Prop
  | returned {answer kept} : c.standing = .answered answer kept → Goes cache c c cache
  | hit {m} : c.standing = .asked → cache.find? c.name = some m →
      Goes cache c ⟨c.name, .answered (.ok m) false⟩ cache
  | unknown {e} : c.standing = .asked → Method.ofName c.name = .error e →
      Goes cache c ⟨c.name, .answered (.error e) false⟩ cache
  | miss {m} : c.standing = .asked → Method.ofName c.name = .ok m →
      Goes cache c ⟨c.name, .missed m⟩ cache
  /-- Someone else kept the name **in the meantime**. -/
  | late {m k} : c.standing = .missed m → cache.find? c.name = some k →
      Goes cache c ⟨c.name, .answered (.ok k) true⟩ cache
  | keep {m} : c.standing = .missed m → cache.find? c.name = none →
      Goes cache c ⟨c.name, .answered (.ok m) true⟩ ⟨cache.entries ++ [(c.name, m)]⟩

theorem goes_proceed (cache : MethodCache) (c : Call) :
    Goes cache c (c.proceed cache).1 (c.proceed cache).2 := by
  obtain ⟨name, standing⟩ := c
  unfold proceed
  cases standing with
  | asked =>
    cases hf : cache.find? name with
    | some m => simpa [hf] using .hit rfl hf
    | none =>
      cases ho : Method.ofName name with
      | error e => simpa [hf, ho] using .unknown rfl ho
      | ok m => simpa [hf, ho] using .miss rfl ho
  | missed m =>
    cases hf : cache.find? name with
    | some k => simpa [MethodCache.keep, hf] using .late rfl hf
    | none => simpa [MethodCache.keep, hf] using .keep rfl hf
  | answered answer kept => exact .returned rfl

/-- What a call has read off and what it has returned is **what its name stands for**. -/
structure Faithful (c : Call) : Prop where
  missed : ∀ m, c.standing = .missed m → Method.ofName c.name = .ok m
  answered : ∀ answer kept, c.standing = .answered answer kept → answer = Method.ofName c.name

theorem Goes.name_eq (h : Goes cache c c' cache') : c'.name = c.name := by
  cases h <;> rfl

theorem Goes.rank_le (h : Goes cache c c' cache') : c'.rank ≤ c.rank - 1 := by
  cases h <;> simp_all [rank]

/-- Entries are only added, and **behind those there are**. -/
theorem Goes.entries_prefix (h : Goes cache c c' cache') : cache.entries <+: cache'.entries := by
  cases h with
  | keep => exact List.prefix_append _ _
  | _ => exact List.prefix_rfl

theorem faithful_asked (name : String) : Faithful ⟨name, .asked⟩ where
  missed m h := by cases h
  answered answer kept h := by cases h

theorem faithful_answered {name : String} {answer : Except Error Method}
    (h : answer = Method.ofName name) (kept : Bool) : Faithful ⟨name, .answered answer kept⟩ where
  missed m hs := by cases hs
  answered answer' kept' hs := by
    cases hs
    exact h

theorem Goes.faithful (h : Goes cache c c' cache') (hcache : cache.Sound) (hc : c.Faithful) :
    c'.Faithful := by
  have hkept : ∀ m, cache.find? c.name = some m → Method.ofName c.name = .ok m := by
    intro m hm
    exact Method.ofName_eq_ok.2 (hcache c.name m hm)
  cases h with
  | returned => exact hc
  | hit _ hf => exact faithful_answered (hkept _ hf).symm _
  | unknown _ ho => exact faithful_answered ho.symm _
  | miss _ ho =>
    refine ⟨fun m hs => ?_, fun answer kept hs => ?_⟩
    · cases hs
      exact ho
    · cases hs
  | late _ hf => exact faithful_answered (hkept _ hf).symm _
  | keep hs _ => exact faithful_answered (hc.missed _ hs).symm _

theorem Goes.mem_entries (h : Goes cache c c' cache') (hc : c.Faithful) {e : String × Method}
    (he : e ∈ cache'.entries) : e ∈ cache.entries ∨ sameName e.2.token e.1 = true := by
  cases h with
  | keep hs _ =>
    rcases List.mem_append.1 he with hold | hnew
    · exact .inl hold
    · obtain rfl := List.mem_singleton.1 hnew
      exact .inr (Method.ofName?_eq_some_iff.1 (Method.ofName_eq_ok.1 (hc.missed _ hs)))
  | _ => exact .inl he

theorem Goes.hasKept (h : Goes cache c c' cache') (hc : c.HasKept) : c'.HasKept := by
  obtain ⟨m, hs⟩ := hc
  cases h <;> simp_all [HasKept]

/-- The names kept after a step: those before it, and the call's **if it has kept its own**. -/
theorem Goes.mem_names (h : Goes cache c c' cache') (hc : c.HasKept → c.name ∈ cache.names)
    (name : String) :
    name ∈ cache'.names ↔ name ∈ cache.names ∨ (c'.name = name ∧ c'.HasKept) := by
  cases h with
  | returned =>
    refine ⟨Or.inl, ?_⟩
    rintro (hn | ⟨rfl, hk⟩)
    · exact hn
    · exact hc hk
  | late _ hf =>
    -- its name is kept already
    refine ⟨Or.inl, ?_⟩
    rintro (hn | ⟨rfl, -⟩)
    · exact hn
    · exact mem_names_of_find? hf
  | keep _ _ => simp [HasKept, eq_comm]
  | _ => simp [HasKept]

theorem Goes.nodup_names (h : Goes cache c c' cache') (hn : cache.names.Nodup) :
    cache'.names.Nodup := by
  cases h with
  | keep _ hf =>
    rw [names_concat]
    exact (List.nodup_concat _ _).2 ⟨not_mem_names_of_find? hf, hn⟩
  | _ => exact hn

end Call

/-! ### Any number of calls -/

theorem exists_mem_set {α : Type} {l : List α} {i : Nat} {a a' : α} {p : α → Prop}
    (h : l[i]? = some a) (hp : p a → p a') :
    (∃ b ∈ l.set i a', p b) ↔ (∃ b ∈ l, p b) ∨ p a' := by
  constructor
  · rintro ⟨b, hb, hpb⟩
    rcases List.mem_or_eq_of_mem_set hb with hold | rfl
    · exact .inl ⟨b, hold, hpb⟩
    · exact .inr hpb
  · have hset : a' ∈ l.set i a' := List.mem_set (List.getElem?_eq_some_iff.1 h).1 a'
    rintro (⟨b, hb, hpb⟩ | hpa')
    · obtain ⟨j, hj⟩ := List.mem_iff_getElem?.1 hb
      by_cases hji : i = j
      · subst hji
        obtain rfl := Option.some.inj (hj.symm.trans h)
        exact ⟨a', hset, hp hpb⟩
      · exact ⟨b, List.mem_of_getElem? (by rw [List.getElem?_set_ne hji, hj]), hpb⟩
    · exact ⟨a', hset, hpa'⟩

namespace Shared

/-- What holds of a shared cache **at every moment**. -/
structure Sound (s : Shared) : Prop where
  /-- Every call has read off and returned what its name stands for. -/
  calls : ∀ c ∈ s.calls, c.Faithful
  /-- Every entry is a name of its method. -/
  entries : ∀ e ∈ s.cache.entries, sameName e.2.token e.1 = true
  /-- The names kept are those of the calls that have kept theirs. -/
  names : ∀ name, name ∈ s.cache.names ↔ ∃ c ∈ s.calls, c.name = name ∧ c.HasKept
  /-- No name is kept twice. -/
  nodup : s.cache.names.Nodup

variable {s : Shared}

theorem sound_new : Sound {} where
  calls := by simp
  entries := by simp [empty]
  names := by simp [MethodCache.names, empty]
  nodup := by simp [MethodCache.names, empty]

theorem Sound.cache (h : s.Sound) : s.cache.Sound := by
  intro name m hm
  obtain ⟨before, after, hentries, -⟩ := List.lookup_eq_some_iff.1 hm
  exact Method.ofName?_eq_some_iff.2 (h.entries (name, m) (by simp [hentries]))

/-- What a move does: a call is added, a call takes a step, or nothing happens. -/
theorem move_cases (s : Shared) (m : Move) :
    (∃ name, m = .call name ∧ s.move m = ⟨s.cache, s.calls ++ [⟨name, .asked⟩]⟩) ∨
    (∃ i, m = .proceed i ∧ s.calls[i]? = none ∧ s.move m = s) ∨
    (∃ i c c' cache', m = .proceed i ∧ s.calls[i]? = some c ∧ c.Goes s.cache c' cache' ∧
      s.move m = ⟨cache', s.calls.set i c'⟩) := by
  cases m with
  | call name => exact .inl ⟨name, rfl, rfl⟩
  | proceed i =>
    cases hc : s.calls[i]? with
    | none => exact .inr (.inl ⟨i, rfl, hc, by simp [move, hc]⟩)
    | some c =>
      exact .inr (.inr ⟨i, c, _, _, rfl, hc, c.goes_proceed s.cache, by simp [move, hc]⟩)

theorem Sound.move (h : s.Sound) (m : Move) : (s.move m).Sound := by
  obtain ⟨name, -, hm⟩ | ⟨i, -, -, hm⟩ | ⟨i, c, c', cache', -, hc, hgoes, hm⟩ := s.move_cases m
  · rw [hm]
    have hnew : ¬ (Call.mk name .asked).HasKept := by simp [Call.HasKept]
    refine ⟨fun c hc => ?_, h.entries, fun other => ?_, h.nodup⟩
    · rcases List.mem_append.1 hc with hold | hc
      · exact h.calls c hold
      · obtain rfl := List.mem_singleton.1 hc
        exact Call.faithful_asked name
    · simp [h.names other, or_and_right, exists_or, hnew]
  · rwa [hm]
  · rw [hm]
    have hmem := List.mem_of_getElem? hc
    have hkept : c.HasKept → c.name ∈ s.cache.names :=
      fun hk => (h.names c.name).2 ⟨c, hmem, rfl, hk⟩
    refine ⟨fun d hd => ?_, fun e he => ?_, fun name => ?_, hgoes.nodup_names h.nodup⟩
    · rcases List.mem_or_eq_of_mem_set hd with hold | rfl
      · exact h.calls d hold
      · exact hgoes.faithful h.cache (h.calls c hmem)
    · exact (hgoes.mem_entries (h.calls c hmem) he).elim (h.entries e) id
    · -- the call has still kept what it had, so no name is lost with where it stood
      rw [hgoes.mem_names hkept, h.names name, exists_mem_set hc]
      rintro ⟨hname, hk⟩
      exact ⟨hgoes.name_eq.trans hname, hgoes.hasKept hk⟩

theorem sound_after (moves : List Move) : (after moves).Sound := by
  have general : ∀ (moves : List Move) (s : Shared), s.Sound → (s.run moves).Sound := by
    intro moves
    induction moves with
    | nil => exact fun _ h => h
    | cons m moves ih => exact fun s h => ih _ (h.move m)
  exact general moves {} sound_new

theorem after_append (moves more : List Move) : after (moves ++ more) = (after moves).run more :=
  List.foldl_append

theorem entries_prefix_run (s : Shared) (moves : List Move) :
    s.cache.entries <+: (s.run moves).cache.entries := by
  induction moves generalizing s with
  | nil => exact List.prefix_rfl
  | cons m moves ih =>
    refine List.IsPrefix.trans ?_ (ih (s.move m))
    obtain ⟨name, -, hm⟩ | ⟨i, -, -, hm⟩ | ⟨i, c, c', cache', -, hc, hgoes, hm⟩ := s.move_cases m
    · simp [hm]
    · simp [hm]
    · simpa only [hm] using hgoes.entries_prefix

/-- A call goes on **with each of its own moves**, and no other move holds it up. -/
theorem rank_run {i : ℕ} {c : Call} (h : s.calls[i]? = some c) (moves : List Move) :
    ∃ c', (s.run moves).calls[i]? = some c' ∧ c'.name = c.name ∧
      c'.rank ≤ c.rank - moves.count (.proceed i) := by
  induction moves generalizing s c with
  | nil => exact ⟨c, h, rfl, Nat.le_refl _⟩
  | cons m moves ih =>
    -- where the call stands after this move
    have step : ∃ d, (s.move m).calls[i]? = some d ∧ d.name = c.name ∧
        d.rank ≤ c.rank - [m].count (.proceed i) := by
      have hi := (List.getElem?_eq_some_iff.1 h).1
      obtain ⟨name, rfl, hm⟩ | ⟨j, rfl, hj, hm⟩ | ⟨j, c', d, cache', rfl, hc', hgoes, hm⟩ :=
        s.move_cases m
      · exact ⟨c, by rw [hm, List.getElem?_append_left hi, h], rfl, by simp⟩
      · have hji : j ≠ i := by
          rintro rfl
          simp [hj] at h
        exact ⟨c, by rw [hm, h], rfl, by simp [hji]⟩
      · by_cases hji : j = i
        · subst hji
          obtain rfl := Option.some.inj (hc'.symm.trans h)
          exact ⟨d, by simp [hm, hi], hgoes.name_eq, by simpa using hgoes.rank_le⟩
        · exact ⟨c, by simp [hm, hji, h], rfl, by simp [hji]⟩
    obtain ⟨d, hd, hname, hrank⟩ := step
    obtain ⟨c', hc', hname', hrank'⟩ := ih hd
    refine ⟨c', hc', hname'.trans hname, ?_⟩
    rw [List.count_cons]
    rw [List.count_singleton] at hrank
    omega

/-- A call that **nobody comes between** is `provide`. -/
theorem run_alone (s : Shared) (name : String) :
    ∃ kept, s.run [.call name, .proceed s.calls.length, .proceed s.calls.length]
      = ⟨(s.cache.provide name).2,
          s.calls ++ [⟨name, .answered (s.cache.provide name).1 kept⟩]⟩ := by
  unfold provide
  cases hf : s.cache.find? name with
  | some m => exact ⟨false, by simp [run, move, Call.proceed, hf]⟩
  | none =>
    cases ho : Method.ofName name with
    | error e => exact ⟨false, by simp [run, move, Call.proceed, hf, ho]⟩
    | ok m => exact ⟨true, by simp [run, move, Call.proceed, hf, ho]⟩

/-- What is kept is kept under names of methods, **of which there are 432**. -/
theorem Sound.size_le (h : s.Sound) : s.cache.size ≤ 432 := by
  have hsub : s.cache.names ⊆ Method.spellings := by
    intro name hname
    obtain ⟨e, he, rfl⟩ := List.mem_map.1 hname
    exact Method.mem_spellings (h.entries e he)
  calc s.cache.size = s.cache.names.length := (List.length_map _).symm
    _ ≤ Method.spellings.length := (h.nodup.subperm hsub).length_le
    _ = 432 := Method.length_spellings

/-- A cache that calls share, **as its callers see it** after these moves. -/
structure Unseen (moves : List Move) : Prop where
  /-- A call that has returned gave the answer of a lookup without a cache. -/
  answers : ∀ c ∈ (after moves).calls, ∀ answer kept, c.standing = .answered answer kept →
    answer = Method.ofName c.name
  /-- A call that moves twice has returned, whatever the others do meanwhile. -/
  returns : ∀ (i : Nat) (c : Call) (more : List Move), (after moves).calls[i]? = some c →
    2 ≤ more.count (.proceed i) → ∃ kept,
      (after (moves ++ more)).calls[i]? = some ⟨c.name, .answered (Method.ofName c.name) kept⟩
  /-- A call that nobody comes between is `provide`. -/
  alone : ∀ name, ∃ kept, (after moves).run
      [.call name, .proceed (after moves).calls.length, .proceed (after moves).calls.length]
    = ⟨((after moves).cache.provide name).2, (after moves).calls ++
        [⟨name, .answered ((after moves).cache.provide name).1 kept⟩]⟩
  /-- Every name is kept with the method whose token it is, in any case of its letters. -/
  entries : ∀ e ∈ (after moves).cache.entries, sameName e.2.token e.1 = true
  /-- Nothing that is kept is lost or changed later. -/
  lasting : ∀ more, (after moves).cache.entries <+: (after (moves ++ more)).cache.entries
  /-- Nor does anything kept later come before it. -/
  found : ∀ more name m, (after moves).cache.find? name = some m →
    (after (moves ++ more)).cache.find? name = some m
  /-- The names kept are those of the calls that found their method and have kept the name. -/
  names : ∀ name, name ∈ (after moves).cache.names ↔
    ∃ c ∈ (after moves).calls, c.name = name ∧ c.HasKept
  /-- No name is kept twice. -/
  nodup : (after moves).cache.names.Nodup
  /-- There is room for 432 names, whatever names are sent. -/
  bounded : (after moves).cache.size ≤ 432

/-- However the calls on a shared cache come between each other, the cache is **not seen in any
answer**, keeps what it keeps and is bounded. -/
theorem unseen_after (moves : List Move) : Unseen moves := by
  have hsound := sound_after moves
  have hlasting : ∀ more, (after moves).cache.entries <+: (after (moves ++ more)).cache.entries :=
    fun more => after_append moves more ▸ entries_prefix_run _ more
  refine ⟨fun c hc answer kept hs => (hsound.calls c hc).answered answer kept hs, ?_,
    run_alone _, hsound.entries, hlasting, ?_, hsound.names, hsound.nodup, hsound.size_le⟩
  · intro i c more hc hcount
    obtain ⟨⟨name, standing⟩, hc', rfl, hrank⟩ := rank_run hc more
    rw [← after_append] at hc'
    have hrank' : c.rank ≤ 2 := by
      unfold Call.rank
      cases c.standing <;> simp
    cases standing with
    | answered answer kept =>
      have hans := ((sound_after (moves ++ more)).calls _ (List.mem_of_getElem? hc')).answered
        answer kept rfl
      exact ⟨kept, by rw [hc', hans]⟩
    | asked =>
      simp only [Call.rank] at hrank hrank'
      omega
    | missed m =>
      simp only [Call.rank] at hrank hrank'
      omega
  · intro more name m hm
    obtain ⟨added, hadded⟩ := hlasting more
    have hfirst : (after moves).cache.entries.lookup name = some m := hm
    show (after (moves ++ more)).cache.entries.lookup name = some m
    rw [← hadded, List.lookup_append, hfirst]
    rfl

/-- Two calls that both miss a name keep it **once**. -/
example : (after [.call "get", .call "get", .proceed 0, .proceed 1, .proceed 0,
    .proceed 1]).cache.entries = [("get", .get)] := by decide

end Shared

end MethodCache

end HttpEngine
