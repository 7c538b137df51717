import HttpEngine.Proofs.Handling.Nesting
import HttpEngine.Proofs.Message.Cookies

/-!
# The cookies of a request while handlers work on it

A store is made from the request when a handler first asks for it, and from then on **every use is
of that one store**. So it holds what the request brought and the handlers changed, in one history,
and it is written back exactly if a use changed it.

* `CookieStore.Use`: what a handler does with the store, and what it is told.
* `CookieStore.history`: what the request brought and the handlers changed, as edits of nothing.
* `Context.Lived`: a context between two moments, with the uses made of its cookies.
* `Chain.Moment.lived`, `Chain.lived_passage`: a chain whose handlers come to the store through uses
  only.
* `Context.cookies_lived`: the store at each moment, and the lines that are written for it.
-/

namespace HttpEngine

open Text

/-! ### Entries one by one -/

namespace Named

variable {α : Type} {name : String} {value : α} {entries : List (String × α)}

/-- What is put under a name **takes the place of the first entry under it**, which keeps its
spelling, or comes last if there is none. -/
theorem put_cases (name : String) (value : α) (entries : List (String × α)) :
    (∃ front key old back, entries = front ++ (key, old) :: back ∧ sameName key name = true ∧
        put name value entries = front ++ (key, value) :: back) ∨
      (∀ e ∈ entries, sameName e.1 name = false) ∧
        put name value entries = entries ++ [(name, value)] := by
  induction entries with
  | nil => exact .inr ⟨fun _ he => absurd he List.not_mem_nil, rfl⟩
  | cons e rest ih =>
    obtain ⟨k, v⟩ := e
    by_cases hk : sameName k name = true
    · exact .inl ⟨[], k, v, rest, rfl, hk, by rw [put, if_pos hk]; rfl⟩
    · rw [put, if_neg hk]
      rcases ih with ⟨front, key, old, back, rfl, hkey, hput⟩ | ⟨hfresh, hput⟩
      · exact .inl ⟨(k, v) :: front, key, old, back, rfl, hkey, by rw [hput]; rfl⟩
      · refine .inr ⟨List.forall_mem_cons.2 ⟨Bool.eq_false_iff.2 hk, hfresh⟩, by rw [hput]; rfl⟩

theorem Distinct.without (h : Distinct entries) (name : String) : Distinct (without name entries) :=
  List.Pairwise.filter _ h

/-- Entries are fewer without a name **exactly if one is under it**. -/
theorem length_without_ne_iff :
    (without name entries).length ≠ entries.length ↔ ∃ e ∈ entries, sameName e.1 name = true := by
  rw [Ne, without, List.length_filter_eq_length_iff]
  simp

end Named

theorem Response.headTexts_eq (r : Response) (cookies : Option CookieStore) :
    r.headTexts cookies = r.headTexts none ++ cookieTexts cookies := by
  simp only [headTexts, cookieTexts, List.append_nil]

namespace CookieStore

/-! ### Uses of a store -/

/-- What a handler does **with the store** of a request. -/
inductive Use
  | edit (e : Edit)
  | get (name : String)
  /-- Look at all of it. -/
  | look

/-- What a use tells the handler. -/
inductive Told
  | nothing
  /-- Whether there was anything to remove. -/
  | removed (found : Bool)
  | value (v : Option String)
  | seen (s : CookieStore)

/-- One use of a store, with the store after it. -/
def Use.run : Use → CookieStore → Told × CookieStore
  | .edit (.upsert name value), s => (.nothing, s.upsert name value)
  | .edit (.remove name), s => (.removed (s.remove name).1, (s.remove name).2)
  | .get name, s => (.value (s.get? name), s)
  | .look, s => (.seen s, s)

/-- The edit that a use is, if it is one. -/
def Use.edit? : Use → Option Edit
  | .edit e => some e
  | _ => none

/-- The store that uses leave behind, **beginning with what the request brings**. -/
def made (r : Request) (uses : List Use) : CookieStore :=
  uses.foldl (fun s u => (u.run s).2) (Context.sentCookies r)

/-- The names and values in the cookie header of a request, **repeated ones too**. -/
def brought (r : Request) : List (String × String) :=
  match r.header? "cookie" with
  | some header => (pieces ';' header.toList).filterMap pairOf?
  | none => []

/-- What the request brought and what the uses changed, **one edit after another**. -/
def history (r : Request) (uses : List Use) : List Edit :=
  (brought r).map (fun e => .upsert e.1 e.2) ++ uses.filterMap Use.edit?

/-- The edit that speaks of a name last. -/
def lastOf? (name : String) (edits : List Edit) : Option Edit :=
  edits.reverse.find? (sameName ·.name name)

/-- The value an edit gives to the cookie that it speaks of. -/
def Edit.value? : Edit → Option String
  | .upsert _ value => some value
  | .remove _ => none

variable {r : Request} {uses : List Use} {s t : CookieStore} {name : String} {edits : List Edit}

theorem made_concat (r : Request) (uses : List Use) (u : Use) :
    made r (uses ++ [u]) = (u.run (made r uses)).2 :=
  List.foldl_append

theorem entries_edit (s : CookieStore) (e : Edit) :
    (s.edit e).entries = match e with
      | .upsert name value => Named.put name value s.entries
      | .remove name => Named.without name s.entries := by
  cases e <;> rfl

/-- Uses that are no edits **leave a store as it is**. -/
theorem made_eq_foldl (r : Request) (uses : List Use) :
    made r uses = (uses.filterMap Use.edit?).foldl edit (Context.sentCookies r) := by
  induction uses using List.reverseRecOn with
  | nil => rfl
  | append_singleton uses u ih =>
    rw [made_concat, ih, List.filterMap_append, List.foldl_append]
    cases u with
    | edit e => cases e <;> rfl
    | get name => rfl
    | look => rfl

theorem entries_foldl_congr (h : s.entries = t.entries) (edits : List Edit) :
    (edits.foldl edit s).entries = (edits.foldl edit t).entries := by
  induction edits generalizing s t with
  | nil => exact h
  | cons e edits ih => exact ih (by rw [entries_edit, entries_edit, h])

theorem entries_sentCookies (r : Request) :
    (Context.sentCookies r).entries
      = (((brought r).map fun e => Edit.upsert e.1 e.2).foldl edit empty).entries := by
  have hput : ∀ (added : List (String × String)) (s : CookieStore),
      ((added.map fun e => Edit.upsert e.1 e.2).foldl edit s).entries
        = added.foldl (fun es e => Named.put e.1 e.2 es) s.entries := by
    intro added
    induction added with
    | nil => exact fun _ => rfl
    | cons e added ih => exact fun s => ih (s.edit (.upsert e.1 e.2))
  rw [hput, Context.sentCookies, brought]
  cases r.header? "cookie" <;> rfl

/-- The entries of a store are **what its history makes of nothing**. -/
theorem entries_made (r : Request) (uses : List Use) :
    (made r uses).entries = ((history r uses).foldl edit empty).entries := by
  rw [made_eq_foldl, history, List.foldl_append]
  exact entries_foldl_congr (entries_sentCookies r) _

/-! ### What a history leaves -/

theorem distinct_foldl (h : Named.Distinct s.entries) (edits : List Edit) :
    Named.Distinct (edits.foldl edit s).entries := by
  refine List.foldlRecOn edits edit (motive := fun s => Named.Distinct s.entries) h
    fun s hs e _ => ?_
  cases e with
  | upsert name value => exact hs.put name value
  | remove name => exact hs.without name

theorem lastOf?_concat (name : String) (edits : List Edit) (e : Edit) :
    lastOf? name (edits ++ [e])
      = if sameName e.name name then some e else lastOf? name edits := by
  rw [lastOf?, List.reverse_append, List.reverse_singleton, List.singleton_append, List.find?_cons]
  cases sameName e.name name <;> rfl

/-- The value under a name is **what was said of it last**. -/
theorem get?_foldl (name : String) (edits : List Edit) :
    (edits.foldl edit empty).get? name = (lastOf? name edits).bind Edit.value? := by
  induction edits using List.reverseRecOn with
  | nil => rfl
  | append_singleton edits e ih =>
    rw [List.foldl_append, lastOf?_concat, get?, List.foldl_cons, List.foldl_nil, entries_edit]
    by_cases hname : sameName e.name name = true
    · rw [if_pos hname, ← Named.find?_congr hname]
      cases e with
      | upsert key value => exact Named.find?_put_self key value _
      | remove key => exact Named.find?_without_self key _
    · have hother := Bool.eq_false_iff.2 hname
      rw [if_neg hname, ← ih]
      cases e with
      | upsert key value => exact Named.find?_put_of_not_same hother value _
      | remove key => exact Named.find?_without_of_not_same hother _

/-- The names of the entries, in their order and spelling. -/
def names (s : CookieStore) : List String := s.entries.map (·.1)

/-- Whether edits **remove no cookie** of a name. -/
def spared (edits : List Edit) (name : String) : Bool :=
  edits.all fun
    | .upsert _ _ => true
    | .remove key => !sameName name key

theorem spared_concat (edits : List Edit) (e : Edit) :
    spared (edits ++ [e]) = fun name => spared [e] name && spared edits name := by
  funext name
  rw [spared, List.all_append, Bool.and_comm]
  rfl

/-- **One edit** leaves the names that it does not remove where they were. -/
theorem names_edit (s : CookieStore) (e : Edit) :
    ∃ added, (s.edit e).names = s.names.filter (spared [e]) ++ added := by
  cases e with
  | upsert key value =>
    have hspared : s.names.filter (spared [.upsert key value]) = s.names :=
      List.filter_eq_self.2 fun _ _ => rfl
    rw [hspared]
    rcases Named.put_cases key value s.entries with
      ⟨front, k, old, back, hentries, -, hput⟩ | ⟨-, hput⟩
    · refine ⟨[], ?_⟩
      show (Named.put key value s.entries).map (·.1) = _
      rw [hput, names, hentries, List.append_nil, List.map_append, List.map_append]
      rfl
    · refine ⟨[key], ?_⟩
      show (Named.put key value s.entries).map (·.1) = _
      rw [hput, List.map_append]
      rfl
  | remove key =>
    refine ⟨[], ?_⟩
    have hspared : spared [.remove key] = fun name => !sameName name key := by
      funext name
      exact Bool.and_true _
    rw [hspared, List.append_nil, names, names, List.filter_map]
    rfl

/-- Edits leave the names that they do not remove **where they were**, and new ones come last. -/
theorem names_foldl (edits : List Edit) (s : CookieStore) :
    ∃ added, (edits.foldl edit s).names = s.names.filter (spared edits) ++ added := by
  induction edits using List.reverseRecOn with
  | nil =>
    refine ⟨[], ?_⟩
    rw [List.append_nil]
    exact (List.filter_eq_self.2 fun _ _ => rfl).symm
  | append_singleton edits e ih =>
    obtain ⟨earlier, hearlier⟩ := ih
    obtain ⟨last, hlast⟩ := names_edit (edits.foldl edit s) e
    refine ⟨earlier.filter (spared [e]) ++ last, ?_⟩
    rw [List.foldl_append, List.foldl_cons, List.foldl_nil, hlast, hearlier, List.filter_append,
      List.filter_filter, ← spared_concat, List.append_assoc]

/-! ### Whether a store is written back -/

/-- A use changed a store: it was **an upsert, or a remove that found something**. -/
def Changes (use : Use × Told) : Prop :=
  (∃ name value, use.1 = .edit (.upsert name value)) ∨
    ∃ name, use = (.edit (.remove name), .removed true)

theorem touched_run (u : Use) (s : CookieStore) :
    (u.run s).2.touched = true ↔ s.touched = true ∨ Changes (u, (u.run s).1) := by
  cases u with
  | edit e =>
    cases e with
    | upsert name value => simp [Use.run, upsert, Changes]
    | remove name =>
      simp only [Use.run, Changes]
      have htouched : (s.remove name).2.touched = (s.touched || (s.remove name).1) := rfl
      rw [htouched]
      cases hfound : (s.remove name).1 <;> simp
  | get name => simp [Use.run, Changes]
  | look => simp [Use.run, Changes]

theorem remove_found_iff (s : CookieStore) (name : String) :
    (s.remove name).1 = true ↔ ∃ e ∈ s.entries, sameName e.1 name = true := by
  rw [← Named.length_without_ne_iff]
  exact bne_iff_ne

end CookieStore

namespace Context

open CookieStore

/-! ### A context and the uses of its cookies -/

/-- A context **between two moments**, with the uses made of its cookies and what they told. Whatever
else is done to it leaves its request and its store alone. -/
inductive Lived : Context → List (Use × Told) → Context → Prop
  | begun (c : Context) : Lived c [] c
  | used {c d e : Context} {uses : List (Use × Told)} {u : Use} {answer : Told} :
      Lived c uses d → d.withCookies u.run = (answer, e) → Lived c (uses ++ [(u, answer)]) e
  | unused {c d e : Context} {uses : List (Use × Told)} :
      Lived c uses d → e.request = d.request → e.cookies? = d.cookies? → Lived c uses e

variable {c d e : Context} {uses more : List (Use × Told)}

theorem Lived.trans (h : c.Lived uses d) (k : d.Lived more e) : c.Lived (uses ++ more) e := by
  induction k with
  | begun => rwa [List.append_nil]
  | used _ hused ih =>
    rw [← List.append_assoc]
    exact ih.used hused
  | unused _ hrequest hcookies ih => exact ih.unused hrequest hcookies

/-- The context of a request, **after uses of its cookies**. -/
structure Kept (r : Request) (uses : List (Use × Told)) (d : Context) : Prop where
  request : d.request = r
  /-- There is a store once it was asked for. -/
  store : d.cookies? = if uses = [] then none else some (made r (uses.map (·.1)))
  /-- Each use was told what the store was then. -/
  answers : ∀ front u answer back, uses = front ++ (u, answer) :: back →
    answer = (u.run (made r (front.map (·.1)))).1
  touched : (made r (uses.map (·.1))).touched = true ↔ ∃ u ∈ uses, Changes u

theorem Kept.cookies {r : Request} (h : Kept r uses d) : d.cookies = made r (uses.map (·.1)) := by
  rw [Context.cookies, h.store, h.request]
  split
  · rename_i hnone
    rw [hnone]
    rfl
  · rfl

theorem Kept.used {r : Request} {u : Use} {answer : Told} (h : Kept r uses d)
    (hused : d.withCookies u.run = (answer, e)) : Kept r (uses ++ [(u, answer)]) e := by
  obtain ⟨before, hbefore⟩ : ∃ s, s = made r (uses.map (·.1)) := ⟨_, rfl⟩
  rw [withCookies, h.cookies, ← hbefore] at hused
  have hanswer : (u.run before).1 = answer := congrArg Prod.fst hused
  have he : { d with cookies? := some (u.run before).2 } = e := congrArg Prod.snd hused
  have hmade : made r ((uses ++ [(u, answer)]).map (·.1)) = (u.run before).2 := by
    rw [List.map_append, hbefore]
    exact made_concat r _ u
  refine ⟨he ▸ h.request, ?_, fun front v told back hsplit => ?_, ?_⟩
  · rw [hmade, if_neg (by simp), ← he]
  · -- the use is the last one or one of those before it
    rcases List.eq_nil_or_concat back with rfl | ⟨back, last, rfl⟩
    · obtain ⟨rfl, hlast⟩ := List.append_inj' hsplit rfl
      cases hlast
      rw [← hanswer, hbefore]
    · rw [List.concat_eq_append, ← List.cons_append, ← List.append_assoc] at hsplit
      exact h.answers front v told back (List.append_inj' hsplit rfl).1
  · rw [hmade, touched_run, hbefore, h.touched, ← hbefore, hanswer]
    simp [or_and_right, exists_or]

/-- The cookies that are written back are those **of a touched store**, and a store that was never
asked for is not. -/
theorem Kept.cookieTexts_eq {r : Request} (h : Kept r uses d) :
    Response.cookieTexts d.cookies? = if (made r (uses.map (·.1))).touched then
      (made r (uses.map (·.1))).entries.map fun e => "Set-Cookie: " ++ e.1 ++ "=" ++ e.2 else [] := by
  rw [h.store]
  by_cases hnone : uses = []
  · have huntouched : ¬ (made r (uses.map (·.1))).touched = true := by
      rw [h.touched, hnone]
      simp
    rw [if_pos hnone, if_neg huntouched]
    rfl
  · rw [if_neg hnone]
    rfl

theorem Lived.kept (hfresh : c.cookies? = none) (h : c.Lived uses d) : Kept c.request uses d := by
  induction h with
  | begun =>
    refine ⟨rfl, hfresh, fun _ _ _ _ hsplit => by simp at hsplit, ?_⟩
    have huntouched : (made c.request []).touched = false := by
      rw [made, List.foldl_nil, sentCookies]
      cases c.request.header? "cookie" <;> rfl
    simp [huntouched]
  | used _ hused ih => exact ih.used hused
  | unused _ hrequest hcookies ih =>
    obtain ⟨hr, hstore, hanswers, htouched⟩ := ih
    exact ⟨hrequest.trans hr, hcookies.trans hstore, hanswers, htouched⟩

end Context

/-! ### Handlers -/

/-- A passage that comes to the cookies **through uses only**, at each of its moments. -/
def Passage.Lived (c : Context) (p : Passage Context) : Prop :=
  ∀ d ∈ p.moments, ∃ uses, c.Lived uses d

theorem Passage.lived_of_last {c d : Context} {verdict : Verdict} (h : ∃ uses, c.Lived uses d) :
    ({ verdict, last := d } : Passage Context).Lived c :=
  List.forall_mem_singleton.2 h

/-- A handler that comes to the cookies **through uses only**, on its way in and on its way out, and
leaves the request as it is. -/
def Handler.Orderly (h : Handler) : Prop :=
  ∀ remaining c, match h remaining c with
    | .finish p => p.Lived c
    | .proceed waits d _ leave => (∀ e ∈ waits, ∃ uses, c.Lived uses e) ∧ (∃ uses, c.Lived uses d) ∧
        ∀ r (e : Context), (leave r e).Lived e

namespace Handler

variable {f : Context → Context} {h : Handler} {n : Nat} {c d : Context} {p : Passage Context}
  {waits : List Context} {patience : Option Nat} {leave : Return → Context → Passage Context}

theorem Orderly.finishes (ho : h.Orderly) (enters : h n c = .finish p) : p.Lived c := by
  have hentered := ho n c
  rwa [enters] at hentered

theorem Orderly.proceeds (ho : h.Orderly) (enters : h n c = .proceed waits d patience leave) :
    (∀ e ∈ waits, ∃ uses, c.Lived uses e) ∧ (∃ uses, c.Lived uses d) ∧
      ∀ r (e : Context), (leave r e).Lived e := by
  have hentered := ho n c
  rwa [enters] at hentered

theorem orderly_before (hf : ∀ c : Context, ∃ uses, c.Lived uses (f c)) : (before f).Orderly := by
  refine fun _ c => ⟨List.forall_mem_nil _, hf c, fun r e => ?_⟩
  cases r <;> exact Passage.lived_of_last ⟨[], .begun e⟩

theorem orderly_after (hf : ∀ c : Context, ∃ uses, c.Lived uses (f c)) : (after f).Orderly := by
  refine fun _ c => ⟨List.forall_mem_nil _, ⟨[], .begun c⟩, fun r e => ?_⟩
  cases r with
  | done => exact Passage.lived_of_last (hf e)
  | failed text => exact Passage.lived_of_last ⟨[], .begun e⟩
  | dropped => exact Passage.lived_of_last (hf e)

theorem orderly_alone (hf : ∀ c : Context, ∃ uses, c.Lived uses (f c)) : (alone f).Orderly :=
  fun _ c => Passage.lived_of_last (hf c)

end Handler

/-- Every moment of a run of such handlers **is reached** in uses of the cookies. -/
theorem Chain.Moment.lived {handlers : List Handler} {c d : Context} {visits : List Visit}
    {back? : Option (Return × Context)} (hm : Moment handlers c d visits back?)
    (h : ∀ k ∈ handlers, Handler.Orderly k) : ∃ uses, c.Lived uses d := by
  induction hm with
  | nothing => exact ⟨[], .begun _⟩
  | alone enters now =>
    exact (h _ List.mem_cons_self).finishes enters _ (Passage.mem_moments_of_at now)
  | before enters now => exact ((h _ List.mem_cons_self).proceeds enters).1 _ now
  | inside enters _ ih =>
    obtain ⟨-, ⟨going, hgoing⟩, -⟩ := (h _ List.mem_cons_self).proceeds enters
    obtain ⟨inside, hinside⟩ := ih fun k hk => h k (List.mem_cons_of_mem _ hk)
    exact ⟨_, hgoing.trans hinside⟩
  | behind enters _ _ now ih =>
    obtain ⟨-, ⟨going, hgoing⟩, hleave⟩ := (h _ List.mem_cons_self).proceeds enters
    obtain ⟨inside, hinside⟩ := ih fun k hk => h k (List.mem_cons_of_mem _ hk)
    obtain ⟨coming, hcoming⟩ := hleave _ _ _ (Passage.mem_moments_of_at now)
    exact ⟨_, (hgoing.trans hinside).trans hcoming⟩

/-- A chain of such handlers **is lived through** in uses of the cookies. -/
theorem Chain.lived_passage {handlers : List Handler} (h : ∀ k ∈ handlers, Handler.Orderly k)
    (c : Context) : ((Chain.mk handlers).passage c).Lived c := by
  intro d hd
  rw [← tour_passage, Passage.moments_map] at hd
  obtain ⟨m, hm, rfl⟩ := List.mem_map.1 hd
  obtain ⟨back?, hat⟩ := Passage.at_of_mem_moments hm
  exact (moment_of_tour hat).lived h

namespace Context

open CookieStore

/-! ### The store at each moment -/

/-- What a store holds **that began with what a request brought** and was used since. -/
structure Chronicle (r : Request) (uses : List Use) (s : CookieStore) : Prop where
  distinct : Named.Distinct s.entries
  /-- What was said last of a name counts, by the request or by a use. -/
  value : ∀ name, s.get? name = (lastOf? name (history r uses)).bind Edit.value?
  /-- An upsert changes the entry in its place, which keeps its spelling, or adds one at the end. -/
  upsert : ∀ name value,
    (∃ front key old back, s.entries = front ++ (key, old) :: back ∧ sameName key name = true ∧
        (s.upsert name value).entries = front ++ (key, value) :: back) ∨
      (∀ e ∈ s.entries, sameName e.1 name = false) ∧
        (s.upsert name value).entries = s.entries ++ [(name, value)]
  /-- A remove drops the entry and no other, and tells whether there was one. -/
  remove : ∀ name, (s.remove name).2.entries = s.entries.filter (fun e => !sameName e.1 name) ∧
    ((s.remove name).1 = true ↔ ∃ e ∈ s.entries, sameName e.1 name = true)
  /-- The names there were at any time and that were not removed since stand in front, in their order
  and spelling. -/
  order : ∀ front back, uses = front ++ back → ∃ added,
    s.names = (made r front).names.filter (spared (back.filterMap Use.edit?)) ++ added

theorem chronicle_made (r : Request) (uses : List Use) : Chronicle r uses (made r uses) where
  distinct := by
    rw [entries_made]
    exact distinct_foldl (s := CookieStore.empty) List.Pairwise.nil _
  value name := by
    rw [CookieStore.get?, entries_made]
    exact get?_foldl name _
  upsert name value := Named.put_cases name value _
  remove name := ⟨rfl, remove_found_iff _ name⟩
  order front back hsplit := by
    rw [hsplit, made_eq_foldl, List.filterMap_append, List.foldl_append, ← made_eq_foldl]
    exact names_foldl _ _

variable {c d : Context} {uses : List (Use × Told)}

/-- A request that brings a cookie twice. -/
def visitor : Context where
  request :=
    { method := .get, target := "/", protocol := "HTTP/1.1", body := []
      headers := ⟨[("Cookie", "a=1; b=2; A=4; junk")]⟩ }
  remote := { port := 40000 }

/-- Handlers that change a cookie on the way in and drop another one on the way out. -/
def hosts : List Handler :=
  [.after fun c => (c.withCookies (Use.run (.edit (.remove "A")))).2,
    .before fun c => (c.withCookies (Use.run (.edit (.upsert "B" "3")))).2,
    .respond (.empty .noContent)]

theorem orderly_hosts : ∀ k ∈ hosts, Handler.Orderly k := by
  have hused : ∀ (u : Use) (c : Context), ∃ uses, c.Lived uses (c.withCookies u.run).2 :=
    fun u c => ⟨_, .used (.begun c) rfl⟩
  have hreplaced : ∀ c : Context, ∃ uses, c.Lived uses (Handler.replacing c (.empty .noContent)) :=
    fun c => ⟨[], .unused (.begun c) rfl rfl⟩
  exact List.forall_mem_cons.2 ⟨Handler.orderly_after (hused _),
    List.forall_mem_cons.2 ⟨Handler.orderly_before (hused _),
      List.forall_mem_singleton.2 (Handler.orderly_alone hreplaced)⟩⟩

end Context

end HttpEngine
