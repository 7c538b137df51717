import HttpEngine.Proofs.Message.UriData

/-!
# A key looked up in several sets

Of several sets **the first that has the key answers**, and within the text of one set the last pair
with the key does. Where the texts are joined with the first one last, both come to one rule: the last
pair with the key answers, with a value or without one.

* `Params.pairsIn_joined`: the pairs of texts that are joined.
* `Params.firstOf_parsed`: several sets, and **the one of the joined texts**.
* `ParamsChain.answers_joined`: what a chain of sets answers, and what a request does.
-/

namespace HttpEngine

open Text

namespace Params

variable {key : String}

/-! ### Texts that are joined -/

/-- Texts with `&` between them, **the first one last**. -/
def joined (texts : List String) : String := "&".intercalate texts.reverse

/-- A piece that is joined to others **is still a piece**, and no empty one counts. -/
theorem pairsIn_joined (texts : List String) :
    pairsIn (joined texts) = texts.reverse.flatMap pairsIn := by
  by_cases hne : texts = []
  · subst hne
    rfl
  · have hsome : texts.reverse.map String.toList ≠ [] := by
      intro hnil
      exact hne (List.reverse_eq_nil_iff.1 (List.map_eq_nil_iff.1 hnil))
    have hpieces : pieces '&' (joined texts).toList
        = (texts.reverse.map String.toList).flatMap (pieces '&') := by
      rw [joined, String.toList_intercalate]
      exact pieces_intercalate_pieces '&' hsome
    unfold pairsIn
    rw [hpieces, List.flatMap_map, List.filter_flatMap, List.map_flatMap]

/-- Several sets answer **as the one set of their texts joined** does. -/
theorem firstOf_parsed (texts : List String) (key : String) :
    firstOf (texts.map parse) key = (parse (joined texts)).lookup key := by
  rw [lookup_parse, pairsIn_joined]
  induction texts with
  | nil => rfl
  | cons text texts ih =>
    have hfirst : firstOf ((text :: texts).map parse) key
        = ((parse text).lookup key).or (firstOf (texts.map parse) key) := by
      rw [firstOf, List.map_cons, List.findSome?_cons]
      cases (parse text).lookup key <;> rfl
    rw [hfirst, ih, lookup_parse, List.reverse_cons, List.flatMap_append, lastOf?_append,
      List.flatMap_singleton]

/-- A set **decides** where no set before it has the key. -/
theorem firstOf_append {earlier : List Params} {p : Params} {value : Option String}
    (hearlier : ∀ q ∈ earlier, q.lookup key = none) (hp : p.lookup key = some value)
    (later : List Params) : firstOf (earlier ++ p :: later) key = some value := by
  induction earlier with
  | nil => rw [firstOf, List.nil_append, List.findSome?_cons, hp]
  | cons q earlier ih =>
    obtain ⟨hq, hrest⟩ := List.forall_mem_cons.1 hearlier
    rw [firstOf, List.cons_append, List.findSome?_cons, hq]
    exact ih hrest

end Params

namespace Request

/-- The text behind the first `?` of the target, **none without one**. -/
def queryText (r : Request) : String :=
  match cut '?' r.target.toList with
  | some (_, query) => String.ofList query
  | none => ""

theorem query_eq_parse (r : Request) : r.query = Params.parse r.queryText := by
  unfold query queryText
  cases cut '?' r.target.toList <;> rfl

end Request

namespace ParamsChain

theorem contains_eq_isSome (c : ParamsChain) (key : String) :
    c.contains key = (Params.firstOf c.sources key).isSome := by
  unfold contains Params.firstOf
  rw [List.isSome_findSome?]
  rfl

/-- A chain of the sets of some texts answers **as the set of the texts joined**, the first one last. -/
theorem answers_parsed (texts : List String) (key : String) :
    (mk (texts.map Params.parse)).get? key = (Params.parse (Params.joined texts)).get? key ∧
      (mk (texts.map Params.parse)).contains key
        = (Params.parse (Params.joined texts)).contains key := by
  rw [contains_eq_isSome, get?, Params.firstOf_parsed]
  exact ⟨rfl, rfl⟩

/-- **A key in several texts.** A chain of the sets of some texts answers whether it has a key and what
its value is as the one set does that is read from the texts joined by `&`, the first one last. The
first text that has the key decides, also where it has it without a value, and within a text the last
pair with the key. So the parameter of a request is the one read from its form, `&` and its query. -/
theorem answers_joined (texts : List String) (key : String) :
    ((mk (texts.map Params.parse)).get? key
        = (Params.parse ("&".intercalate texts.reverse)).get? key ∧
      (mk (texts.map Params.parse)).contains key
        = (Params.parse ("&".intercalate texts.reverse)).contains key) ∧
    (∀ earlier text later, texts = earlier ++ text :: later →
      (∀ t ∈ earlier, (Params.parse t).contains key = false) →
      ∀ value, (Params.parse text).lookup key = some value →
        (mk (texts.map Params.parse)).get? key = value ∧
          (mk (texts.map Params.parse)).contains key = true) ∧
    (∀ text, (Params.parse text).lookup key
      = ((Params.pairsIn text).reverse.find? (sameName ·.1 key)).map (·.2)) ∧
    ∀ r : Request,
      r.params.get? key = (Params.parse (Utf8.lossy r.body ++ "&" ++ r.queryText)).get? key ∧
        r.params.contains key
          = (Params.parse (Utf8.lossy r.body ++ "&" ++ r.queryText)).contains key := by
  refine ⟨answers_parsed texts key, ?_, fun text => Params.lookup_parse text key, ?_⟩
  · intro earlier text later htexts hearlier value hvalue
    have hnone : ∀ q ∈ earlier.map Params.parse, q.lookup key = none := by
      intro q hq
      obtain ⟨t, ht, rfl⟩ := List.mem_map.1 hq
      exact Option.isNone_iff_eq_none.1 (Option.isSome_eq_false_iff.1 (hearlier t ht))
    have hfirst : Params.firstOf (texts.map Params.parse) key = some value := by
      rw [htexts, List.map_append, List.map_cons]
      exact Params.firstOf_append hnone hvalue _
    rw [contains_eq_isSome, get?, hfirst]
    exact ⟨rfl, rfl⟩
  · intro r
    have hsets : r.params = mk ([r.queryText, Utf8.lossy r.body].map Params.parse) := by
      rw [Request.params, Request.query_eq_parse]
      rfl
    have htext : Params.joined [r.queryText, Utf8.lossy r.body]
        = Utf8.lossy r.body ++ "&" ++ r.queryText := rfl
    rw [hsets, ← htext]
    exact answers_parsed _ key

/-- A request whose query has a key without a value that its form has one for. -/
def twofold : Request :=
  { method := .post, target := "/p?flag&x=1&X=%41", protocol := "HTTP/1.1", headers := {}
    body := ascii "FLAG=on&x=2&&y=" }

/-- The key has **no value**, although it stands with one behind. -/
theorem answers_joined_twofold :
    let texts := ["z=0", twofold.queryText, Utf8.lossy twofold.body]
    (∀ t ∈ ["z=0"], (Params.parse t).contains "Flag" = false) ∧
    (Params.parse twofold.queryText).lookup "Flag" = some none ∧
    ((mk (texts.map Params.parse)).get? "Flag" = none ∧
      (mk (texts.map Params.parse)).contains "Flag" = true) ∧
    twofold.params.get? "x" = some "A" := by
  intro texts
  obtain ⟨-, hdecides, -, -⟩ := answers_joined texts "Flag"
  obtain ⟨-, -, -, hparam⟩ := answers_joined texts "x"
  have habsent : ∀ t ∈ ["z=0"], (Params.parse t).contains "Flag" = false := by decide +kernel
  have hvalueless : (Params.parse twofold.queryText).lookup "Flag" = some none := by decide +kernel
  refine ⟨habsent, hvalueless, hdecides ["z=0"] _ _ rfl habsent none hvalueless, ?_⟩
  rw [(hparam twofold).1]
  decide +kernel

end ParamsChain

end HttpEngine
