import HttpEngine.Message.Named
import HttpEngine.Text.Cut
import HttpEngine.Text.Form
import HttpEngine.Text.Utf8

/-!
# Decoded parameter sets

The pairs of a query string or a form body. Keys differ pairwise ignoring ASCII case; a key
without `=` has no value, which is not the same as an empty one.

* `parse`: the set a text `k=v&k2=v2` stands for, the last value of a key winning.
* `uriData`: the set written back, valueless keys with an empty value.
* `firstOf`: one lookup through several sets.
-/

namespace HttpEngine

open Text

/-- An ordered set of parameters. -/
structure Params where
  entries : List (String × Option String) := []
  deriving DecidableEq, Repr

namespace Params

/-- No parameters. -/
def empty : Params := {}

/-- The number of keys. -/
def size (p : Params) : Nat := p.entries.length

/-- Nothing for a missing key, `some none` for a **valueless** one. -/
def lookup (p : Params) (key : String) : Option (Option String) := Named.find? key p.entries

/-- The value of a key that has one. -/
def get? (p : Params) (key : String) : Option String := (p.lookup key).join

/-- Whether the key is there, with or without a value. -/
def contains (p : Params) (key : String) : Bool := (p.lookup key).isSome

/-- Give a key a value, or none. -/
def set (p : Params) (key : String) (value : Option String) : Params :=
  ⟨Named.put key value p.entries⟩

/-- The text a form component stands for. -/
def decode (component : Bytes) : String := Utf8.lossy (formDecode component)

/-- The key and value written in one piece between `&`. -/
def pairOf (piece : List Char) : String × Option String :=
  match cut 61 (utf8 (String.ofList piece)) with
  | some (key, value) => (decode key, some (decode value))
  | none => (decode (utf8 (String.ofList piece)), none)

/-- The parameters **written in a text**, empty pieces skipped, later keys replacing earlier. -/
def parse (text : String) : Params :=
  ((pieces '&' text.toList).filter (!·.isEmpty)).foldl
    (fun p piece => p.set (pairOf piece).1 (pairOf piece).2) empty

/-- One pair as it is written. -/
def pairData (e : String × Option String) : String :=
  formEncode e.1 ++ "=" ++ formEncode (e.2.getD "")

/-- The parameters **as text**, pairs joined by `&`. -/
def uriData (p : Params) : String := "&".intercalate (p.entries.map pairData)

/-- A key looked up **in several sets in turn**: the first that has it answers. -/
def firstOf (sources : List Params) (key : String) : Option (Option String) :=
  sources.findSome? (·.lookup key)

end Params

/-- Several parameter sets asked in turn. -/
structure ParamsChain where
  sources : List Params

namespace ParamsChain

/-- The value of a key in the first set that has the key. -/
def get? (c : ParamsChain) (key : String) : Option String := (Params.firstOf c.sources key).join

/-- Whether some set has the key. -/
def contains (c : ParamsChain) (key : String) : Bool := c.sources.any (·.contains key)

end ParamsChain

end HttpEngine
