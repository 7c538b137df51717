import HttpEngine.Message.Named
import HttpEngine.Text.Blank
import HttpEngine.Text.Integer

/-!
# Header lists

Headers keep their order and spelling; a name may repeat. Names are compared ignoring ASCII
case.

* `append` adds an entry, `insert` leaves exactly one under the name, `remove` none.
* `keepAlive`: only an explicit `Connection: Keep-Alive` counts.
-/

namespace HttpEngine

open Text

/-- An ordered list of headers. -/
structure Headers where
  entries : List (String × String) := []
  deriving DecidableEq, Repr

namespace Headers

/-- No headers. -/
def empty : Headers := {}

/-- The first value under a name. -/
def get? (h : Headers) (name : String) : Option String := Named.find? name h.entries

/-- Whether any entry is under a name. -/
def contains (h : Headers) (name : String) : Bool := (h.get? name).isSome

/-- The number of entries. -/
def size (h : Headers) : Nat := h.entries.length

/-- Add an entry **at the end**, whatever is there already. -/
def append (h : Headers) (name value : String) : Headers := ⟨h.entries ++ [(name, value)]⟩

/-- The entries once `name` stands for one value alone. -/
def insertEntry (name value : String) : List (String × String) → List (String × String)
  | [] => [(name, value)]
  | (k, v) :: rest =>
    if sameName k name then (k, value) :: Named.without name rest
    else (k, v) :: insertEntry name value rest

/-- Give the name **one value**: the first entry under it keeps its place and spelling, the
later ones go; without one, an entry is added at the end. -/
def insert (h : Headers) (name value : String) : Headers := ⟨insertEntry name value h.entries⟩

/-- Drop every entry under a name. -/
def erase (h : Headers) (name : String) : Headers := ⟨Named.without name h.entries⟩

/-- Drop every entry under a name and **count** them. -/
def remove (h : Headers) (name : String) : Nat × Headers :=
  (h.size - (h.erase name).size, h.erase name)

/-- The value under a name, without the blanks around it. -/
def trimmed? (h : Headers) (name : String) : Option String := (h.get? name).map trim

/-- The value under a name as a natural number at most `max`. -/
def natUpTo? (h : Headers) (name : String) (max : Nat) : Option Nat :=
  (h.trimmed? name).bind (Text.natUpTo? max)

/-- Whether the connection is asked to stay open, **in so many words**. -/
def keepAlive (h : Headers) : Bool :=
  match h.trimmed? "connection" with
  | some value => sameName value "keep-alive"
  | none => false

/-- A list of headers with nothing collapsed. -/
def ofList (entries : List (String × String)) : Headers :=
  entries.foldl (fun h e => h.append e.1 e.2) empty

end Headers

end HttpEngine
