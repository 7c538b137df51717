/-!
# Cutting a list at a separator

* `cut`, `cutLast`: before and after the first, or the last, separator.
* `cutAt`: before and after the first occurrence of a pattern.
* `pieces`: everything between separators, empty pieces included.
-/

namespace HttpEngine.Text

variable {α : Type} [BEq α]

/-- What stands **before and after the first** `sep`, or nothing when there is none. -/
def cut (sep : α) : List α → Option (List α × List α)
  | [] => none
  | x :: rest => if x == sep then some ([], rest) else (cut sep rest).map fun (a, b) => (x :: a, b)

/-- What stands **before and after the last** `sep`, or nothing when there is none. -/
def cutLast (sep : α) : List α → Option (List α × List α)
  | [] => none
  | x :: rest =>
    match cutLast sep rest with
    | some (a, b) => some (x :: a, b)
    | none => if x == sep then some ([], rest) else none

/-- What stands before and after the first occurrence of `pattern`. -/
def cutAt (pattern : List α) : List α → Option (List α × List α)
  | [] => if pattern.isEmpty then some ([], []) else none
  | x :: rest =>
    if pattern.isPrefixOf (x :: rest) then some ([], (x :: rest).drop pattern.length)
    else (cutAt pattern rest).map fun (a, b) => (x :: a, b)

/-- The runs **between separators**: one more than there are separators. -/
def pieces (sep : α) : List α → List (List α)
  | [] => [[]]
  | x :: rest =>
    if x == sep then [] :: pieces sep rest
    else
      match pieces sep rest with
      | [] => [[x]]
      | p :: ps => (x :: p) :: ps

end HttpEngine.Text
