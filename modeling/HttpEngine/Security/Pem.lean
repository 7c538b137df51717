import HttpEngine.Security.Base64

/-!
# Sections of armoured text

Binary objects written as text between two marker lines that name their kind. Everything
outside the markers is skipped, and so are sections of unknown kinds.

* `Pem.next?`: the next section of a known kind.
* `Pem.sections`: all of them, **none when one is malformed**.
-/

namespace HttpEngine.Pem

open Text

/-- The kinds of objects known. -/
inductive Kind
  | certificate
  | publicKey
  | rsaPrivateKey
  | privateKey
  | ecPrivateKey
  | revocationList
  | signingRequest
  | helloConfiguration
  deriving DecidableEq, Repr

namespace Kind

/-- The name of a kind on the marker lines. -/
def label : Kind → String
  | certificate => "CERTIFICATE"
  | publicKey => "PUBLIC KEY"
  | rsaPrivateKey => "RSA PRIVATE KEY"
  | privateKey => "PRIVATE KEY"
  | ecPrivateKey => "EC PRIVATE KEY"
  | revocationList => "X509 CRL"
  | signingRequest => "CERTIFICATE REQUEST"
  | helloConfiguration => "ECHCONFIG"

/-- Every kind. -/
def all : List Kind :=
  [certificate, publicKey, rsaPrivateKey, privateKey, ecPrivateKey, revocationList,
    signingRequest, helloConfiguration]

/-- The kind with a label. -/
def ofLabel? (label : Bytes) : Option Kind := all.find? fun k => ascii k.label == label

/-- Whether an object of this kind is a private key. -/
def isPrivateKey (k : Kind) : Bool := k == rsaPrivateKey || k == privateKey || k == ecPrivateKey

end Kind

/-- Lines of a text, each with the character that ends it; **either of the two line-ending
characters** ends a line. -/
def lines : Bytes → List Bytes
  | [] => []
  | c :: rest =>
    if c = 10 ∨ c = 13 then [c] :: lines rest
    else
      match lines rest with
      | [] => [[c]]
      | l :: ls => (c :: l) :: ls

/-- How a section begins. -/
def opening : Bytes := ascii "-----BEGIN "

/-- The marker that ends a section with a label. -/
def closing (label : Bytes) : Bytes := ascii "-----END " ++ label ++ ascii "-----"

/-- The label on a line that begins a section: what stands before the **five dashes** at its
end, blanks among them aside. -/
def label? (line : Bytes) : Option Bytes :=
  let tail := line.reverse.takeWhile fun c => c = 45 ∨ c = 10 ∨ c = 13 ∨ c = 32
  if tail.count 45 = 5 then
    let blanksBefore := (tail.reverse.takeWhile (· ≠ 45)).length
    some ((line.drop opening.length).take
      (line.length - tail.length + blanksBefore - opening.length))
  else none

/-- What can be wrong with armoured text. -/
inductive Flaw
  /-- A section that is never ended. -/
  | unended
  /-- A line that begins a section but does not end as such lines do. -/
  | badOpening
  /-- Contents that are no base64. -/
  | badContents
  deriving DecidableEq, Repr

/-- An object. -/
structure Section where
  kind : Kind
  contents : Bytes
  deriving DecidableEq, Repr

/-- The next section **of a known kind**, and the lines after it. `label?` is the label of the
section read so far and `text` what stands in it. -/
def next? (current : Option Bytes) (text : Bytes) :
    List Bytes → Except Flaw (Option (Section × List Bytes))
  | [] => if current.isSome then .error .unended else .ok none
  | line :: rest =>
    if opening.isPrefixOf line then
      match label? line with
      | none => .error .badOpening
      | some label => next? (some label) text rest
    else
      match current with
      | none => next? none text rest
      | some label =>
        if (closing label).isPrefixOf line then
          match Kind.ofLabel? label with
          | none => next? none [] rest
          | some kind =>
            match Base64.decode? text with
            | none => .error .badContents
            | some contents => .ok (some (⟨kind, contents⟩, rest))
        else next? current (text ++ line) rest

/-- Reading a section leaves fewer lines. -/
theorem length_next? {current : Option Bytes} {text : Bytes} {ls rest : List Bytes}
    {s : Section} (h : next? current text ls = .ok (some (s, rest))) :
    rest.length < ls.length := by
  induction ls generalizing current text with
  | nil => cases current <;> simp [next?] at h
  | cons line ls ih =>
    have step : ∀ {current text}, next? current text ls = .ok (some (s, rest)) →
        rest.length < (line :: ls).length := fun h =>
      Nat.lt_succ_of_lt (ih h)
    unfold next? at h
    split at h
    · split at h
      · cases h
      · exact step h
    · split at h
      · exact step h
      · split at h
        · split at h
          · exact step h
          · split at h
            · cases h
            · cases h
              simp
        · exact step h

/-- The sections of a list of lines up to the first that `wanted` accepts, or all of them. -/
def sectionsFrom (wanted : Section → Bool) (ls : List Bytes) : Except Flaw (List Section) :=
  match _h : next? none [] ls with
  | .error flaw => .error flaw
  | .ok none => .ok []
  | .ok (some (s, rest)) =>
    if wanted s then .ok [s] else (sectionsFrom wanted rest).map (s :: ·)
termination_by ls.length
decreasing_by exact length_next? ‹_›

/-- **Every section** of a text. -/
def sections (text : Bytes) : Except Flaw (List Section) := sectionsFrom (fun _ => false) (lines text)

/-- The first section that `wanted` accepts. -/
def first? (wanted : Section → Bool) (text : Bytes) : Except Flaw (Option Section) :=
  (sectionsFrom wanted (lines text)).map (·.find? wanted)

end HttpEngine.Pem
