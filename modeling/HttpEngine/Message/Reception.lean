import HttpEngine.Message.Request
import HttpEngine.Transport.Supply

/-!
# Receiving a request

* `Draft.receive`: one request off a link, its method still a name. No request at all comes
  of a stream that ends early or of a first line that is no request line.
* `Parser.parse`: the same with the method looked up, first where a request may ask for
  another one.
-/

namespace HttpEngine

open Text

/-- A request whose method is still a name. -/
structure Draft where
  verb : String
  target : String
  protocol : String
  headers : Headers
  body : Bytes
  deriving Repr

/-- The request once its method is known. -/
def Draft.toRequest (d : Draft) (m : Method) : Request :=
  { method := m, target := d.target, protocol := d.protocol, headers := d.headers, body := d.body }

/-- The three parts of a request line: before the first space, between the first and **the
last**, and after the last. Nothing comes of a line with fewer than two spaces. -/
def requestLine? (line : List Char) : Option (String × String × String) := do
  let (verb, rest) ← cut ' ' line
  let (target, protocol) ← cutLast ' ' rest
  return (String.ofList verb, String.ofList target, String.ofList protocol)

/-- The name and value on a header line, **cut at the first colon and space**. -/
def headerLine? (line : List Char) : Option (String × String) :=
  (cutAt [':', ' '] line).map fun (name, value) => (String.ofList name, String.ofList value)

/-- The length of the body that headers announce: a signed number, blanks around it ignored,
nothing announced being none and a negative number too. -/
def announcedLength (h : Headers) : Except Error Nat :=
  match h.get? "content-length" with
  | none => .ok 0
  | some raw =>
    match intUpTo? maxInt64 (trim raw) with
    | some n => .ok n.toNat
    | none => .error (.invalidContentLength raw)

namespace Link

/-- An activity on a link that can fail as the engine does. -/
abbrev Task (α : Type) := EStateM (Halt Error) Link α

/-- An activity as a task: its failures are the engine's io failures. -/
def Act.task {α : Type} (act : Act α) : Task α := fun l =>
  match act l with
  | .ok a l => .ok a l
  | .error h l => .error (h.map .io) l

end Link

namespace Draft

/-- The header lines up to the first empty one, **later values replacing earlier ones**;
none when the stream ends first. -/
def headersFrom (soFar : Headers) : Link.Task (Option Headers) := fun l =>
  match _h : Link.readLine l with
  | .error halt l' => .error (halt.map .io) l'
  | .ok none l' => .ok none l'
  | .ok (some line) l' =>
    if line.isEmpty then .ok (some soFar) l'
    else
      match headerLine? (line.map latin1Char) with
      | none => .error (.failed (.malformedHeader (latin1 line))) l'
      | some (name, value) => headersFrom (soFar.insert name value) l'
termination_by l => l.available
decreasing_by exact Link.available_readLine ‹_›

/-- **One request off a link**, or none when there is no request to be had. A header named
`_method` takes the place of the method on the request line. -/
def receive : Link.Task (Option Draft) := do
  let some line ← Link.readLine.task | return none
  let some (verb, target, protocol) := requestLine? (line.map latin1Char) | return none
  let some headers ← headersFrom {} | return none
  match announcedLength headers with
  | .error e => throw (.failed e)
  | .ok length =>
    let body ← (Link.readBody length).task
    return some { verb := (headers.get? "_method").getD verb, target, protocol, headers, body }

end Draft

/-- Where a received request may ask for another method. -/
inductive OverrideField
  /-- The header `X-HTTP-Method-Override`. -/
  | header
  /-- The field `_method` of a form body. -/
  | form
  deriving DecidableEq, Repr

/-- The method a request asks for in a field, if it does. -/
def OverrideField.read : OverrideField → Request → Option String
  | header, r => r.header? "X-HTTP-Method-Override"
  | form, r => r.form.get? "_method"

/-- A request parser with the method names it has seen. -/
inductive Parser
  | plain (verbs : MethodCache)
  /-- The inner parser, its method replaced by the one **in the field**, if any. -/
  | overriding (field : OverrideField) (inner : Parser) (verbs : MethodCache)
  deriving Repr

/-- What parsing leaves behind. -/
structure Parsed where
  outcome : Except (Halt Error) (Option Request)
  parser : Parser
  link : Link

namespace Parser

/-- Names kept by the innermost parser. -/
def verbCount : Parser → Nat
  | plain verbs => verbs.size
  | overriding _ inner _ => inner.verbCount

/-- Parse one request. -/
def parse : Parser → Link → Parsed
  | plain verbs, l =>
    match Draft.receive l with
    | .error halt l => ⟨.error halt, plain verbs, l⟩
    | .ok none l => ⟨.ok none, plain verbs, l⟩
    | .ok (some draft) l =>
      match verbs.provide draft.verb with
      | (.error e, verbs) => ⟨.error (.failed e), plain verbs, l⟩
      | (.ok m, verbs) =>
        let wire := { l.wire with journal := .received :: l.wire.journal }
        ⟨.ok (some (draft.toRequest m)), plain verbs, { l with wire }⟩
  | overriding field inner verbs, l =>
    match inner.parse l with
    | ⟨.ok (some request), inner, l⟩ =>
      match field.read request with
      | none => ⟨.ok (some request), overriding field inner verbs, l⟩
      | some name =>
        match verbs.provide name with
        | (.error e, verbs) => ⟨.error (.failed e), overriding field inner verbs, l⟩
        | (.ok m, verbs) => ⟨.ok (some (request.withMethod m)), overriding field inner verbs, l⟩
    | ⟨outcome, inner, l⟩ => ⟨outcome, overriding field inner verbs, l⟩

/-- A parser for the innermost requests, and for those with overridden methods. -/
def basic : Parser := plain .empty

/-- A parser that honours an override field, if one is given. -/
def ofField : Option OverrideField → Parser
  | none => basic
  | some field => overriding field basic .empty

end Parser

end HttpEngine
