import HttpEngine.Handling.Chain

/-!
# Ready-made handlers

Small handlers to build chains from: some answer, some change what the rest of the chain
answered, some note what they see.
-/

namespace HttpEngine.Handler

open Text

/-- Leave the outcome of the rest of the chain alone. -/
def passOn (failure : Option String) (c : Context) : Verdict × Context :=
  match failure with
  | none => (.done, c)
  | some text => (.failed text, c)

/-- Change what is known, then go on. -/
def before (f : Context → Context) : Handler := fun _ c => .goOn (f c) passOn

/-- Go on, then change what is known **if all went well**. -/
def after (f : Context → Context) : Handler := fun _ c =>
  .goOn c fun failure c =>
    match failure with
    | none => (.done, f c)
    | some text => (.failed text, c)

/-- Do the work alone. -/
def alone (f : Context → Context) : Handler := fun _ c => .stop .done (f c)

/-- Work for one path only; other requests just go on. -/
def onlyAt (uri : String) (h : Handler) : Handler := fun remaining c =>
  if c.request.uri == uri then h remaining c else .goOn c passOn

/-- The line behind which a response takes the place of another. -/
def replacing (c : Context) (r : Response) : Context :=
  (c.respond r).note ("replaced " ++ c.statusText)

/-- Note going in and coming out, going in **with the phase** of the connection if that is
asked for. -/
def record (name : String) (phased : Bool := false) : Handler := fun remaining c =>
  let phase := match c.phase? with
    | some p => if phased then " " ++ p.word else ""
    | none => ""
  .goOn (c.note (name ++ " in, " ++ toString remaining ++ " left" ++ phase)) fun failure c =>
    match failure with
    | none => (.done, c.note (name ++ " out, " ++ c.statusText))
    | some text => (.failed text, c.note (name ++ " error: " ++ text))

/-- Answer with a response. -/
def respond (r : Response) : Handler := alone (replacing · r)

/-- Set a response and go on. -/
def respondNext (r : Response) : Handler := before (replacing · r)

/-- Answer with bytes found in what is known. -/
def reply (f : Context → Bytes) : Handler := alone fun c => c.respond (.ok (.bytes (f c)))

/-- Answer with method and path. -/
def echo : Handler := reply fun c => utf8 (c.request.method.token ++ " " ++ c.request.uri)

/-- Answer with the client's address. -/
def remote : Handler := reply fun c => utf8 c.remote.text

/-- Answer with the body of the request. -/
def body : Handler := reply fun c => c.request.body

/-- Answer with a parameter of the request. -/
def param (key : String) : Handler :=
  reply fun c => utf8 ((c.request.params.get? key).getD "(none)")

/-- Do nothing, and nothing after it. -/
def stop : Handler := alone id

/-- Fail. -/
def fail (text : String) : Handler := fun _ c => .stop (.failed text) c

/-- Turn a failure of the rest of the chain **into a response**. -/
def recover : Handler := fun _ c =>
  .goOn c fun failure c =>
    match failure with
    | none => (.done, c)
    | some text => (.done, c.respond (.text .internalServerError text))

/-- Change the response of the rest of the chain, if there is one. -/
def adjust (f : Response → Response) : Handler := after (·.mapResponse f)

/-- Add a header to the response. -/
def stamp (name value : String) : Handler :=
  adjust fun r => { r with headers := r.headers.append name value }

/-- Give a header of the response one value. -/
def stampInsert (name value : String) : Handler :=
  adjust fun r => { r with headers := r.headers.insert name value }

/-- Change the status of the response. -/
def status (s : Status) : Handler := adjust fun r => { r with status := s }

/-- Have the connection closed after the response. -/
def close : Handler := adjust fun r => { r with close := true }

/-- Take the response away. -/
def take : Handler := after fun c => c.withoutResponse.note ("took " ++ c.statusText)

/-- Run a rest that does nothing in place of the rest of the chain. -/
def cutOff : Handler := fun remaining c =>
  let (verdict, c) := (Next.done.run c).outcome
  .stop verdict (c.note (Next.done.text ++ " " ++ Next.text ⟨remaining, Next.done.run⟩))

/-- Watch the time the rest of the chain takes, which **changes nothing**. -/
def timed : Handler := fun _ c => .goOn c passOn

end HttpEngine.Handler
