import HttpEngine.Coding.Content
import HttpEngine.Handling.Chain
import HttpEngine.Text.Blank
import HttpEngine.Text.Cut
import HttpEngine.Transport.Wire

/-!
# Responses in a content coding

* `Compressor`: a way to write bodies, with the name that it is announced by.
* `Response.compressed`: a response with its body written that way and its length **as it is then**.
* `Compressor.choose?`: the first configured one that a client accepts.
* `Compressor.handler`: what the rest of the chain answered, written that way.
* `Compression`: the codings by name, with a level.
-/

namespace HttpEngine

open Text

/-- A response once its body is written in a coding: every announced length goes, the new one
and the coding's name come at the end. -/
def Response.recoded (r : Response) (name : String) (body : Bytes) : Response :=
  { r with
    headers := ((r.headers.erase "content-length").append "Content-Length"
      (toString body.length)).append "Content-Encoding" name
    body := .bytes body }

/-- A way to write bodies, with the name that it is announced by. -/
structure Compressor where
  name : String
  encode : Bytes → Bytes

/-- A coding at a level as a way to write bodies, **by an encoder that knows it**. -/
def ContentCoding.compressor (encode : Encoder) (coding : ContentCoding) (level : Nat) :
    Compressor := ⟨coding.name, encode coding level⟩

/-- A response **written by a compressor**, or the failure met while its body was read. -/
def Response.compressed (r : Response) (c : Compressor) : Except (Halt IoError) Response :=
  match r.body.collect with
  | (data, .ended) => .ok (r.recoded c.name (c.encode data))
  | (_, .failed cause) => .error (.failed cause)
  | (_, .never) => .error .cut

/-- A response **in a coding**, or the failure met while its body was read. -/
def Response.encoded (encode : Encoder) (r : Response) (coding : ContentCoding) (level : Nat) :
    Except (Halt IoError) Response := r.compressed (coding.compressor encode level)

/-- The codings that a response says its body is in, **last one first**. -/
def Response.codingNames (r : Response) : List String :=
  (r.headers.entries.filter (sameName ·.1 "content-encoding")).reverse.map (·.2)

namespace Compressor

/-- The tokens of an `Accept-Encoding` value: what stands between commas, **without blanks
around it**. -/
def tokens (accepted : String) : List String :=
  (pieces ',' accepted.toList).map fun piece => String.ofList (trimChars piece)

/-- The **first configured** compressor whose name a client accepts. -/
def choose? (offered : List Compressor) (accepted : String) : Option Compressor :=
  offered.find? fun c => (tokens accepted).any (sameName · c.name)

/-- Write a response with the compressor chosen, if there are both. -/
def recode (offered : List Compressor) (ctx : Context) : Verdict × Context :=
  match (ctx.request.header? "accept-encoding").bind (choose? offered), ctx.response? with
  | some c, some r =>
    match r.compressed c with
    | .ok r => (.done, ctx.respond r)
    | .error (.failed cause) => (.failed cause.message, ctx.withoutResponse)
    | .error .cut | .error .trapped => (.stuck, ctx.withoutResponse)
  | _, _ => (.done, ctx)

/-- Write what the rest of the chain answered in a way **that the client accepts**. -/
def handler (offered : List Compressor) : Handler := fun _ ctx =>
  .goOn ctx fun failure ctx =>
    match failure with
    | none => recode offered ctx
    | some text => (.failed text, ctx)

end Compressor

/-- Which codings are offered, best first, and how hard to try. -/
structure Compression where
  codings : List ContentCoding
  level : Nat := ContentCoding.defaultLevel
  deriving DecidableEq, Repr

namespace Compression

/-- The codings with these names. -/
def ofNames (names : List String) (level : Nat) : Except Error Compression :=
  (names.mapM ContentCoding.ofName).map (⟨·, level⟩)

/-- The codings at this level as ways to write bodies. -/
def compressors (encode : Encoder) (c : Compression) : List Compressor :=
  c.codings.map (·.compressor encode c.level)

/-- Write what the rest of the chain answered in a coding that the client accepts. -/
def handler (encode : Encoder) (c : Compression) : Handler :=
  Compressor.handler (c.compressors encode)

end Compression

end HttpEngine
