import HttpEngine.Serving.Config.Written
import HttpEngine.Serving.Folder
import HttpEngine.Text.Utf8

/-!
# Where a configuration comes from

* `Config.load`: from a file that is asked for, else from the usual one if it is there. **Only
  a file that is asked for has to be there.**
-/

namespace HttpEngine

namespace Config

/-- Why there is no configuration. -/
inductive Fault
  /-- The file at a path cannot be read. -/
  | unreadable (path : String) (cause : IoError)
  /-- The text does not describe a configuration. -/
  | malformed
  deriving DecidableEq, Repr

/-- A fault as a failure of the engine. -/
def Fault.error : Fault → Error
  | unreadable path cause => .config ("cannot read " ++ path ++ ": " ++ cause.message)
  | malformed => .config "malformed document"

/-- The configuration in a text, or a fault. -/
def ofText (text : String) : Except Fault Config :=
  match ofText? text with
  | some c => .ok c
  | none => .error .malformed

/-- The configuration in the file at a path. -/
def ofFile (files : Folder) (path : String) : Except Fault Config :=
  match files.read path with
  | .error cause => .error (.unreadable path cause)
  | .ok contents =>
    match Text.Utf8.decode? contents with
    | some text => ofText text
    | none =>
      .error (.unreadable path (.device .invalidData "stream did not contain valid UTF-8"))

/-- The path that is tried unless another one is asked for. -/
def usualPath : String := "vigil.yaml"

/-- **The configuration to start with**, its first listener at another address if one is asked
for. -/
def load (files : Folder) (path? address? : Option String) : Except Fault Config := do
  let c ← match path? with
    | some path => ofFile files path
    | none => if files.has usualPath then ofFile files usualPath else .ok {}
  return match address? with
    | some address => c.listenAt address
    | none => c

end Config

end HttpEngine
