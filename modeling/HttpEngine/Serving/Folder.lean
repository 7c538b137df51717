import HttpEngine.Error
import HttpEngine.Text.Bytes
import HttpEngine.Text.Cut

/-!
# The files a server is set up from

* `Folder.find`: what a path leads to, step by step.
* `Folder.read`: the contents of the file at a path, or why there are none.

A path leads from the folder itself, or from the top of everything when it begins with a
slash. Of what lies outside the folder only little is known.
-/

namespace HttpEngine

/-- The files below a place. Of two with one name **the later one** is there. -/
structure Folder where
  files : List (String × Bytes) := []
  deriving Repr

namespace Folder

/-- What a path leads to. -/
inductive Found
  | file (contents : Bytes)
  /-- A folder below this one, or this one when there are no steps. -/
  | inside (steps : List (List Char))
  /-- Some folder that this one lies in. -/
  | above
  /-- The top of everything. -/
  | top
  /-- The folder of devices. -/
  | devices
  /-- Some other folder at the top. -/
  | system
  /-- A file stands where a folder is needed. -/
  | blocked
  | nothing
  /-- A name, or the whole path, is longer than can be. -/
  | tooLong
  deriving Repr

/-- The steps of a path. -/
def steps (path : String) : List (List Char) :=
  (Text.pieces '/' path.toList).filter fun step => step != [] && step != ['.']

/-- The folders at the top of everything, those of devices left out. -/
def systemFolders : List String :=
  ["bin", "etc", "home", "lib", "opt", "proc", "root", "run", "sbin", "srv", "sys", "tmp", "usr",
    "var"]

/-- The most bytes of a name. -/
def longestName : Nat := 255

/-- The most bytes of a path. -/
def longestPath : Nat := 4095

/-- What a name below this folder leads to. -/
def findBelow (f : Folder) (way : List (List Char)) : Found :=
  match f.files.reverse.find? fun (name, _) => steps name == way with
  | some (_, contents) => .file contents
  | none =>
    if f.files.any fun (name, _) => way.isPrefixOf (steps name) then .inside way else .nothing

/-- **One step** on from a place. A step out of what is no folder leads nowhere, even one that
stays. -/
def walk (f : Folder) (place : Found) (step : List Char) : Found :=
  match place with
  | .nothing | .blocked | .tooLong => place
  | .file _ => .blocked
  | _ =>
    if step == [] || step == ['.'] then place
    else if step == ['.', '.'] then
      match place with
      | .inside way => if way.isEmpty then .above else .inside way.dropLast
      | .devices | .system => .top
      | _ => place
    else if longestName < (String.ofList step).utf8ByteSize then .tooLong
    else
      let name := String.ofList step
      match place with
      | .inside way => f.findBelow (way ++ [step])
      | .top =>
        if name == "dev" then .devices
        else if systemFolders.contains name then .system
        else .nothing
      | .devices => if name == "null" then .file [] else .nothing
      | _ => .nothing

/-- **What a path leads to.** -/
def find (f : Folder) (path : String) : Found :=
  if path.isEmpty then .nothing
  else if longestPath < path.utf8ByteSize then .tooLong
  else
    let start := if path.toList.head? == some '/' then Found.top else .inside []
    (Text.pieces '/' path.toList).foldl (walk f) start

/-- Whether there is something at a path. -/
def has (f : Folder) (path : String) : Bool :=
  match f.find path with
  | .blocked | .nothing | .tooLong => false
  | _ => true

/-- The contents of **the file at a path**. -/
def read (f : Folder) (path : String) : Except IoError Bytes :=
  if path.toList.contains '\x00' then
    .error (.device .invalidInput "file name contained an unexpected NUL byte")
  else
    match f.find path with
    | .file contents => .ok contents
    | .blocked => .error (.device .notADirectory "Not a directory (os error 20)")
    | .nothing => .error (.device .notFound "No such file or directory (os error 2)")
    | .tooLong => .error (.device .invalidFilename "File name too long (os error 36)")
    | _ => .error (.device .isADirectory "Is a directory (os error 21)")

end Folder

end HttpEngine
