import RegisterLang.File.Disk

/-!
# Paths

A path is a text whose parts stand between slashes. One that begins with a slash leads from the root,
any other from the working directory. The part `.` stays where it is and `..` goes back; an empty part
stays too, but not as the whole of a path. All other parts are names.

* `Path.check` refuses what no disk takes for a path.
* `Path.checkName` bounds the size of a name.
* `Path.beside` is the path of another name in the same directory.
-/

namespace RegisterLang.Path

/-- The greatest size of a path, in bytes. -/
def sizeLimit : Nat := 4095

/-- The greatest size of a name, in bytes. -/
def nameSizeLimit : Nat := 255

/-- The parts of a path between its slashes. -/
def partsOf : List Char → List String
  | [] => [""]
  | c :: rest =>
    match c, partsOf rest with
    | '/', parts => "" :: parts
    | c, part :: parts => (String.singleton c ++ part) :: parts
    | c, [] => [String.singleton c]

/-- The parts of a path, with the empty ones that adjacent and outer slashes leave. -/
def parts (path : String) : List String := partsOf path.toList

/-- The parts of a path that are not empty. -/
def steps (path : String) : List String := (parts path).filter (· ≠ "")

/-- Whether a path leads from the root. -/
def isAbsolute (path : String) : Bool := path.toList.head? = some '/'

/-- Whether a path ends in a slash. -/
def endsInSlash (path : String) : Bool := path.toList.getLast? = some '/'

/-- A path is not empty, holds no zero character and is not too long. -/
def check (path : String) : Except FileFailure Unit :=
  if path.toList.contains '\x00' then .error .zeroInName
  else if path = "" then .error .notFound
  else if sizeLimit < path.utf8ByteSize then .error .nameTooLong
  else .ok ()

/-- A name is not too long. -/
def checkName (name : String) : Except FileFailure Unit :=
  if nameSizeLimit < name.utf8ByteSize then .error .nameTooLong else .ok ()

/-- The path of a name in the directory that holds the last step of a path. -/
def beside (path name : String) : String :=
  (if isAbsolute path then "/" else "") ++ String.intercalate "/" ((steps path).dropLast ++ [name])

end RegisterLang.Path
