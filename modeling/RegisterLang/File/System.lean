import RegisterLang.File.Path

/-!
# File systems in memory

A file system is a finite set of files and directories below a root directory, with a working
directory. A location is the list of names that leads from the root to an entry.

* `FileSystem.locate` follows a path: every part starts from a directory, `.` stays and `..` goes back.
* `FileSystem.read` and `FileSystem.replace` are the two accesses of a disk, `Disk (StateM FileSystem)`.
* `FileSystem.listing` names all entries below the working directory.
-/

namespace RegisterLang

/-- What a location holds. -/
inductive Entry
  | file (content : Bytes)
  | directory
deriving DecidableEq, Repr

/-- The names that lead from the root to an entry. -/
abbrev Location := List String

/-- The entries below the root, each location at most once, and the directory that paths lead from. -/
structure FileSystem where
  entries : List (Location × Entry)
  workingDirectory : Location
deriving DecidableEq, Repr

namespace FileSystem

/-- An empty working directory below the root. -/
def empty : FileSystem := ⟨[(["work"], .directory)], ["work"]⟩

/-- What a location holds; the root is a directory. -/
def entry? (fs : FileSystem) : Location → Option Entry
  | [] => some .directory
  | location => fs.entries.lookup location

/-- Puts an entry at a location, in place of what is there. -/
def put (fs : FileSystem) (location : Location) (entry : Entry) : FileSystem :=
  { fs with entries := (location, entry) :: fs.entries.filter (·.1 ≠ location) }

/-! ## Paths -/

/-- Where a path leads from. -/
def origin (fs : FileSystem) (path : String) : Location :=
  if Path.isAbsolute path then [] else fs.workingDirectory

/-- Follows the parts of a path from a location. A part needs a directory to start from; the directory
above the root is the root. -/
def follow (fs : FileSystem) : Location → List String → Except FileFailure Location
  | location, [] => .ok location
  | location, part :: parts =>
    match fs.entry? location with
    | none => .error .notFound
    | some (.file _) => .error .notDirectory
    | some .directory =>
      if part = "" ∨ part = "." then fs.follow location parts
      else if part = ".." then fs.follow location.dropLast parts
      else do
        Path.checkName part
        fs.follow (location ++ [part]) parts

/-- The location that a path leads to, which may hold nothing. -/
def locate (fs : FileSystem) (path : String) : Except FileFailure Location := do
  Path.check path
  fs.follow (fs.origin path) (Path.parts path)

/-! ## Files -/

/-- The content of the file that a path leads to. -/
def read (fs : FileSystem) (path : String) : Except FileFailure Bytes := do
  let location ← fs.locate path
  match fs.entry? location with
  | none => .error .notFound
  | some .directory => .error .isDirectory
  | some (.file content) => .ok content

/-- The file system in which a path leads to a file with the given content. The path ends with the
file's name, the directory that is to hold the file must exist, and no directory may stand in the file's
place. In memory this is enough; a disk on which the content is first written beside the file may refuse
more, such as a path that leaves no room for a second name. -/
def replace (fs : FileSystem) (path : String) (content : Bytes) :
    Except FileFailure FileSystem := do
  Path.check path
  let parent ← fs.follow (fs.origin path) (Path.steps path).dropLast
  match fs.entry? parent, (Path.steps path).getLast? with
  | none, _ => .error .notFound
  | some (.file _), _ => .error .notDirectory
  | some .directory, none => .error .busy
  | some .directory, some name =>
    if name = "." ∨ name = ".." then .error .busy
    else do
      Path.checkName name
      if Path.endsInSlash path then .error .notDirectory
      else
        match fs.entry? (parent ++ [name]) with
        | some .directory => .error .isDirectory
        | _ => .ok (fs.put (parent ++ [name]) (.file content))

/-- The file system with a directory at the end of the path, and with all directories on the way. -/
def makeDirectory (fs : FileSystem) (path : String) : FileSystem :=
  let step := fun (location, fs) part =>
    if part = "" ∨ part = "." then (location, fs)
    else if part = ".." then (location.dropLast, fs)
    else
      let location := location ++ [part]
      match FileSystem.entry? fs location with
      | none => (location, fs.put location .directory)
      | some _ => (location, fs)
  ((Path.parts path).foldl step (fs.origin path, fs)).2

/-- The path that leads along a list of names to an entry; that of a directory ends in a slash. -/
def entryPath : Location × Entry → String
  | (names, .file _) => String.intercalate "/" names
  | (names, .directory) => String.intercalate "/" names ++ "/"

/-- The entries below a directory, with the names that lead there from it. -/
def below (fs : FileSystem) (directory : Location) : List (Location × Entry) :=
  fs.entries.filterMap fun (location, entry) =>
    if directory.isPrefixOf location ∧ directory.length < location.length then
      some (location.drop directory.length, entry)
    else none

/-- The paths of all entries below the working directory, in ascending order. -/
def listing (fs : FileSystem) : List String :=
  ((fs.below fs.workingDirectory).map entryPath).mergeSort fun a b => decide (a ≤ b)

end FileSystem

instance : Disk (StateM FileSystem) where
  read path fs := (fs.read path, fs)
  replace path content fs :=
    match fs.replace path content with
    | .ok fs => (.ok (), fs)
    | .error failure => (.error failure, fs)

end RegisterLang
