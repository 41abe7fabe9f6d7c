import RegisterLang.Command.Basic
import RegisterLang.File.Path

/-!
# The command line program

Carries out commands on the disk of the computer.
-/

namespace RegisterLang

/-- The failure behind an error of the operating system. Its codes 20 and 21 concern directories, and 36
the length of a name; some calls report them as negative numbers. -/
def fileFailure : IO.Error → FileFailure
  | .noFileOrDirectory .. => .notFound
  | .resourceBusy .. => .busy
  | .inappropriateType _ code details =>
    if code = 21 ∨ code = -21 then .isDirectory
    else if code = 20 ∨ code = -20 then .notDirectory
    else .other details
  | .invalidArgument _ code details =>
    if code = 36 ∨ code = -36 then .nameTooLong else .other details
  | error => .other error.toString

/-- Runs an action on the disk and catches its failure. -/
def attempt {α : Type} (action : IO α) : IO (Except FileFailure α) := do
  match ← action.toBaseIO with
  | .ok value => return .ok value
  | .error error => return .error (fileFailure error)

/-- Writes a new file in the directory of the path and puts it in the path's place when it is
complete. -/
def replaceFile (path : String) (content : Bytes) : IO Unit := do
  let number ← IO.rand 0 999999999
  let draft := Path.beside path (".draft" ++ number.repr)
  let file ← IO.FS.Handle.mk draft .writeNew
  try
    file.write ⟨content.toArray⟩
    file.flush
    IO.FS.rename draft path
  catch error =>
    IO.FS.removeFile draft
    throw error

instance : Disk IO where
  read path :=
    match Path.check path with
    | .error failure => return .error failure
    | .ok () => attempt do return (← IO.FS.readBinFile path).toList
  replace path content :=
    match Path.check path with
    | .error failure => return .error failure
    | .ok () => attempt (replaceFile path content)

end RegisterLang

open RegisterLang in
def main (arguments : List String) : IO UInt32 := do
  let environment ← IO.getEnv Command.limitVariable
  let report : Report ← Command.respond environment arguments
  IO.print report.output
  IO.eprint report.errors
  return UInt32.ofNat report.status
