import RegisterLang.Bytes

/-!
# Access to files

What the toolchain needs of a disk: to read a file as a whole, and to replace a file as a whole. A
replacement either takes place completely or leaves the disk as it was.
-/

namespace RegisterLang

/-- Why a file cannot be read or replaced. -/
inductive FileFailure
  | notFound
  | notDirectory
  | isDirectory
  /-- A path that ends in no name of its own. -/
  | busy
  | nameTooLong
  /-- A path with a zero character. -/
  | zeroInName
  /-- A source file that is not UTF-8. -/
  | notText
  | other (reason : String)
deriving DecidableEq, Repr

/-- The text that reports the failure. -/
def FileFailure.message : FileFailure → String
  | notFound => "No such file or directory (os error 2)"
  | notDirectory => "Not a directory (os error 20)"
  | isDirectory => "Is a directory (os error 21)"
  | busy => "Device or resource busy (os error 16)"
  | nameTooLong => "File name too long (os error 36)"
  | zeroInName => "file name contained an unexpected NUL byte"
  | notText => "stream did not contain valid UTF-8"
  | other reason => reason

/-- Computations that can read and replace files by path. -/
class Disk (m : Type → Type) where
  read : String → m (Except FileFailure Bytes)
  replace : String → Bytes → m (Except FileFailure Unit)

end RegisterLang
