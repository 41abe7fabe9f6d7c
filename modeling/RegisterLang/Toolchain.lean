import RegisterLang.CodeUnit
import RegisterLang.File.Disk
import RegisterLang.Image.Container
import RegisterLang.Machine.Run
import RegisterLang.Text.Utf8
import RegisterLang.Token.Scan

/-!
# The toolchain

From source text to images and runs, in memory and on a disk.

* `Toolchain.compile`, `Toolchain.assemble` and `Toolchain.evaluate` take a source text to a code unit,
  to the bytes of an image, and through a run.
* `Toolchain.assembleFile` compiles a source file into an image file. Nothing is written before the
  whole image is known.
* `Toolchain.load` and `Toolchain.runFile` read an image file.
-/

namespace RegisterLang

/-- Why a build or a run fails. -/
inductive Error
  | scan (error : ScanError)
  | compile (error : CompileError)
  | image (error : ImageError)
  | fault (fault : Fault)
  /-- A run without a limit that outlasts the step counter. -/
  | unfinished
  | read (path : String) (failure : FileFailure)
  | write (path : String) (failure : FileFailure)
deriving DecidableEq, Repr

/-- The text that reports the error. -/
def Error.message : Error → String
  | scan error => "lexer error: " ++ error.message
  | compile error => error.message
  | image error => error.message
  | fault cause => cause.message
  | unfinished => "runtime error: step counter exhausted"
  | read path failure => "cannot read '" ++ path ++ "': " ++ failure.message
  | write path failure => "cannot write '" ++ path ++ "': " ++ failure.message

/-- A run that came to its end. -/
structure Completion where
  /-- The value of the return, if the run ended with one. -/
  value : Option Int64
  /-- The number of instructions begun. -/
  steps : Nat
deriving DecidableEq, Repr

/-- The line that shows the returned value. -/
def Completion.line? (c : Completion) : Option String :=
  c.value.map fun value => "Return: " ++ Text.intText value.toInt

/-- The end of a run. -/
def Run.completion (run : Run) : Except Error Completion :=
  match run.outcome with
  | .finished value => .ok ⟨value, run.machine.steps⟩
  | .faulted fault => .error (.fault fault)
  | .unfinished => .error .unfinished

/-- The image of a code unit: the program alone if `raw`, else with its symbols. -/
def CodeUnit.image (unit : CodeUnit) (raw : Bool) : Image :=
  ⟨unit.program, if raw then none else some unit.symbols⟩

namespace Toolchain

/-! ## In memory -/

/-- The tokens of a source text. -/
def scan (source : String) : Except Error (List Token) := (Token.scan source).mapError .scan

/-- The code unit of a source text. -/
def compile (source : String) : Except Error CodeUnit := do
  let tokens ← scan source
  (CodeUnit.ofTokens tokens).mapError .compile

/-- The bytes of an image. -/
def write (image : Image) : Except Error Bytes := image.toBytes.mapError .image

/-- The image in a byte string. -/
def read (bytes : Bytes) : Except Error Image := (Image.ofBytes bytes).mapError .image

/-- Compiles a source text into the bytes of an image. -/
def assemble (source : String) (raw : Bool) : Except Error Bytes := do
  let unit ← compile source
  write (unit.image raw)

/-- Runs an image. -/
def run (image : Image) (limit : Option Nat) : Except Error Completion :=
  (image.program.run limit).completion

/-- Compiles and runs a source text. -/
def evaluate (source : String) (limit : Option Nat) : Except Error Completion := do
  let unit ← compile source
  (unit.program.run limit).completion

/-! ## On a disk -/

section Files

variable {m : Type → Type} [Monad m] [Disk m]

/-- The content of a file. -/
def readFile (path : String) : m (Except Error Bytes) := do
  let content ← Disk.read path
  return content.mapError (.read path)

/-- The source text in the bytes of a file. -/
def decodeSource (path : String) (bytes : Bytes) : Except Error String :=
  match Text.ofUtf8? bytes with
  | some source => .ok source
  | none => .error (.read path .notText)

/-- The text of a source file. -/
def readSource (path : String) : m (Except Error String) := do
  let content ← readFile path
  return content.bind (decodeSource path)

/-- What a build has written. -/
structure Summary where
  output : String
  instructions : Nat
  size : Nat
deriving DecidableEq, Repr

/-- The code unit of a source text and the bytes of its image. -/
def assembleUnit (source : String) (raw : Bool) : Except Error (CodeUnit × Bytes) := do
  let unit ← compile source
  let bytes ← write (unit.image raw)
  .ok (unit, bytes)

/-- Compiles a source file into an image file. -/
def assembleFile (source output : String) (raw : Bool) : m (Except Error Summary) := do
  let text ← readSource source
  match text.bind (assembleUnit · raw) with
  | .error error => return .error error
  | .ok (unit, bytes) =>
    match ← Disk.replace output bytes with
    | .error failure => return .error (.write output failure)
    | .ok () => return .ok ⟨output, unit.program.length, bytes.length⟩

/-- The image in a file. -/
def load (path : String) : m (Except Error Image) := do
  let content ← readFile path
  return content.bind read

/-- Runs the image in a file. -/
def runFile (path : String) (limit : Option Nat) : m (Except Error Completion) := do
  let image ← load path
  return image.bind (run · limit)

end Files

end Toolchain

end RegisterLang
