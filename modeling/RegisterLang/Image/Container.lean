import RegisterLang.Image.Header
import RegisterLang.Program.Stream
import RegisterLang.SymbolTable

/-!
# Images

An image is what a program becomes on disk. It is either the bare instruction stream, or a container
that also holds the names of the slots: a mark of four bytes, the length of the header as a 32-bit
number, the header, and then the stream. No frame starts with the first byte of the mark, so the mark
tells the two apart.

* `Image.toBytes` writes a bare stream for an image without symbols and a container otherwise.
* `Image.ofBytes` reads both.
-/

namespace RegisterLang

/-- A program with the names of its slots, if they are known. -/
structure Image where
  program : Program
  symbols : Option SymbolTable
deriving DecidableEq

/-- Why an image cannot be read or written. -/
inductive ImageError
  | encode (error : EncodeError)
  | decode (error : DecodeError)
  | header (fault : HeaderFault)
  | headerLength (declared available : Nat)
  | version (found : Nat)
  | countMismatch (declared found : Nat)
deriving DecidableEq, Repr

namespace Image

/-- The bytes `ARCX`, with which a container starts. -/
def mark : Bytes := [0x41, 0x52, 0x43, 0x58]

/-- The version of the container format. -/
def formatVersion : Nat := 1

end Image

/-- The text that reports the error. -/
def ImageError.message : ImageError → String
  | encode error => error.message
  | decode error => error.message
  | header fault => "image error: malformed header: " ++ fault.message
  | headerLength declared available =>
    "image error: header needs " ++ declared.repr ++ " bytes, only " ++ available.repr ++ " remain"
  | version found =>
    "image error: unsupported format version " ++ found.repr ++ " (expected "
      ++ Image.formatVersion.repr ++ ")"
  | countMismatch declared found =>
    "image error: header declares " ++ declared.repr ++ " instructions, stream holds " ++ found.repr

namespace Image

/-! ## Writing -/

/-- The bytes of a header, which must fit its two 32-bit fields. -/
def headerBytes (program : Program) (symbols : SymbolTable) : Except ImageError Bytes :=
  if UInt32.size ≤ program.length then .error (.header (.tooManyInstructions program.length))
  else
    let bytes := Header.toBytes ⟨formatVersion, program.length, symbols.names⟩
    if UInt32.size ≤ bytes.length then .error (.header .tooLong) else .ok bytes

/-- The instruction stream of a program. -/
def stream (program : Program) : Except ImageError Bytes := program.encode.mapError .encode

/-- The bytes of an image: a container if it has symbols, a bare stream if not. -/
def toBytes (image : Image) : Except ImageError Bytes :=
  match image.symbols with
  | none => stream image.program
  | some symbols => do
    let header ← headerBytes image.program symbols
    let code ← stream image.program
    .ok (mark ++ Bytes.ofNat32 header.length ++ header ++ code)

/-! ## Reading -/

/-- The program of an instruction stream. -/
def ofStream (bytes : Bytes) : Except ImageError Program :=
  (Program.decode bytes).mapError .decode

/-- The header that fills the given bytes, in a version that can be read. -/
def ofHeader (bytes : Bytes) : Except ImageError Header :=
  match Header.read bytes with
  | .error fault => .error (.header fault)
  | .ok (header, rest) =>
    if rest ≠ [] then .error (.header (.unreadBytes rest.length))
    else if header.version ≠ formatVersion then .error (.version header.version)
    else .ok header

/-- The image in the parts of a container. -/
def ofParts (header stream : Bytes) : Except ImageError Image := do
  let header ← ofHeader header
  let program ← ofStream stream
  if program.length ≠ header.count then .error (.countMismatch header.count program.length)
  else .ok ⟨program, some (SymbolTable.ofNames header.names)⟩

/-- The image in what follows the mark of a container. -/
def ofContainer : Bytes → Except ImageError Image
  | a :: b :: c :: d :: rest =>
    let size := Bytes.toNat32 a b c d
    if rest.length < size then .error (.headerLength size rest.length)
    else ofParts (rest.take size) (rest.drop size)
  | rest => .error (.headerLength 4 rest.length)

/-- The image in a byte string. -/
def ofBytes (bytes : Bytes) : Except ImageError Image :=
  if bytes.take 4 = mark then ofContainer (bytes.drop 4)
  else do
    let program ← ofStream bytes
    .ok ⟨program, none⟩

end Image

end RegisterLang
