import RegisterLang.Image.Varint
import RegisterLang.Text.Utf8

/-!
# Image headers

The header of an image holds the version of the format, the number of instructions and the names of
the slots. Numbers are varints; a name is its length in bytes and then its UTF-8 form.

* `Header.toBytes` writes a header.
* `Header.read` reads one and returns the data behind it.
-/

namespace RegisterLang

/-- What stands before the instruction stream of an image. -/
structure Header where
  version : Nat
  count : Nat
  names : List String
deriving DecidableEq, Repr

/-- Why a header cannot be read or written. -/
inductive HeaderFault
  | endOfData
  | unterminatedNumber
  | invalidText
  | unreadBytes (count : Nat)
  | tooManyInstructions (count : Nat)
  | tooLong
deriving DecidableEq, Repr

/-- The text that reports the fault. -/
def HeaderFault.message : HeaderFault → String
  | endOfData => "Hit the end of buffer, expected more data"
  | unterminatedNumber =>
    "Found a varint that didn't terminate. Is the usize too big for this platform?"
  | invalidText => "Tried to parse invalid utf-8"
  | unreadBytes count => count.repr ++ " unread bytes after the header"
  | tooManyInstructions count => count.repr ++ " instructions do not fit the header"
  | tooLong => "header too large"

namespace Header

/-! ## Writing -/

/-- A name: its length in bytes, then its UTF-8 form. -/
def nameBytes (name : String) : Bytes :=
  Varint.toBytes (Text.utf8 name).length ++ Text.utf8 name

/-- The bytes of a header. -/
def toBytes (h : Header) : Bytes :=
  Varint.toBytes h.version ++ Varint.toBytes h.count ++ Varint.toBytes h.names.length
    ++ h.names.flatMap nameBytes

/-! ## Reading -/

/-- A number of the given width. -/
def readNumber (width : Varint.Width) (bytes : Bytes) : Except HeaderFault (Nat × Bytes) :=
  match Varint.read width bytes with
  | .ok result => .ok result
  | .error .endOfData => .error .endOfData
  | .error .unterminated => .error .unterminatedNumber

/-- A name. -/
def readName (bytes : Bytes) : Except HeaderFault (String × Bytes) := do
  let (size, rest) ← readNumber .w64 bytes
  if rest.length < size then .error .endOfData
  else
    match Text.ofUtf8? (rest.take size) with
    | some name => .ok (name, rest.drop size)
    | none => .error .invalidText

/-- The given number of names. -/
def readNames : Nat → Bytes → Except HeaderFault (List String × Bytes)
  | 0, bytes => .ok ([], bytes)
  | count + 1, bytes => do
    let (name, rest) ← readName bytes
    let (names, rest) ← readNames count rest
    .ok (name :: names, rest)

/-- A header, and the data behind it. -/
def read (bytes : Bytes) : Except HeaderFault (Header × Bytes) := do
  let (version, rest) ← readNumber .w16 bytes
  let (count, rest) ← readNumber .w32 rest
  let (size, rest) ← readNumber .w64 rest
  let (names, rest) ← readNames size rest
  .ok (⟨version, count, names⟩, rest)

end Header

end RegisterLang
