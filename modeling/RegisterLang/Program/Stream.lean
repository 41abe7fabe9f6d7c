import RegisterLang.Bytes
import RegisterLang.Instr

/-!
# Instruction streams

A program is written as one frame per instruction, in order and with nothing between: a tag byte,
then as many words as the opcode's arity says. The low four bits of the tag are the opcode's number;
bits 4 and 5 say that the first and the second operand are literals.

* `Program.encode` fails only for an index that no word can hold.
* `Program.decode` reports the first fault of a stream with its byte offset.
-/

namespace RegisterLang

/-! ## Frames -/

/-- The leading byte of a frame, taken apart. -/
structure Tag where
  opcode : Opcode
  lhsLiteral : Bool
  rhsLiteral : Bool
deriving DecidableEq, Repr

namespace Tag

/-- The byte of a tag. -/
def toByte (t : Tag) : UInt8 :=
  UInt8.ofNat (t.opcode.number + 16 * t.lhsLiteral.toNat + 32 * t.rhsLiteral.toNat)

/-- Takes a byte apart. The two upper bits must be clear, and an opcode without operands has no
literals. -/
def ofByte? (b : UInt8) : Option Tag :=
  match Opcode.ofNumber? (b.toNat % 16) with
  | none => none
  | some opcode =>
    if b.toNat / 16 < (if opcode.hasOperands then 4 else 1) then
      some ⟨opcode, b.toNat / 16 % 2 = 1, b.toNat / 32 % 2 = 1⟩
    else none

end Tag

/-- The encoded form of one instruction. -/
structure Frame where
  tag : Tag
  words : List Int32
deriving DecidableEq, Repr

/-- The bytes of a frame. -/
def Frame.toBytes (f : Frame) : Bytes := f.tag.toByte :: f.words.flatMap Bytes.ofWord

/-! ## Encoding -/

/-- An index that does not fit in a word. -/
inductive EncodeError
  | indexOverflow (address value : Nat)
deriving DecidableEq, Repr

/-- The text that reports the error. -/
def EncodeError.message : EncodeError → String
  | indexOverflow address value =>
    "encode error: instruction " ++ address.repr ++ ": index " ++ value.repr
      ++ " does not fit in a signed 32-bit word"

/-- The word of a slot or a jump target. -/
def indexWord (address value : Nat) : Except EncodeError Int32 :=
  if value < 0x80000000 then .ok (Int32.ofNat value) else .error (.indexOverflow address value)

/-- The word of an operand. -/
def Operand.word (address : Nat) : Operand → Except EncodeError Int32
  | .literal value => .ok value
  | .slot index => indexWord address index

/-- The frame of the instruction at an address. -/
def Instr.frame (address : Nat) : Instr → Except EncodeError Frame
  | .set dest value => do
    let d ← indexWord address dest
    .ok ⟨⟨.set, false, false⟩, [d, value]⟩
  | .arith op dest lhs rhs => do
    let d ← indexWord address dest
    let l ← lhs.word address
    let r ← rhs.word address
    .ok ⟨⟨.arith op, lhs.isLiteral, rhs.isLiteral⟩, [d, l, r]⟩
  | .compare relation lhs rhs => do
    let l ← lhs.word address
    let r ← rhs.word address
    .ok ⟨⟨.compare, lhs.isLiteral, rhs.isLiteral⟩, [l, r, relation.code]⟩
  | .jumpIfFalse target => do
    let t ← indexWord address target
    .ok ⟨⟨.jumpIfFalse, false, false⟩, [t]⟩
  | .jump target => do
    let t ← indexWord address target
    .ok ⟨⟨.jump, false, false⟩, [t]⟩
  | .ret source => do
    let s ← indexWord address source
    .ok ⟨⟨.ret, false, false⟩, [s]⟩

/-- The bytes of the instructions from an address on. -/
def Program.encodeFrom (address : Nat) : Program → Except EncodeError Bytes
  | [] => .ok []
  | instr :: rest => do
    let frame ← instr.frame address
    let bytes ← Program.encodeFrom (address + 1) rest
    .ok (frame.toBytes ++ bytes)

/-- The instruction stream of a program. -/
def Program.encode (program : Program) : Except EncodeError Bytes := program.encodeFrom 0

/-! ## Decoding -/

/-- The first fault of a stream, at a byte offset. -/
inductive DecodeError
  /-- The stream ends inside a frame, with fewer operand bytes than are expected. -/
  | truncated (offset : Nat) (opcode : Opcode) (expected available : Nat)
  | unknownTag (offset : Nat) (tag : UInt8)
  | unknownRelation (offset : Nat) (code : Int32)
  | negativeIndex (offset : Nat) (value : Int32)
deriving DecidableEq, Repr

/-- The text that reports the error. -/
def DecodeError.message : DecodeError → String
  | truncated offset opcode expected available =>
    "decode error: byte " ++ offset.repr ++ ": " ++ opcode.mnemonic ++ " needs "
      ++ expected.repr ++ " operand bytes, only " ++ available.repr ++ " remain"
  | unknownTag offset tag =>
    "decode error: byte " ++ offset.repr ++ ": unknown instruction tag 0x" ++ Text.hexByte tag
  | unknownRelation offset code =>
    "decode error: byte " ++ offset.repr ++ ": unknown relational operator code "
      ++ Text.intText code.toInt
  | negativeIndex offset value =>
    "decode error: byte " ++ offset.repr ++ ": negative index " ++ Text.intText value.toInt

/-- The slot or jump target of the word at an offset. -/
def indexOfWord (offset : Nat) (w : Int32) : Except DecodeError Nat :=
  if w < 0 then .error (.negativeIndex offset w) else .ok w.toInt.toNat

/-- The operand of the word at an offset. -/
def Operand.ofWord (offset : Nat) (isLiteral : Bool) (w : Int32) : Except DecodeError Operand :=
  if isLiteral then .ok (.literal w)
  else do
    let index ← indexOfWord offset w
    .ok (.slot index)

/-- The relation of the word at an offset. -/
def Relation.ofWord (offset : Nat) (w : Int32) : Except DecodeError Relation :=
  match Relation.ofCode? w with
  | some relation => .ok relation
  | none => .error (.unknownRelation offset w)

/-- The instruction of a frame whose tag stands at an offset. Too few words mean that the stream ends
inside the frame, after the given number of operand bytes. -/
def Frame.instr (offset available : Nat) (f : Frame) : Except DecodeError Instr :=
  match f.tag.opcode, f.words with
  | .set, [d, value] => do
    let dest ← indexOfWord (offset + 1) d
    .ok (.set dest value)
  | .arith op, [d, l, r] => do
    let dest ← indexOfWord (offset + 1) d
    let lhs ← Operand.ofWord (offset + 5) f.tag.lhsLiteral l
    let rhs ← Operand.ofWord (offset + 9) f.tag.rhsLiteral r
    .ok (.arith op dest lhs rhs)
  | .compare, [l, r, code] => do
    let lhs ← Operand.ofWord (offset + 1) f.tag.lhsLiteral l
    let rhs ← Operand.ofWord (offset + 5) f.tag.rhsLiteral r
    let relation ← Relation.ofWord (offset + 9) code
    .ok (.compare relation lhs rhs)
  | .jumpIfFalse, [t] => do
    let target ← indexOfWord (offset + 1) t
    .ok (.jumpIfFalse target)
  | .jump, [t] => do
    let target ← indexOfWord (offset + 1) t
    .ok (.jump target)
  | .ret, [s] => do
    let source ← indexOfWord (offset + 1) s
    .ok (.ret source)
  | opcode, _ => .error (.truncated offset opcode (4 * opcode.arity) available)

/-- The program of a stream that starts at an offset. -/
def Program.decodeFrom (offset : Nat) : Bytes → Except DecodeError Program
  | [] => .ok []
  | byte :: rest =>
    match Tag.ofByte? byte with
    | none => .error (.unknownTag offset byte)
    | some tag => do
      let size := 4 * tag.opcode.arity
      let operands := rest.take size
      let instr ← Frame.instr offset operands.length ⟨tag, Bytes.words operands⟩
      let program ← Program.decodeFrom (offset + 1 + size) (rest.drop size)
      .ok (instr :: program)
termination_by bytes => bytes.length
decreasing_by simp only [List.length_drop, List.length_cons]; omega

/-- The program of an instruction stream. -/
def Program.decode (bytes : Bytes) : Except DecodeError Program := Program.decodeFrom 0 bytes

end RegisterLang
