/-!
# Bytes and words

Encoded programs are lists of bytes. A word is a signed 32-bit number, written as four bytes with the
lowest first.

* `Bytes.ofNat32` and `Bytes.toNat32` write and read an unsigned 32-bit number.
* `Bytes.ofWord` writes a word; `Bytes.words` reads as many whole words as there are.
-/

namespace RegisterLang

/-- A byte string. -/
abbrev Bytes := List UInt8

namespace Bytes

/-- Four bytes, lowest first. -/
def ofNat32 (n : Nat) : Bytes :=
  [UInt8.ofNat n, UInt8.ofNat (n / 0x100), UInt8.ofNat (n / 0x10000), UInt8.ofNat (n / 0x1000000)]

/-- The number that four bytes stand for. -/
def toNat32 (a b c d : UInt8) : Nat :=
  a.toNat + 0x100 * b.toNat + 0x10000 * c.toNat + 0x1000000 * d.toNat

/-- The bytes of a word. -/
def ofWord (w : Int32) : Bytes := ofNat32 w.toUInt32.toNat

/-- The whole words at the start of a byte string. -/
def words : Bytes → List Int32
  | a :: b :: c :: d :: rest => (UInt32.ofNat (toNat32 a b c d)).toInt32 :: words rest
  | _ => []

@[simp] theorem length_ofNat32 (n : Nat) : (ofNat32 n).length = 4 := rfl

@[simp] theorem length_ofWord (w : Int32) : (ofWord w).length = 4 := rfl

end Bytes

end RegisterLang
