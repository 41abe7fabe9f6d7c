import RegisterLang.Bytes

/-!
# Variable-length numbers

A number is written in groups of seven bits, the lowest group first, and every byte but the last has
its high bit set.

* `Varint.toBytes` writes the shortest form.
* `Varint.read` accepts longer forms too, up to the width of the number: the width bounds the count
  of bytes and the value of the last one that is permitted.
-/

namespace RegisterLang.Varint

/-- How wide a number may be: the count of bytes that may precede the last permitted one, and the
greatest value of that one. -/
structure Width where
  leading : Nat
  last : Nat
deriving DecidableEq, Repr

/-- Numbers of 16 bits. -/
def Width.w16 : Width := ⟨2, 3⟩

/-- Numbers of 32 bits. -/
def Width.w32 : Width := ⟨4, 15⟩

/-- Numbers of 64 bits. -/
def Width.w64 : Width := ⟨9, 1⟩

/-- Why no number can be read. -/
inductive Fault
  | endOfData
  | unterminated
deriving DecidableEq, Repr

/-- The shortest form of a number. -/
def toBytes (n : Nat) : Bytes :=
  if n < 128 then [UInt8.ofNat n] else UInt8.ofNat (n % 128 + 128) :: toBytes (n / 128)
termination_by n
decreasing_by omega

/-- A number after `leading` further bytes at most, the rest of the data behind it. -/
def readAtMost (last : Nat) : (leading : Nat) → Bytes → Except Fault (Nat × Bytes)
  | _, [] => .error .endOfData
  | 0, byte :: rest => if byte.toNat ≤ last then .ok (byte.toNat, rest) else .error .unterminated
  | leading + 1, byte :: rest =>
    if byte.toNat < 128 then .ok (byte.toNat, rest)
    else do
      let (high, rest) ← readAtMost last leading rest
      .ok (byte.toNat - 128 + 128 * high, rest)

/-- The number at the start of the data, and the data behind it. -/
def read (width : Width) (bytes : Bytes) : Except Fault (Nat × Bytes) :=
  readAtMost width.last width.leading bytes

end RegisterLang.Varint
