import RegisterLang.Proofs.Container
import RegisterLang.Proofs.Faults
import RegisterLang.Proofs.Malformation

/-!
# Which programs have a stream

Literals always fit in a word; slots and jump targets may not. A program is written unless one of them is
too large, and then the error names the first one, in the order of the instructions and of their words.

* `Instr.indices`: the slots and jump targets of an instruction. `overflow?`: the first that is too large.
* `Instr.failure?_frame`: the failure of a frame is that of its first index that is too large.
* `Program.encodeFrom_eq_error_iff`: the same for a stream.
* `Program.streamSize`: the length of a stream, which the opcodes alone determine.
* `Program.encode_overflow`: when a program is written, how long it gets, and the error if it is not.
* `Program.toBytes_longName`: a long name in the image hides that error.
-/

namespace RegisterLang

/-! ## Indices -/

/-- The greatest index that fits in a word. -/
def maxIndex : Nat := 0x7fffffff

/-- The slots or the jump target of an instruction, in the order of its words. -/
def Instr.indices : Instr → List Nat
  | set dest _ => [dest]
  | arith _ dest lhs rhs => dest :: (lhs.slots ++ rhs.slots)
  | compare _ lhs rhs => lhs.slots ++ rhs.slots
  | jumpIfFalse target | jump target => [target]
  | ret source => [source]

theorem Instr.mem_indices_iff {instr : Instr} {index : Nat} :
    index ∈ instr.indices ↔ index ∈ instr.slots ∨ instr.jumpTarget? = some index := by
  cases instr <;> simp [indices, slots, jumpTarget?, eq_comm]

/-- The first of the indices that does not fit in a word. -/
def overflow? (indices : List Nat) : Option Nat := indices.find? (maxIndex < ·)

theorem overflow?_append (indices others : List Nat) :
    overflow? (indices ++ others) = (overflow? indices).or (overflow? others) := List.find?_append

theorem overflow?_eq_none_iff {indices : List Nat} :
    overflow? indices = none ↔ ∀ index ∈ indices, index ≤ maxIndex := by
  simp [overflow?, List.find?_eq_none]

/-! ## Frames -/

theorem failure?_indexWord (address value : Nat) :
    failure? (indexWord address value) = (overflow? [value]).map (.indexOverflow address) := by
  unfold indexWord overflow? maxIndex
  split
  · rename_i hfits
    rw [List.find?_cons_of_neg (by simp; omega)]
    rfl
  · rename_i hlarge
    rw [List.find?_cons_of_pos (by simp; omega)]
    rfl

theorem Operand.failure?_word (address : Nat) (o : Operand) :
    failure? (o.word address) = (overflow? o.slots).map (.indexOverflow address) := by
  cases o with
  | literal value => rfl
  | slot index => exact failure?_indexWord address index

/-- **The failure of a frame is that of its first index that is too large.** -/
theorem Instr.failure?_frame (address : Nat) (instr : Instr) :
    failure? (instr.frame address) = (overflow? instr.indices).map (.indexOverflow address) := by
  -- in each arm the words are written in the order of the indices
  cases instr with
  | set dest value | jumpIfFalse index | jump index | ret index =>
    refine (failure?_bind none fun _ => rfl).trans ?_
    rw [failure?_indexWord, Option.or_none]
    rfl
  | arith op dest lhs rhs =>
    refine (failure?_bind _ fun _ => failure?_bind _ fun _ => failure?_bind none fun _ => rfl).trans ?_
    have hindices : (arith op dest lhs rhs).indices = [dest] ++ (lhs.slots ++ rhs.slots) := rfl
    rw [failure?_indexWord, Operand.failure?_word, Operand.failure?_word, Option.or_none, hindices,
      overflow?_append, overflow?_append, Option.map_or, Option.map_or]
  | compare relation lhs rhs =>
    refine (failure?_bind _ fun _ => failure?_bind none fun _ => rfl).trans ?_
    rw [Operand.failure?_word, Operand.failure?_word, Option.or_none, indices, overflow?_append,
      Option.map_or]

/-! ## Streams -/

namespace Program

/-- A stream fails with its first frame, or else with what follows. -/
theorem failure?_encodeFrom_cons (address : Nat) (instr : Instr) (rest : Program) :
    failure? (encodeFrom address (instr :: rest))
      = ((overflow? instr.indices).map (.indexOverflow address)).or
          (failure? (encodeFrom (address + 1) rest)) := by
  refine (failure?_bind _ fun _ => failure?_bind none fun _ => rfl).trans ?_
  rw [Instr.failure?_frame, Option.or_none]

/-- **A program is not written for the first of its indices that is too large.** -/
theorem encodeFrom_eq_error_iff {base : Nat} {program : Program} {error : EncodeError} :
    program.encodeFrom base = .error error ↔
      ∃ (before : Program) (instr : Instr) (after : Program) (value : Nat),
        program = before ++ instr :: after ∧ (∀ earlier ∈ before, overflow? earlier.indices = none)
          ∧ overflow? instr.indices = some value
          ∧ error = .indexOverflow (base + before.length) value := by
  rw [← failure?_eq_some_iff]
  induction program generalizing base with
  | nil => simp [encodeFrom, failure?]
  | cons first rest ih =>
    have haddress (before : Program) : base + 1 + before.length = base + (first :: before).length := by
      rw [List.length_cons]
      omega
    rw [failure?_encodeFrom_cons, Option.or_eq_some_iff, Option.map_eq_some_iff, Option.map_eq_none_iff, ih]
    constructor
    · rintro (⟨value, hvalue, rfl⟩ | ⟨hfirst, before, instr, after, value, rfl, hbefore, hvalue, rfl⟩)
      · exact ⟨[], first, rest, value, rfl, by simp, hvalue, rfl⟩
      · exact ⟨first :: before, instr, after, value, rfl, List.forall_mem_cons.mpr ⟨hfirst, hbefore⟩,
          hvalue, by rw [haddress]⟩
    · rintro ⟨before, instr, after, value, hprogram, hbefore, hvalue, rfl⟩
      cases before with
      | nil =>
        cases hprogram
        exact .inl ⟨value, hvalue, rfl⟩
      | cons _ before =>
        cases hprogram
        obtain ⟨hfirst, hbefore⟩ := List.forall_mem_cons.mp hbefore
        exact .inr ⟨hfirst, before, instr, after, value, rfl, hbefore, hvalue, by rw [haddress]⟩

theorem failure?_encodeFrom_eq_none_iff {base : Nat} {program : Program} :
    failure? (program.encodeFrom base) = none ↔ ∀ instr ∈ program, overflow? instr.indices = none := by
  induction program generalizing base with
  | nil => simp [encodeFrom, failure?]
  | cons first rest ih =>
    rw [failure?_encodeFrom_cons, Option.or_eq_none_iff, Option.map_eq_none_iff, ih, List.forall_mem_cons]

/-- **A program is written exactly if all its indices fit.** -/
theorem exists_encode_iff {program : Program} :
    (∃ code, program.encode = .ok code)
      ↔ ∀ instr ∈ program, ∀ index ∈ instr.indices, index ≤ maxIndex := by
  simp only [← overflow?_eq_none_iff]
  rw [← failure?_encodeFrom_eq_none_iff, failure?_eq_none_iff]
  rfl

end Program

/-! ## Sizes -/

/-- The number of bytes of the instruction's frame. -/
def Instr.frameSize (instr : Instr) : Nat := 1 + 4 * instr.opcode.arity

/-- The number of bytes of the program's stream. -/
def Program.streamSize : Program → Nat
  | [] => 0
  | instr :: rest => instr.frameSize + Program.streamSize rest

theorem Instr.length_frame {address : Nat} {instr : Instr} {f : Frame}
    (h : instr.frame address = .ok f) : f.toBytes.length = instr.frameSize := by
  obtain ⟨-, harity, hopcode⟩ := frame_wellFormed h
  rw [Frame.length_toBytes, harity, hopcode, frameSize]

theorem Program.length_of_encodeFrom {address : Nat} {program : Program} {code : Bytes}
    (h : program.encodeFrom address = .ok code) : code.length = program.streamSize := by
  induction program generalizing address code with
  | nil =>
    cases h
    rfl
  | cons instr program ih =>
    obtain ⟨f, hf, h⟩ := bind_eq_ok_iff.mp h
    obtain ⟨rest, hrest, h⟩ := bind_eq_ok_iff.mp h
    cases h
    rw [List.length_append, Instr.length_frame hf, ih hrest, streamSize]

/-! ## Images -/

namespace Image

/-- The header of the image fits its two 32-bit fields, for the number of instructions and for its length. -/
def HeaderFits (program : Program) (symbols : SymbolTable) : Prop :=
  program.length < UInt32.size
    ∧ (Header.toBytes ⟨formatVersion, program.length, symbols.names⟩).length < UInt32.size

theorem exists_fault_of_not_headerFits {program : Program} {symbols : SymbolTable}
    (h : ¬ HeaderFits program symbols) :
    ∃ fault, headerBytes program symbols = .error (.header fault) := by
  unfold headerBytes
  split
  · exact ⟨_, rfl⟩
  · rename_i hcount
    simp only
    split
    · exact ⟨_, rfl⟩
    · rename_i hlength
      exact absurd ⟨Nat.lt_of_not_le hcount, Nat.lt_of_not_le hlength⟩ h

theorem toBytes_bare_of_encode {program : Program} {error : EncodeError}
    (h : program.encode = .error error) : toBytes ⟨program, none⟩ = .error (.encode error) := by
  rw [toBytes, stream, h]
  rfl

theorem toBytes_container_of_encode {program : Program} {symbols : SymbolTable} {error : EncodeError}
    (h : program.encode = .error error) (hfits : HeaderFits program symbols) :
    toBytes ⟨program, some symbols⟩ = .error (.encode error) := by
  have hheader : headerBytes program symbols = .ok _ :=
    headerBytes_eq_ok_iff.mpr ⟨hfits.1, hfits.2, rfl⟩
  have hstream : stream program = .error (.encode error) := by
    rw [stream, h]
    rfl
  exact bind_eq_error_iff.mpr (.inr ⟨_, hheader, bind_eq_error_iff.mpr (.inl hstream)⟩)

/-- The header of a container is written first, so its failure comes before that of the stream. -/
theorem toBytes_of_not_headerFits {program : Program} {symbols : SymbolTable}
    (h : ¬ HeaderFits program symbols) :
    ∃ fault, toBytes ⟨program, some symbols⟩ = .error (.header fault) := by
  obtain ⟨fault, hfault⟩ := exists_fault_of_not_headerFits h
  exact ⟨fault, bind_eq_error_iff.mpr (.inl hfault)⟩

end Image

/-! ## The verdict -/

namespace Program

/-- The error is that of the first index that does not fit: it names the address of the first instruction
with such an index, and the first such index of that instruction. -/
def FirstOverflow (program : Program) : EncodeError → Prop
  | .indexOverflow address value =>
    ∃ (before : Program) (instr : Instr) (after : Program), program = before ++ instr :: after
      ∧ (∀ earlier ∈ before, ∀ index ∈ earlier.indices, index ≤ maxIndex)
      ∧ address = before.length ∧ overflow? instr.indices = some value

theorem encode_eq_error_iff {program : Program} {error : EncodeError} :
    program.encode = .error error ↔ program.FirstOverflow error := by
  obtain ⟨address, value⟩ := error
  rw [encode, encodeFrom_eq_error_iff]
  simp only [Nat.zero_add, overflow?_eq_none_iff]
  constructor
  · rintro ⟨before, instr, after, _, hprogram, hbefore, hvalue, heq⟩
    cases heq
    exact ⟨before, instr, after, hprogram, hbefore, rfl, hvalue⟩
  · rintro ⟨before, instr, after, hprogram, hbefore, rfl, hvalue⟩
    exact ⟨before, instr, after, value, hprogram, hbefore, hvalue, rfl⟩

/-- **When a program is written, and what is wrong with it if it is not.** Writing succeeds exactly if
every slot and every jump target fits in a word, and then the opcodes determine the length. Otherwise the
error names the first index that does not fit. The bare image of the program fails with the same error, and
so does the container, unless its header does not fit: then the error is that of the header. -/
theorem encode_overflow (program : Program) :
    ((∃ code, program.encode = .ok code)
        ↔ ∀ instr ∈ program, ∀ index ∈ instr.indices, index ≤ maxIndex)
      ∧ (∀ error, program.encode = .error error ↔ program.FirstOverflow error)
      ∧ (∀ code, program.encode = .ok code → code.length = program.streamSize)
      ∧ ∀ error, program.encode = .error error →
          Image.toBytes ⟨program, none⟩ = .error (.encode error)
            ∧ ∀ symbols,
              (Image.HeaderFits program symbols →
                  Image.toBytes ⟨program, some symbols⟩ = .error (.encode error))
                ∧ (¬ Image.HeaderFits program symbols →
                  ∃ fault, Image.toBytes ⟨program, some symbols⟩ = .error (.header fault)) := by
  refine ⟨exists_encode_iff, fun error => encode_eq_error_iff, fun code => length_of_encodeFrom, ?_⟩
  intro error h
  refine ⟨Image.toBytes_bare_of_encode h, ?_⟩
  intro symbols
  exact ⟨Image.toBytes_container_of_encode h, Image.toBytes_of_not_headerFits⟩

/-- A comparison of two literals, then an instruction with two slots that are too large, then another one. -/
def overflowing : Program :=
  [.compare .lt (.literal (-1)) (.literal 0x7fffffff),
    .arith .add 0x7fffffff (.slot 0x80000000) (.slot 0xffffffff), .jump 0x80000001]

theorem length_header_overflowing :
    (Header.toBytes ⟨Image.formatVersion, overflowing.length, []⟩).length = 3 := by
  have hcount : overflowing.length = 3 := rfl
  simp only [Header.toBytes, hcount, List.flatMap_nil]
  rw [Varint.toBytes_of_lt (by decide), Varint.toBytes_of_lt (by decide), Varint.toBytes_of_lt (by decide)]
  rfl

/-- The literals do not matter; the first slot that is too large does. -/
theorem encode_overflow_overflowing :
    overflowing.encode = .error (.indexOverflow 1 0x80000000)
      ∧ Image.toBytes ⟨overflowing, none⟩ = .error (.encode (.indexOverflow 1 0x80000000))
      ∧ Image.toBytes ⟨overflowing, some .empty⟩ = .error (.encode (.indexOverflow 1 0x80000000))
      ∧ ∃ code, encode (overflowing.take 1) = .ok code ∧ code.length = 13 := by
  obtain ⟨-, herror, -, himage⟩ := encode_overflow overflowing
  have hoverflow : overflowing.encode = .error (.indexOverflow 1 0x80000000) :=
    (herror _).mpr ⟨overflowing.take 1, _, overflowing.drop 2, rfl, by decide, rfl, rfl⟩
  obtain ⟨hbare, hcontainer⟩ := himage _ hoverflow
  refine ⟨hoverflow, hbare, ?_, ?_⟩
  · refine (hcontainer .empty).1 ⟨by decide, ?_⟩
    change (Header.toBytes ⟨_, _, []⟩).length < UInt32.size
    rw [length_header_overflowing]
    decide
  · obtain ⟨hfits, -, hlength, -⟩ := encode_overflow (overflowing.take 1)
    obtain ⟨code, hcode⟩ := hfits.mpr (by decide)
    exact ⟨code, hcode, hlength code hcode⟩

/-- **A single name can hide the error of the stream**, if the header gets too long with it. -/
theorem toBytes_longName {length : Nat} (h : UInt32.size ≤ length) {program : Program}
    {symbols : SymbolTable} (hname : longName length ∈ symbols.names) :
    ∃ fault, Image.toBytes ⟨program, some symbols⟩ = .error (.header fault) := by
  apply Image.toBytes_of_not_headerFits
  rintro ⟨-, hlength⟩
  have hlong : length ≤ (Header.toBytes ⟨Image.formatVersion, program.length, symbols.names⟩).length :=
    Header.length_le_of_longName hname
  omega

/-- A jump that is too far, beside a name with 4294967296 letters: the two layouts fail differently. -/
theorem toBytes_longName_size :
    encode [.jump 0x80000000] = .error (.indexOverflow 0 0x80000000)
      ∧ Image.toBytes ⟨[.jump 0x80000000], none⟩ = .error (.encode (.indexOverflow 0 0x80000000))
      ∧ Image.toBytes ⟨[.jump 0x80000000], some (SymbolTable.empty.insert (longName 4294967296))⟩
          ≠ .error (.encode (.indexOverflow 0 0x80000000)) := by
  have hencode : encode [.jump 0x80000000] = .error (.indexOverflow 0 0x80000000) :=
    encode_eq_error_iff.mpr ⟨[], _, [], rfl, by simp, rfl, rfl⟩
  refine ⟨hencode, Image.toBytes_bare_of_encode hencode, ?_⟩
  have hsize : UInt32.size ≤ 4294967296 := by decide
  obtain ⟨fault, hfault⟩ := toBytes_longName hsize (SymbolTable.mem_insert .empty _)
  intro hsame
  rw [hfault] at hsame
  cases hsame

end Program

end RegisterLang
