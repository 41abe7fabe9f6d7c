import RegisterLang.Program.Stream
import RegisterLang.Proofs.Results

/-!
# Programs and their streams

Writing and reading an instruction stream are inverse to each other. Each layer of the format has its
own statement of that kind: numbers of four bytes, words, tags, operands, frames, streams.

* `Bytes.words_flatMap`, `Bytes.flatMap_words`: words and their bytes.
* `Tag.ofByte?_eq_some_iff`: a byte is taken apart into the one valid tag that it is the byte of.
* `Frame.instr_of_frame`, `Frame.frame_of_instr`: a frame stands for the one instruction that it is
  the frame of.
* `Program.decodeFrom_append`: the stream of a program in front of any bytes is read as that program.
* `Program.decode_eq_ok_iff`: a stream is read as the program whose stream it is.
-/

namespace RegisterLang

/-! ## Numbers and words -/

namespace Bytes

theorem toNat32_ofNat {n : Nat} (h : n < UInt32.size) :
    toNat32 (UInt8.ofNat n) (UInt8.ofNat (n / 0x100)) (UInt8.ofNat (n / 0x10000))
      (UInt8.ofNat (n / 0x1000000)) = n := by
  unfold UInt32.size at h
  simp only [toNat32, UInt8.toNat_ofNat']
  omega

theorem ofNat32_toNat32 (a b c d : UInt8) : ofNat32 (toNat32 a b c d) = [a, b, c, d] := by
  have ha := a.toNat_lt
  have hb := b.toNat_lt
  have hc := c.toNat_lt
  have hd := d.toNat_lt
  simp only [ofNat32, toNat32, List.cons.injEq, ← UInt8.toNat_inj, UInt8.toNat_ofNat', and_true]
  omega

theorem toNat32_lt (a b c d : UInt8) : toNat32 a b c d < UInt32.size := by
  have ha := a.toNat_lt
  have hb := b.toNat_lt
  have hc := c.toNat_lt
  have hd := d.toNat_lt
  unfold toNat32 UInt32.size
  omega

/-- A word that was written is read back, whatever follows it. -/
theorem words_ofWord_append (w : Int32) (rest : Bytes) :
    words (ofWord w ++ rest) = w :: words rest := by
  have hlt : w.toUInt32.toNat < UInt32.size := w.toUInt32.toNat_lt
  simp only [ofWord, ofNat32, List.cons_append, List.nil_append, words, toNat32_ofNat hlt,
    UInt32.ofNat_toNat]
  simp

theorem words_flatMap (ws : List Int32) : words (ws.flatMap ofWord) = ws := by
  induction ws with
  | nil => rfl
  | cons w ws ih => rw [List.flatMap_cons, words_ofWord_append, ih]

theorem length_flatMap_ofWord (ws : List Int32) : (ws.flatMap ofWord).length = 4 * ws.length := by
  induction ws with
  | nil => rfl
  | cons w ws ih =>
    rw [List.flatMap_cons, List.length_append, ih, length_ofWord, List.length_cons]
    omega

theorem ofWord_toInt32 (a b c d : UInt8) :
    ofWord (UInt32.ofNat (toNat32 a b c d)).toInt32 = [a, b, c, d] := by
  have hlt := toNat32_lt a b c d
  rw [ofWord, UInt32.toUInt32_toInt32, UInt32.toNat_ofNat_of_lt' hlt, ofNat32_toNat32]

/-- Bytes in whole words are what is written for these words. -/
theorem flatMap_words {bytes : Bytes} {count : Nat} (h : bytes.length = 4 * count) :
    (words bytes).flatMap ofWord = bytes := by
  induction count generalizing bytes with
  | zero =>
    rw [List.length_eq_zero_iff.mp h]
    rfl
  | succ count ih =>
    match bytes, h with
    | a :: b :: c :: d :: rest, h =>
      simp only [List.length_cons] at h
      rw [words, List.flatMap_cons, ofWord_toInt32, ih (by omega)]
      rfl

theorem length_words : ∀ bytes : Bytes, (words bytes).length = bytes.length / 4
  | [] => by simp [words]
  | [_] => by simp [words]
  | [_, _] => by simp [words]
  | [_, _, _] => by simp [words]
  | _ :: _ :: _ :: _ :: rest => by
    have := length_words rest
    simp only [words, List.length_cons]
    omega

end Bytes

/-! ## Tags -/

theorem Opcode.number_of_ofNumber? {n : Nat} {opcode : Opcode} (h : ofNumber? n = some opcode) :
    opcode.number = n := by
  unfold ofNumber? at h
  split at h <;> cases h <;> rfl

theorem Opcode.number_lt (opcode : Opcode) : opcode.number < 10 := by
  cases opcode with
  | arith op => cases op <;> decide
  | _ => decide

namespace Tag

/-- Only an opcode with operands has literals among them. -/
def Valid (t : Tag) : Prop :=
  t.opcode.hasOperands = true ∨ (t.lhsLiteral = false ∧ t.rhsLiteral = false)

theorem toNat_toByte (t : Tag) :
    t.toByte.toNat = t.opcode.number + 16 * t.lhsLiteral.toNat + 32 * t.rhsLiteral.toNat := by
  have hnumber := t.opcode.number_lt
  have hlhs := t.lhsLiteral.toNat_lt
  have hrhs := t.rhsLiteral.toNat_lt
  rw [toByte, UInt8.toNat_ofNat']
  omega

theorem ofByte?_toByte {t : Tag} (h : t.Valid) : ofByte? t.toByte = some t := by
  have hnumber := t.opcode.number_lt
  have hlow : t.toByte.toNat % 16 = t.opcode.number := by
    rw [toNat_toByte]
    omega
  have hhigh : t.toByte.toNat / 16 = t.lhsLiteral.toNat + 2 * t.rhsLiteral.toNat := by
    rw [toNat_toByte]
    omega
  have hhigher : t.toByte.toNat / 32 = t.rhsLiteral.toNat := by
    have := t.lhsLiteral.toNat_lt
    rw [toNat_toByte]
    omega
  obtain ⟨opcode, lhsLiteral, rhsLiteral⟩ := t
  rw [ofByte?, hlow, Opcode.ofNumber?_number, hhigh, hhigher]
  rcases h with h | ⟨rfl, rfl⟩
  · simp only [h, if_true]
    cases lhsLiteral <;> cases rhsLiteral <;> simp
  · simp only [Bool.toNat_false]
    split <;> simp

theorem of_ofByte? {b : UInt8} {t : Tag} (h : ofByte? b = some t) : t.Valid ∧ t.toByte = b := by
  have hb := b.toNat_lt
  unfold ofByte? at h
  split at h
  · cases h
  · rename_i opcode hopcode
    obtain ⟨hhigh, ht⟩ := Option.ite_none_right_eq_some.mp h
    cases ht
    have hnumber := Opcode.number_of_ofNumber? hopcode
    constructor
    · by_cases hop : opcode.hasOperands = true
      · exact .inl hop
      · -- no bit above the opcode is set, so neither operand is marked as a literal
        rw [if_neg hop] at hhigh
        refine .inr ⟨?_, ?_⟩ <;> simp only [decide_eq_false_iff_not] <;> omega
    · have hfour : b.toNat / 16 < 4 := by
        split at hhigh <;> omega
      rw [← UInt8.toNat_inj, toNat_toByte]
      simp only [hnumber]
      by_cases hlhs : b.toNat / 16 % 2 = 1 <;> by_cases hrhs : b.toNat / 32 % 2 = 1 <;>
        simp only [hlhs, hrhs, decide_true, decide_false, Bool.toNat_true, Bool.toNat_false] <;>
        omega

/-- **A byte is taken apart into the one valid tag that it is the byte of.** -/
theorem ofByte?_eq_some_iff {b : UInt8} {t : Tag} : ofByte? b = some t ↔ t.Valid ∧ t.toByte = b := by
  constructor
  · exact of_ofByte?
  · rintro ⟨hvalid, rfl⟩
    exact ofByte?_toByte hvalid

end Tag

/-! ## Operands and frames -/

theorem indexOfWord_eq_ok_iff {offset address n : Nat} {w : Int32} :
    indexOfWord offset w = .ok n ↔ indexWord address n = .ok w := by
  have hlt := w.toInt_lt
  unfold indexOfWord indexWord
  constructor
  · intro h
    split at h
    · cases h
    · rename_i hneg
      cases h
      rw [Int32.lt_iff_toInt_lt, Int32.toInt_zero] at hneg
      have hnat : (w.toInt.toNat : Int) = w.toInt := Int.toNat_of_nonneg (by omega)
      rw [if_pos (by omega), ← Int32.ofInt_eq_ofNat, hnat, Int32.ofInt_toInt]
  · intro h
    split at h
    · rename_i hn
      cases h
      have hneg : ¬ Int32.ofNat n < 0 := by
        rw [Int32.lt_iff_toInt_lt, Int32.toInt_zero, Int32.toInt_ofNat_of_lt hn]
        omega
      rw [if_neg hneg, Int32.toInt_ofNat_of_lt hn]
      rfl
    · cases h

namespace Operand

theorem ofWord_eq_ok_iff {offset address : Nat} {isLiteral : Bool} {w : Int32} {o : Operand} :
    ofWord offset isLiteral w = .ok o ↔ o.word address = .ok w ∧ o.isLiteral = isLiteral := by
  unfold ofWord
  cases isLiteral with
  | true =>
    cases o with
    | literal value => simp [word, Operand.isLiteral, eq_comm]
    | slot index => simp [Operand.isLiteral]
  | false =>
    rw [if_neg (by simp), bind_eq_ok_iff]
    cases o with
    | literal value => simp [Operand.isLiteral]
    | slot index =>
      rw [word, ← indexOfWord_eq_ok_iff]
      constructor
      · rintro ⟨n, hn, h⟩
        cases h
        exact ⟨hn, rfl⟩
      · rintro ⟨hindex, -⟩
        exact ⟨index, hindex, rfl⟩

end Operand

theorem Relation.code_of_ofCode? {w : Int32} {r : Relation} (h : ofCode? w = some r) :
    r.code = w := by
  unfold ofCode? at h
  grind [code]

theorem Relation.ofWord_eq_ok_iff {offset : Nat} {w : Int32} {r : Relation} :
    ofWord offset w = .ok r ↔ r.code = w := by
  unfold ofWord
  constructor
  · intro h
    split at h
    · rename_i relation hcode
      cases h
      exact code_of_ofCode? hcode
    · cases h
  · rintro rfl
    rw [ofCode?_code]

/-- A frame that is written has a valid tag and as many words as its opcode takes. -/
theorem Instr.frame_wellFormed {address : Nat} {instr : Instr} {f : Frame}
    (h : instr.frame address = .ok f) :
    f.tag.Valid ∧ f.words.length = f.tag.opcode.arity ∧ f.tag.opcode = instr.opcode := by
  cases instr with
  | set dest value =>
    obtain ⟨d, -, h⟩ := bind_eq_ok_iff.mp h
    cases h
    exact ⟨.inr ⟨rfl, rfl⟩, rfl, rfl⟩
  | arith op dest lhs rhs =>
    obtain ⟨d, -, h⟩ := bind_eq_ok_iff.mp h
    obtain ⟨l, -, h⟩ := bind_eq_ok_iff.mp h
    obtain ⟨r, -, h⟩ := bind_eq_ok_iff.mp h
    cases h
    exact ⟨.inl rfl, rfl, rfl⟩
  | compare relation lhs rhs =>
    obtain ⟨l, -, h⟩ := bind_eq_ok_iff.mp h
    obtain ⟨r, -, h⟩ := bind_eq_ok_iff.mp h
    cases h
    exact ⟨.inl rfl, rfl, rfl⟩
  | jumpIfFalse index | jump index | ret index =>
    obtain ⟨w, -, h⟩ := bind_eq_ok_iff.mp h
    cases h
    exact ⟨.inr ⟨rfl, rfl⟩, rfl, rfl⟩

namespace Frame

theorem instr_of_frame {address : Nat} {instr : Instr} {f : Frame}
    (h : instr.frame address = .ok f) (offset available : Nat) :
    f.instr offset available = .ok instr := by
  cases instr with
  | set dest value =>
    obtain ⟨d, hd, h⟩ := bind_eq_ok_iff.mp h
    cases h
    exact bind_eq_ok_iff.mpr ⟨dest, indexOfWord_eq_ok_iff.mpr hd, rfl⟩
  | arith op dest lhs rhs =>
    obtain ⟨d, hd, h⟩ := bind_eq_ok_iff.mp h
    obtain ⟨l, hl, h⟩ := bind_eq_ok_iff.mp h
    obtain ⟨r, hr, h⟩ := bind_eq_ok_iff.mp h
    cases h
    refine bind_eq_ok_iff.mpr ⟨dest, indexOfWord_eq_ok_iff.mpr hd, ?_⟩
    refine bind_eq_ok_iff.mpr ⟨lhs, Operand.ofWord_eq_ok_iff.mpr ⟨hl, rfl⟩, ?_⟩
    exact bind_eq_ok_iff.mpr ⟨rhs, Operand.ofWord_eq_ok_iff.mpr ⟨hr, rfl⟩, rfl⟩
  | compare relation lhs rhs =>
    obtain ⟨l, hl, h⟩ := bind_eq_ok_iff.mp h
    obtain ⟨r, hr, h⟩ := bind_eq_ok_iff.mp h
    cases h
    refine bind_eq_ok_iff.mpr ⟨lhs, Operand.ofWord_eq_ok_iff.mpr ⟨hl, rfl⟩, ?_⟩
    refine bind_eq_ok_iff.mpr ⟨rhs, Operand.ofWord_eq_ok_iff.mpr ⟨hr, rfl⟩, ?_⟩
    exact bind_eq_ok_iff.mpr ⟨relation, Relation.ofWord_eq_ok_iff.mpr rfl, rfl⟩
  | jumpIfFalse index | jump index | ret index =>
    obtain ⟨w, hw, h⟩ := bind_eq_ok_iff.mp h
    cases h
    exact bind_eq_ok_iff.mpr ⟨index, indexOfWord_eq_ok_iff.mpr hw, rfl⟩

theorem frame_of_instr {offset available : Nat} {instr : Instr} {f : Frame} (hvalid : f.tag.Valid)
    (h : f.instr offset available = .ok instr) (address : Nat) : instr.frame address = .ok f := by
  obtain ⟨⟨opcode, lhsLiteral, rhsLiteral⟩, words⟩ := f
  unfold Frame.instr at h
  -- a tag without operands carries no literal marks, so nothing of the frame is lost
  split at h
  · rename_i d value hopcode hwords
    cases hopcode
    cases hwords
    obtain ⟨dest, hd, h⟩ := bind_eq_ok_iff.mp h
    cases h
    obtain ⟨rfl, rfl⟩ := hvalid.resolve_left (by simp [Opcode.hasOperands])
    exact bind_eq_ok_iff.mpr ⟨d, indexOfWord_eq_ok_iff.mp hd, rfl⟩
  · rename_i op d l r hopcode hwords
    cases hopcode
    cases hwords
    obtain ⟨dest, hd, h⟩ := bind_eq_ok_iff.mp h
    obtain ⟨lhs, hl, h⟩ := bind_eq_ok_iff.mp h
    obtain ⟨rhs, hr, h⟩ := bind_eq_ok_iff.mp h
    cases h
    obtain ⟨hl, rfl⟩ := Operand.ofWord_eq_ok_iff.mp hl
    obtain ⟨hr, rfl⟩ := Operand.ofWord_eq_ok_iff.mp hr
    refine bind_eq_ok_iff.mpr ⟨d, indexOfWord_eq_ok_iff.mp hd, ?_⟩
    refine bind_eq_ok_iff.mpr ⟨l, hl, ?_⟩
    exact bind_eq_ok_iff.mpr ⟨r, hr, rfl⟩
  · rename_i l r code hopcode hwords
    cases hopcode
    cases hwords
    obtain ⟨lhs, hl, h⟩ := bind_eq_ok_iff.mp h
    obtain ⟨rhs, hr, h⟩ := bind_eq_ok_iff.mp h
    obtain ⟨relation, hrelation, h⟩ := bind_eq_ok_iff.mp h
    cases h
    obtain ⟨hl, rfl⟩ := Operand.ofWord_eq_ok_iff.mp hl
    obtain ⟨hr, rfl⟩ := Operand.ofWord_eq_ok_iff.mp hr
    obtain rfl := Relation.ofWord_eq_ok_iff.mp hrelation
    refine bind_eq_ok_iff.mpr ⟨l, hl, ?_⟩
    exact bind_eq_ok_iff.mpr ⟨r, hr, rfl⟩
  · rename_i t hopcode hwords
    cases hopcode
    cases hwords
    obtain ⟨target, ht, h⟩ := bind_eq_ok_iff.mp h
    cases h
    obtain ⟨rfl, rfl⟩ := hvalid.resolve_left (by simp [Opcode.hasOperands])
    exact bind_eq_ok_iff.mpr ⟨t, indexOfWord_eq_ok_iff.mp ht, rfl⟩
  · rename_i t hopcode hwords
    cases hopcode
    cases hwords
    obtain ⟨target, ht, h⟩ := bind_eq_ok_iff.mp h
    cases h
    obtain ⟨rfl, rfl⟩ := hvalid.resolve_left (by simp [Opcode.hasOperands])
    exact bind_eq_ok_iff.mpr ⟨t, indexOfWord_eq_ok_iff.mp ht, rfl⟩
  · rename_i s hopcode hwords
    cases hopcode
    cases hwords
    obtain ⟨source, hs, h⟩ := bind_eq_ok_iff.mp h
    cases h
    obtain ⟨rfl, rfl⟩ := hvalid.resolve_left (by simp [Opcode.hasOperands])
    exact bind_eq_ok_iff.mpr ⟨s, indexOfWord_eq_ok_iff.mp hs, rfl⟩
  · cases h

theorem length_toBytes (f : Frame) : f.toBytes.length = 1 + 4 * f.words.length := by
  rw [toBytes, List.length_cons, Bytes.length_flatMap_ofWord]
  omega

end Frame

/-! ## Streams -/

namespace Program

/-- A stream that starts with a valid tag. -/
theorem decodeFrom_tag {tag : Tag} (hvalid : tag.Valid) (offset : Nat) (rest : Bytes) :
    decodeFrom offset (tag.toByte :: rest) = (do
      let operands := rest.take (4 * tag.opcode.arity)
      let instr ← Frame.instr offset operands.length ⟨tag, Bytes.words operands⟩
      let program ← decodeFrom (offset + 1 + 4 * tag.opcode.arity) (rest.drop (4 * tag.opcode.arity))
      .ok (instr :: program)) := by
  rw [decodeFrom, Tag.ofByte?_eq_some_iff.mpr ⟨hvalid, rfl⟩]

/-- One frame in front of any bytes. -/
theorem decodeFrom_frame_append {address : Nat} {instr : Instr} {f : Frame}
    (hf : instr.frame address = .ok f) (offset : Nat) (tail : Bytes) :
    decodeFrom offset (f.toBytes ++ tail)
      = (decodeFrom (offset + f.toBytes.length) tail).map (instr :: ·) := by
  obtain ⟨hvalid, harity, -⟩ := Instr.frame_wellFormed hf
  have hsize : (f.words.flatMap Bytes.ofWord).length = 4 * f.tag.opcode.arity := by
    rw [Bytes.length_flatMap_ofWord, harity]
  have hlength : f.toBytes.length = 1 + 4 * f.tag.opcode.arity := by
    rw [Frame.length_toBytes, harity]
  rw [Frame.toBytes, List.cons_append, decodeFrom_tag hvalid]
  simp only [List.take_left' hsize, List.drop_left' hsize, Bytes.words_flatMap,
    Frame.instr_of_frame hf]
  rw [← Frame.toBytes, hlength, ← Nat.add_assoc]
  cases decodeFrom (offset + 1 + 4 * f.tag.opcode.arity) tail <;> rfl

/-- **The stream of a program in front of any bytes**: the program is read, then the bytes. -/
theorem decodeFrom_append {address : Nat} {program : Program} {stream : Bytes}
    (h : program.encodeFrom address = .ok stream) (offset : Nat) (tail : Bytes) :
    decodeFrom offset (stream ++ tail)
      = (decodeFrom (offset + stream.length) tail).map (program ++ ·) := by
  induction program generalizing address offset stream with
  | nil =>
    cases h
    rw [List.nil_append, List.length_nil, Nat.add_zero]
    cases decodeFrom offset tail <;> rfl
  | cons instr program ih =>
    obtain ⟨f, hf, h⟩ := bind_eq_ok_iff.mp h
    obtain ⟨rest, hrest, h⟩ := bind_eq_ok_iff.mp h
    cases h
    rw [List.append_assoc, decodeFrom_frame_append hf, ih hrest, List.length_append, Nat.add_assoc]
    cases decodeFrom (offset + (f.toBytes.length + rest.length)) tail <;> rfl

theorem decodeFrom_nil (offset : Nat) : decodeFrom offset [] = .ok [] := by rw [decodeFrom]

/-- The bytes from a tag on are those of the frame that was read, and what follows it: had there been fewer
than the opcode takes, no instruction would have come of them. -/
theorem exists_frame_of_instr {offset available : Nat} {tag : Tag} {rest : Bytes} {instr : Instr}
    (hvalid : tag.Valid)
    (h : Frame.instr offset available ⟨tag, Bytes.words (rest.take (4 * tag.opcode.arity))⟩ = .ok instr)
    (address : Nat) :
    ∃ f, instr.frame address = .ok f ∧ f.toBytes.length = 1 + 4 * tag.opcode.arity
      ∧ tag.toByte :: rest = f.toBytes ++ rest.drop (4 * tag.opcode.arity) := by
  have hframe := Frame.frame_of_instr hvalid h address
  obtain ⟨-, harity, -⟩ := Instr.frame_wellFormed hframe
  refine ⟨_, hframe, by rw [Frame.length_toBytes, harity], ?_⟩
  rw [Bytes.length_words] at harity
  have hlength : (rest.take (4 * tag.opcode.arity)).length = 4 * tag.opcode.arity := by
    have hle := List.length_take_le (4 * tag.opcode.arity) rest
    simp only at harity
    omega
  rw [Frame.toBytes, Bytes.flatMap_words hlength, List.cons_append, List.take_append_drop]

/-- **Bytes that are read as a program are its stream.** -/
theorem encodeFrom_of_decodeFrom {offset : Nat} {bytes : Bytes} {program : Program}
    (h : decodeFrom offset bytes = .ok program) (address : Nat) :
    program.encodeFrom address = .ok bytes := by
  -- the induction follows the reader, frame by frame
  fun_induction decodeFrom offset bytes generalizing program address with
  | case1 =>
    cases h
    rfl
  | case2 => cases h
  | case3 offset byte rest tag hbyte size operands =>
    rename_i ih
    obtain ⟨instr, hinstr, h⟩ := bind_eq_ok_iff.mp h
    obtain ⟨program, hprogram, h⟩ := bind_eq_ok_iff.mp h
    cases h
    obtain ⟨hvalid, rfl⟩ := Tag.ofByte?_eq_some_iff.mp hbyte
    obtain ⟨f, hframe, -, hbytes⟩ := exists_frame_of_instr hvalid hinstr address
    have hrest := ih hprogram (address + 1)
    rw [hbytes]
    exact bind_eq_ok_iff.mpr ⟨f, hframe, bind_eq_ok_iff.mpr ⟨_, hrest, rfl⟩⟩

/-- A program is read from its stream at every offset. -/
theorem decodeFrom_of_encode {program : Program} {code : Bytes} (h : program.encode = .ok code)
    (offset : Nat) : decodeFrom offset code = .ok program := by
  have hread := decodeFrom_append h offset []
  rw [List.append_nil, decodeFrom_nil] at hread
  rw [hread, Except.map, List.append_nil]

/-- The stream of a program is read as that program. -/
theorem decode_of_encode {program : Program} {bytes : Bytes} (h : program.encode = .ok bytes) :
    Program.decode bytes = .ok program := decodeFrom_of_encode h 0

/-- **A stream is read as the program whose stream it is**, so a program has one stream and a stream
one program: reading accepts what writing produces and nothing else. -/
theorem decode_eq_ok_iff (program : Program) (bytes : Bytes) :
    Program.decode bytes = .ok program ↔ program.encode = .ok bytes := by
  constructor
  · intro h
    exact encodeFrom_of_decodeFrom h 0
  · intro h
    exact decode_of_encode h

end Program

end RegisterLang
