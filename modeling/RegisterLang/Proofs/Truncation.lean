import RegisterLang.Proofs.Encoding

/-!
# Streams that are cut off

The opcodes of a program fix where its frames end. A stream that is cut off between two frames is that of
the first instructions; cut off anywhere else it is reported as truncated, before any word is looked at.

* `Program.exists_frame_at`: a place in a stream lies at the start of a frame or inside it.
* `Program.decode_of_take`: the stream up to the end of a frame.
* `Program.decode_of_cut`: the stream up to a place inside a frame.
* `Program.decode_take`: every place at which a stream can be cut off.
-/

namespace RegisterLang.Program

/-! ## Where frames end -/

theorem streamSize_append (before after : Program) :
    streamSize (before ++ after) = before.streamSize + after.streamSize := by
  induction before with
  | nil => exact (Nat.zero_add _).symm
  | cons instr before ih => rw [List.cons_append, streamSize, ih, streamSize, Nat.add_assoc]

/-- The frame in which a place of the stream lies. -/
theorem exists_frame_at {program : Program} {place : Nat} (h : place < program.streamSize) :
    ∃ (before : Program) (instr : Instr) (after : Program), program = before ++ instr :: after
      ∧ before.streamSize ≤ place ∧ place < before.streamSize + instr.frameSize := by
  induction program generalizing place with
  | nil => exact absurd h (Nat.not_lt_zero place)
  | cons first program ih =>
    rw [streamSize] at h
    by_cases hfirst : place < first.frameSize
    · exact ⟨[], first, program, rfl, Nat.zero_le place, by rwa [streamSize, Nat.zero_add]⟩
    · have hrest : place - first.frameSize < streamSize program := by omega
      obtain ⟨before, instr, after, rfl, hlow, hhigh⟩ := ih hrest
      refine ⟨first :: before, instr, after, rfl, ?_, ?_⟩ <;> rw [streamSize] <;> omega

/-- The instructions in front of that frame are as many as end before the place. -/
theorem streamSize_take_le_iff {before after : Program} {instr : Instr} {place count : Nat}
    (hlow : before.streamSize ≤ place) (hhigh : place < before.streamSize + instr.frameSize) :
    streamSize ((before ++ instr :: after).take count) ≤ place ↔ count ≤ before.length := by
  constructor
  · intro hsize
    apply Nat.le_of_not_lt
    intro hcount
    obtain ⟨more, rfl⟩ := Nat.exists_eq_add_of_lt hcount
    have htake : (before ++ instr :: after).take (before.length + more + 1)
        = before ++ instr :: after.take more := by
      rw [Nat.add_assoc, List.take_length_add_append, List.take_succ_cons]
    rw [htake, streamSize_append, streamSize] at hsize
    omega
  · intro hcount
    have hsplit := streamSize_append (before.take count) (before.drop count)
    rw [List.take_append_drop] at hsplit
    rw [List.take_append_of_le_length hcount]
    omega

/-! ## What is read -/

/-- The stream of a program consists of the streams of its two parts. -/
theorem exists_append_of_encodeFrom {address : Nat} {before after : Program} {code : Bytes}
    (h : encodeFrom address (before ++ after) = .ok code) :
    ∃ front back, before.encodeFrom address = .ok front
      ∧ after.encodeFrom (address + before.length) = .ok back ∧ code = front ++ back := by
  induction before generalizing address code with
  | nil => exact ⟨[], code, rfl, h, rfl⟩
  | cons instr before ih =>
    obtain ⟨f, hf, h⟩ := bind_eq_ok_iff.mp h
    obtain ⟨rest, hrest, h⟩ := bind_eq_ok_iff.mp h
    cases h
    obtain ⟨front, back, hfront, hback, rfl⟩ := ih hrest
    refine ⟨f.toBytes ++ front, back, ?_, ?_, (List.append_assoc ..).symm⟩
    · exact bind_eq_ok_iff.mpr ⟨f, hf, bind_eq_ok_iff.mpr ⟨front, hfront, rfl⟩⟩
    · rwa [List.length_cons, Nat.add_comm before.length, ← Nat.add_assoc]

/-- **A stream that is cut off between two frames** is that of the instructions in front. -/
theorem decode_of_take {before after : Program} {code : Bytes}
    (h : encode (before ++ after) = .ok code) :
    decode (code.take before.streamSize) = .ok before := by
  obtain ⟨front, back, hfront, -, rfl⟩ := exists_append_of_encodeFrom h
  rw [← length_of_encodeFrom hfront, List.take_left]
  exact decode_of_encode hfront

/-- **A stream that is cut off inside a frame** is truncated there: behind the tag stand only some of the
bytes that the opcode takes. -/
theorem decode_of_cut {before after : Program} {instr : Instr} {code : Bytes} {available : Nat}
    (h : encode (before ++ instr :: after) = .ok code)
    (havailable : available < 4 * instr.opcode.arity) :
    decode (code.take (before.streamSize + (1 + available)))
      = .error (.truncated before.streamSize instr.opcode (4 * instr.opcode.arity) available) := by
  obtain ⟨front, back, hfront, hback, rfl⟩ := exists_append_of_encodeFrom h
  obtain ⟨f, hf, hback⟩ := bind_eq_ok_iff.mp hback
  obtain ⟨rest, -, hback⟩ := bind_eq_ok_iff.mp hback
  cases hback
  obtain ⟨hvalid, harity, hopcode⟩ := Instr.frame_wellFormed hf
  have hsize : (f.words.flatMap Bytes.ofWord).length = 4 * instr.opcode.arity := by
    rw [Bytes.length_flatMap_ofWord, harity, hopcode]
  have hoperands : ((f.words.flatMap Bytes.ofWord).take available).length = available := by
    rw [List.length_take, hsize]
    omega
  have hcut : (front ++ (f.toBytes ++ rest)).take (front.length + (1 + available))
      = front ++ (f.tag.toByte :: (f.words.flatMap Bytes.ofWord).take available ++ []) := by
    rw [List.take_length_add_append, Nat.add_comm 1, Frame.toBytes, List.cons_append, List.take_succ_cons,
      List.take_append_of_le_length (by omega), List.append_nil]
  have hmalformed : Frame.Malformed (0 + front.length)
      (f.tag.toByte :: (f.words.flatMap Bytes.ofWord).take available)
      (.truncated (0 + front.length) f.tag.opcode (4 * f.tag.opcode.arity)
        ((f.words.flatMap Bytes.ofWord).take available).length) :=
    .truncated hvalid (by rw [hoperands, hopcode]; exact havailable)
  rw [hoperands, hopcode] at hmalformed
  rw [← length_of_encodeFrom hfront, hcut, ← Nat.zero_add front.length]
  exact decodeFrom_eq_error_iff.mpr ⟨before, front, _, [], hfront, rfl, hmalformed, fun _ => rfl⟩

/-- **Truncation is detected exactly.** The first bytes of a stream are read as the first instructions if
they end where a frame does. Otherwise the frame that is cut off is reported: the offset of its tag, its
opcode with the number of bytes that this takes, and how many of them are there. -/
theorem decode_take {program : Program} {code : Bytes} (h : program.encode = .ok code) {place : Nat}
    (hplace : place ≤ code.length) :
    (∀ count ≤ program.length, place = streamSize (program.take count) →
        decode (code.take place) = .ok (program.take count))
      ∧ ((∀ count ≤ program.length, place ≠ streamSize (program.take count)) →
        ∃ (count : Nat) (instr : Instr) (offset expected available : Nat), program[count]? = some instr
          ∧ (∀ other ≤ program.length, streamSize (program.take other) ≤ place ↔ other ≤ count)
          ∧ offset = streamSize (program.take count) ∧ expected = 4 * instr.opcode.arity
          ∧ available = place - offset - 1
          ∧ decode (code.take place) = .error (.truncated offset instr.opcode expected available)
          ∧ (DecodeError.truncated offset instr.opcode expected available).message
            = "decode error: byte " ++ offset.repr ++ ": " ++ instr.opcode.mnemonic ++ " needs "
              ++ (4 * instr.opcode.arity).repr ++ " operand bytes, only " ++ available.repr
              ++ " remain") := by
  constructor
  · rintro count - rfl
    rw [← List.take_append_drop count program] at h
    exact decode_of_take h
  · intro hinside
    have hsize := length_of_encodeFrom h
    have hwhole := hinside program.length (Nat.le_refl _)
    rw [List.take_length] at hwhole
    have hshort : place < program.streamSize := by omega
    obtain ⟨before, instr, after, rfl, hlow, hhigh⟩ := exists_frame_at hshort
    have hbefore : (before ++ instr :: after).take before.length = before := List.take_left
    have hstart := hinside before.length (by simp)
    rw [hbefore] at hstart
    refine ⟨before.length, instr, before.streamSize, _, place - before.streamSize - 1, by simp, ?_,
      by rw [hbefore], rfl, rfl, ?_, rfl⟩
    · intro other _
      exact streamSize_take_le_iff hlow hhigh
    · have havailable : place - before.streamSize - 1 < 4 * instr.opcode.arity := by
        rw [Instr.frameSize] at hhigh
        omega
      have hsplit : place = before.streamSize + (1 + (place - before.streamSize - 1)) := by omega
      have hcut := decode_of_cut h havailable
      rwa [← hsplit] at hcut

/-- A frame of nine bytes and one of thirteen. -/
def twoFrames : Program := [.set 0 300, .arith .sub 1 (.slot 0) (.literal 5)]

/-- The stream of `twoFrames`. -/
def twoFramesCode : Bytes :=
  [0, 0, 0, 0, 0, 44, 1, 0, 0] ++ [34, 1, 0, 0, 0, 0, 0, 0, 0, 5, 0, 0, 0]

theorem decode_take_twoFrames :
    twoFrames.encode = .ok twoFramesCode
      ∧ decode (twoFramesCode.take 9) = .ok [.set 0 300]
      ∧ decode (twoFramesCode.take 15) = .error (.truncated 9 (.arith .sub) 12 5) := by
  have hcode : twoFrames.encode = .ok twoFramesCode := rfl
  obtain ⟨hwhole, -⟩ := decode_take hcode (by decide : 9 ≤ twoFramesCode.length)
  obtain ⟨-, hcut⟩ := decode_take hcode (by decide : 15 ≤ twoFramesCode.length)
  refine ⟨hcode, hwhole 1 (by decide) rfl, ?_⟩
  obtain ⟨count, instr, offset, expected, available, hinstr, hcount, rfl, rfl, rfl, herror, -⟩ :=
    hcut (by decide)
  have hone : count = 1 := by
    have hfirst := (hcount 1 (by decide)).mp (by decide)
    have hsecond := mt (hcount 2 (by decide)).mpr (by decide)
    omega
  subst hone
  cases hinstr
  exact herror

end RegisterLang.Program
