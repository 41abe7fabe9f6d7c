import RegisterLang.Proofs.Stream

/-!
# Malformed streams

A stream that cannot be read starts with whole frames, and then comes a frame with a fault. The error is
that of the frame: what stands before it only moves the offset, and what stands behind it does not matter.

* `WordRole`, `Tag.roles`: what the words of a frame stand for. `WordRole.error?`: what is wrong with one.
* `Frame.failure?_instr`: a frame of full length fails with the first of its words that is wrong.
* `Frame.Malformed`: the frames that cannot be read, each with its error.
* `Program.decodeFrom_eq_error_iff`: a stream fails exactly with the error of its first malformed frame.
* `Program.decode_framed`: reading goes frame by frame, whether the stream is read or not.
-/

namespace RegisterLang

/-! ## The failure of a computation -/

/-- The error with which a computation fails. -/
def failure? {ε α : Type} : Except ε α → Option ε
  | .error e => some e
  | .ok _ => none

theorem failure?_eq_some_iff {ε α : Type} {x : Except ε α} {e : ε} :
    failure? x = some e ↔ x = .error e := by
  cases x <;> simp [failure?]

theorem failure?_eq_none_iff {ε α : Type} {x : Except ε α} :
    failure? x = none ↔ ∃ a, x = .ok a := by
  cases x <;> simp [failure?]

/-- A computation fails with its first step, or else with what follows. -/
theorem failure?_bind {ε α β : Type} {x : Except ε α} {next : α → Except ε β} (rest : Option ε)
    (h : ∀ a, failure? (next a) = rest) : failure? (x >>= next) = (failure? x).or rest := by
  cases x with
  | error e => rfl
  | ok a => exact h a

/-! ## Errors -/

namespace DecodeError

/-- The error says that the stream ends inside a frame. -/
def isTruncated : DecodeError → Bool
  | truncated .. => true
  | _ => false

/-- The same error in a stream that starts the given distance earlier. -/
def shift (distance : Nat) : DecodeError → DecodeError
  | truncated offset opcode expected available =>
    truncated (offset + distance) opcode expected available
  | unknownTag offset tag => unknownTag (offset + distance) tag
  | unknownRelation offset code => unknownRelation (offset + distance) code
  | negativeIndex offset value => negativeIndex (offset + distance) value

theorem isTruncated_shift (distance : Nat) (error : DecodeError) :
    (error.shift distance).isTruncated = error.isTruncated := by
  cases error <;> rfl

end DecodeError

/-! ## The words of a frame -/

theorem Relation.code_ne_of_ofCode? {w : Int32} (h : ofCode? w = none) (r : Relation) : r.code ≠ w := by
  rintro rfl
  rw [ofCode?_code] at h
  cases h

/-- What a word of a frame stands for. -/
inductive WordRole
  | index | literal | relation
deriving DecidableEq, Repr

namespace WordRole

/-- The role of an operand's word. -/
def ofOperand (isLiteral : Bool) : WordRole := if isLiteral then literal else index

/-- The words that can stand in the role. -/
def Accepts : WordRole → Int32 → Prop
  | index, w => 0 ≤ w.toInt
  | literal, _ => True
  | relation, w => ∃ r : Relation, r.code = w

/-- What is wrong with the word at an offset. -/
def error? (offset : Nat) : WordRole → Int32 → Option DecodeError
  | index, w => if w < 0 then some (.negativeIndex offset w) else none
  | literal, _ => none
  | relation, w =>
    match Relation.ofCode? w with
    | some _ => none
    | none => some (.unknownRelation offset w)

/-- Nothing can be wrong with a literal; with an index, that it is negative; with a relation, that there
is none with such a number. -/
theorem error?_eq_some_iff {offset : Nat} {role : WordRole} {w : Int32} {error : DecodeError} :
    role.error? offset w = some error ↔
      (role = .index ∧ w.toInt < 0 ∧ error = .negativeIndex offset w)
        ∨ (role = .relation ∧ (∀ r : Relation, r.code ≠ w) ∧ error = .unknownRelation offset w) := by
  cases role with
  | index => simp [error?, Int32.lt_iff_toInt_lt, eq_comm]
  | literal => simp [error?]
  | relation =>
    cases hcode : Relation.ofCode? w with
    | some r =>
      have hknown : ¬ ∀ r : Relation, r.code ≠ w := fun h => h r (Relation.code_of_ofCode? hcode)
      simp [error?, hcode, hknown]
    | none =>
      have hunknown : ∀ r : Relation, r.code ≠ w := Relation.code_ne_of_ofCode? hcode
      simp [error?, hcode, hunknown, eq_comm]

theorem error?_eq_none_iff {offset : Nat} {role : WordRole} {w : Int32} :
    role.error? offset w = none ↔ role.Accepts w := by
  cases role with
  | index => simp [error?, Accepts, Int32.lt_iff_toInt_lt]
  | literal => simp [error?, Accepts]
  | relation =>
    cases hcode : Relation.ofCode? w with
    | some r =>
      have hknown : ∃ r : Relation, r.code = w := ⟨r, Relation.code_of_ofCode? hcode⟩
      simp [error?, Accepts, hcode, hknown]
    | none =>
      have hunknown : ∀ r : Relation, r.code ≠ w := Relation.code_ne_of_ofCode? hcode
      simp [error?, Accepts, hcode, hunknown]

/-- What is wrong with the first of the words, from an offset on, that cannot stand in its role. -/
def firstError? : (offset : Nat) → List WordRole → List Int32 → Option DecodeError
  | offset, role :: roles, w :: words =>
    (role.error? offset w).or (firstError? (offset + 4) roles words)
  | _, _, _ => none

/-- The words in front of a place can all stand in their roles. -/
def AcceptsBefore (roles : List WordRole) (words : List Int32) (place : Nat) : Prop :=
  ∀ i < place, ∀ role w, roles[i]? = some role → words[i]? = some w → role.Accepts w

theorem acceptsBefore_cons {role : WordRole} {roles : List WordRole} {w : Int32} {words : List Int32}
    {place : Nat} :
    AcceptsBefore (role :: roles) (w :: words) (place + 1)
      ↔ role.Accepts w ∧ AcceptsBefore roles words place := by
  constructor
  · intro h
    exact ⟨h 0 (Nat.succ_pos place) role w rfl rfl, fun i hi => h (i + 1) (Nat.succ_lt_succ hi)⟩
  · rintro ⟨hfirst, hrest⟩ i hi role' w' hrole hword
    cases i with
    | zero =>
      cases hrole
      cases hword
      exact hfirst
    | succ i => exact hrest i (Nat.lt_of_succ_lt_succ hi) role' w' hrole hword

theorem firstError?_eq_some_iff {offset : Nat} {roles : List WordRole} {words : List Int32}
    {error : DecodeError} :
    firstError? offset roles words = some error ↔ ∃ (place : Nat) (role : WordRole) (w : Int32),
      roles[place]? = some role ∧ words[place]? = some w ∧ AcceptsBefore roles words place
        ∧ role.error? (offset + 4 * place) w = some error := by
  induction roles generalizing offset words with
  | nil => simp [firstError?]
  | cons role roles ih =>
    cases words with
    | nil => simp [firstError?]
    | cons w words =>
      have hoffset (place : Nat) : offset + 4 * (place + 1) = offset + 4 + 4 * place := by omega
      rw [firstError?, Option.or_eq_some_iff, ih]
      constructor
      · rintro (herror | ⟨hnone, place, role', w', hrole, hword, hbefore, herror⟩)
        · exact ⟨0, role, w, rfl, rfl, fun i hi => absurd hi (Nat.not_lt_zero i), herror⟩
        · rw [← hoffset] at herror
          exact ⟨place + 1, role', w', hrole, hword,
            acceptsBefore_cons.mpr ⟨error?_eq_none_iff.mp hnone, hbefore⟩, herror⟩
      · rintro ⟨place, role', w', hrole, hword, hbefore, herror⟩
        cases place with
        | zero =>
          cases hrole
          cases hword
          exact .inl herror
        | succ place =>
          obtain ⟨hfirst, hbefore⟩ := acceptsBefore_cons.mp hbefore
          rw [hoffset] at herror
          exact .inr ⟨error?_eq_none_iff.mpr hfirst, place, role', w', hrole, hword, hbefore, herror⟩

end WordRole

/-- What the words behind a tag stand for. -/
def Tag.roles (t : Tag) : List WordRole :=
  match t.opcode with
  | .set => [.index, .literal]
  | .arith _ => [.index, .ofOperand t.lhsLiteral, .ofOperand t.rhsLiteral]
  | .compare => [.ofOperand t.lhsLiteral, .ofOperand t.rhsLiteral, .relation]
  | .jumpIfFalse | .jump | .ret => [.index]

theorem failure?_indexOfWord (offset : Nat) (w : Int32) :
    failure? (indexOfWord offset w) = WordRole.index.error? offset w := by
  simp only [indexOfWord, WordRole.error?]
  split <;> rfl

theorem failure?_operand (offset : Nat) (isLiteral : Bool) (w : Int32) :
    failure? (Operand.ofWord offset isLiteral w)
      = (WordRole.ofOperand isLiteral).error? offset w := by
  cases isLiteral with
  | true => rfl
  | false =>
    have hbind : failure? (Operand.ofWord offset false w) = (failure? (indexOfWord offset w)).or none :=
      failure?_bind none fun _ => rfl
    rw [hbind, failure?_indexOfWord, Option.or_none]
    rfl

theorem failure?_relation (offset : Nat) (w : Int32) :
    failure? (Relation.ofWord offset w) = WordRole.relation.error? offset w := by
  simp only [Relation.ofWord, WordRole.error?]
  cases Relation.ofCode? w <;> rfl

namespace Frame

/-- **A frame of full length fails with the first of its words that is wrong.** -/
theorem failure?_instr {f : Frame} (h : f.words.length = f.tag.opcode.arity) (offset available : Nat) :
    failure? (f.instr offset available) = WordRole.firstError? (offset + 1) f.tag.roles f.words := by
  obtain ⟨⟨opcode, lhsLiteral, rhsLiteral⟩, words⟩ := f
  -- in each arm the words are read in the order of their roles
  cases opcode with
  | set =>
    match words, h with
    | [d, value], _ =>
      refine (failure?_bind none fun _ => rfl).trans ?_
      rw [failure?_indexOfWord]
      rfl
  | arith op =>
    match words, h with
    | [d, l, r], _ =>
      refine (failure?_bind _ fun _ => failure?_bind _ fun _ => failure?_bind none fun _ => rfl).trans ?_
      rw [failure?_indexOfWord, failure?_operand, failure?_operand]
      rfl
  | compare =>
    match words, h with
    | [l, r, code], _ =>
      refine (failure?_bind _ fun _ => failure?_bind _ fun _ => failure?_bind none fun _ => rfl).trans ?_
      rw [failure?_operand, failure?_operand, failure?_relation]
      rfl
  | jumpIfFalse | jump | ret =>
    match words, h with
    | [index], _ =>
      refine (failure?_bind none fun _ => rfl).trans ?_
      rw [failure?_indexOfWord]
      rfl

/-- A frame with too few words is cut off. -/
theorem instr_of_length_ne {f : Frame} (h : f.words.length ≠ f.tag.opcode.arity)
    (offset available : Nat) :
    f.instr offset available
      = .error (.truncated offset f.tag.opcode (4 * f.tag.opcode.arity) available) := by
  obtain ⟨⟨opcode, lhsLiteral, rhsLiteral⟩, words⟩ := f
  unfold instr
  split
  case h_7 => rfl
  all_goals
    rename_i hopcode hwords
    cases hopcode
    cases hwords
    exact absurd rfl h

/-! ## Malformed frames -/

/-- The bytes at an offset are a frame that cannot be read. Either no frame starts with the first byte, or
the bytes are too few, or one of the words cannot stand in its role and all words before it can. -/
inductive Malformed (offset : Nat) : Bytes → DecodeError → Prop
  | unknownTag {byte : UInt8} (htag : ∀ tag : Tag, tag.Valid → tag.toByte ≠ byte) :
    Malformed offset [byte] (.unknownTag offset byte)
  | truncated {tag : Tag} {operands : Bytes} (hvalid : tag.Valid)
    (hshort : operands.length < 4 * tag.opcode.arity) :
    Malformed offset (tag.toByte :: operands)
      (.truncated offset tag.opcode (4 * tag.opcode.arity) operands.length)
  | negativeIndex {f : Frame} {place : Nat} {w : Int32} (hvalid : f.tag.Valid)
    (harity : f.words.length = f.tag.opcode.arity)
    (hbefore : WordRole.AcceptsBefore f.tag.roles f.words place)
    (hrole : f.tag.roles[place]? = some .index) (hword : f.words[place]? = some w)
    (hnegative : w.toInt < 0) :
    Malformed offset f.toBytes (.negativeIndex (offset + 1 + 4 * place) w)
  | unknownRelation {f : Frame} {place : Nat} {w : Int32} (hvalid : f.tag.Valid)
    (harity : f.words.length = f.tag.opcode.arity)
    (hbefore : WordRole.AcceptsBefore f.tag.roles f.words place)
    (hrole : f.tag.roles[place]? = some .relation) (hword : f.words[place]? = some w)
    (hunknown : ∀ r : Relation, r.code ≠ w) :
    Malformed offset f.toBytes (.unknownRelation (offset + 1 + 4 * place) w)

/-- A frame of full length that gives no instruction is malformed. -/
theorem malformed_of_instr {f : Frame} {offset available : Nat} {error : DecodeError}
    (hvalid : f.tag.Valid) (harity : f.words.length = f.tag.opcode.arity)
    (h : f.instr offset available = .error error) :
    Malformed offset f.toBytes error ∧ error.isTruncated = false := by
  have hfailure := failure?_eq_some_iff.mpr h
  rw [failure?_instr harity] at hfailure
  obtain ⟨place, role, w, hrole, hword, hbefore, herror⟩ := WordRole.firstError?_eq_some_iff.mp hfailure
  rcases WordRole.error?_eq_some_iff.mp herror with ⟨rfl, hnegative, rfl⟩ | ⟨rfl, hunknown, rfl⟩
  · exact ⟨.negativeIndex hvalid harity hbefore hrole hword hnegative, rfl⟩
  · exact ⟨.unknownRelation hvalid harity hbefore hrole hword hunknown, rfl⟩

/-- A word that cannot stand in its role is the reason why a frame gives no instruction. -/
theorem instr_of_error? {f : Frame} {offset available place : Nat} {role : WordRole} {w : Int32}
    {error : DecodeError} (harity : f.words.length = f.tag.opcode.arity)
    (hbefore : WordRole.AcceptsBefore f.tag.roles f.words place)
    (hrole : f.tag.roles[place]? = some role) (hword : f.words[place]? = some w)
    (herror : role.error? (offset + 1 + 4 * place) w = some error) :
    f.instr offset available = .error error := by
  rw [← failure?_eq_some_iff, failure?_instr harity]
  exact WordRole.firstError?_eq_some_iff.mpr ⟨place, role, w, hrole, hword, hbefore, herror⟩

/-- A frame further back is malformed in the same way. -/
theorem Malformed.shift {offset : Nat} {frame : Bytes} {error : DecodeError}
    (h : Malformed offset frame error) (distance : Nat) :
    Malformed (offset + distance) frame (error.shift distance) := by
  have hword (place : Nat) :
      offset + 1 + 4 * place + distance = offset + distance + 1 + 4 * place := by omega
  cases h with
  | unknownTag htag => exact .unknownTag htag
  | truncated hvalid hshort => exact .truncated hvalid hshort
  | negativeIndex hvalid harity hbefore hrole hword' hnegative =>
    rw [DecodeError.shift, hword]
    exact .negativeIndex hvalid harity hbefore hrole hword' hnegative
  | unknownRelation hvalid harity hbefore hrole hword' hunknown =>
    rw [DecodeError.shift, hword]
    exact .unknownRelation hvalid harity hbefore hrole hword' hunknown

end Frame

/-! ## Malformed streams -/

namespace Program

/-- A frame that gives no instruction is the reason why a stream that starts with it is not read. -/
theorem decodeFrom_of_instr {f : Frame} {offset : Nat} {error : DecodeError} (hvalid : f.tag.Valid)
    (harity : f.words.length = f.tag.opcode.arity) (rest : Bytes)
    (h : ∀ available, f.instr offset available = .error error) :
    decodeFrom offset (f.toBytes ++ rest) = .error error := by
  have hsize : (f.words.flatMap Bytes.ofWord).length = 4 * f.tag.opcode.arity := by
    rw [Bytes.length_flatMap_ofWord, harity]
  rw [Frame.toBytes, List.cons_append, decodeFrom_tag hvalid]
  simp only [List.take_left' hsize, Bytes.words_flatMap]
  exact bind_eq_error_iff.mpr (.inl (h _))

/-- **A malformed frame is the reason why a stream that starts with it is not read**, whatever follows. -/
theorem decodeFrom_of_malformed {offset : Nat} {frame rest : Bytes} {error : DecodeError}
    (h : Frame.Malformed offset frame error) (hrest : error.isTruncated = true → rest = []) :
    decodeFrom offset (frame ++ rest) = .error error := by
  cases h with
  | @unknownTag byte htag =>
    have hbyte : Tag.ofByte? byte = none := by
      cases hsome : Tag.ofByte? byte with
      | none => rfl
      | some tag =>
        obtain ⟨hvalid, hbyte⟩ := Tag.ofByte?_eq_some_iff.mp hsome
        exact absurd hbyte (htag tag hvalid)
    rw [List.singleton_append, decodeFrom, hbyte]
  | @truncated tag operands hvalid hshort =>
    have htake : operands.take (4 * tag.opcode.arity) = operands := List.take_of_length_le (by omega)
    have hwords : (Bytes.words operands).length ≠ tag.opcode.arity := by
      rw [Bytes.length_words]
      omega
    rw [hrest rfl, List.append_nil, decodeFrom_tag hvalid]
    simp only [htake, Frame.instr_of_length_ne (f := ⟨tag, Bytes.words operands⟩) hwords]
    rfl
  | negativeIndex hvalid harity hbefore hrole hword hnegative =>
    refine decodeFrom_of_instr hvalid harity rest fun available => ?_
    exact Frame.instr_of_error? harity hbefore hrole hword
      (WordRole.error?_eq_some_iff.mpr (.inl ⟨rfl, hnegative, rfl⟩))
  | @unknownRelation f place w hvalid harity hbefore hrole hword hunknown =>
    refine decodeFrom_of_instr hvalid harity rest fun available => ?_
    exact Frame.instr_of_error? harity hbefore hrole hword
      (WordRole.error?_eq_some_iff.mpr (.inr ⟨rfl, hunknown, rfl⟩))

/-- A tag whose frame gives no instruction is the tag of a malformed frame. -/
theorem exists_malformed_of_instr {offset : Nat} {tag : Tag} {rest : Bytes} {error : DecodeError}
    (hvalid : tag.Valid)
    (h : Frame.instr offset (rest.take (4 * tag.opcode.arity)).length
      ⟨tag, Bytes.words (rest.take (4 * tag.opcode.arity))⟩ = .error error) :
    ∃ frame behind, tag.toByte :: rest = frame ++ behind ∧ Frame.Malformed offset frame error
      ∧ (error.isTruncated = true → behind = []) := by
  by_cases hlength : rest.length < 4 * tag.opcode.arity
  · have htake : rest.take (4 * tag.opcode.arity) = rest := List.take_of_length_le (by omega)
    have hwords : (Bytes.words rest).length ≠ tag.opcode.arity := by
      rw [Bytes.length_words]
      omega
    rw [htake, Frame.instr_of_length_ne hwords] at h
    cases h
    exact ⟨tag.toByte :: rest, [], (List.append_nil _).symm, .truncated hvalid hlength, fun _ => rfl⟩
  · have hoperands : (rest.take (4 * tag.opcode.arity)).length = 4 * tag.opcode.arity := by
      rw [List.length_take]
      omega
    have harity : (Bytes.words (rest.take (4 * tag.opcode.arity))).length = tag.opcode.arity := by
      rw [Bytes.length_words, hoperands]
      omega
    obtain ⟨hmalformed, hwhole⟩ := Frame.malformed_of_instr hvalid harity h
    refine ⟨_, rest.drop (4 * tag.opcode.arity), ?_, hmalformed, fun htruncated => ?_⟩
    · rw [Frame.toBytes, Bytes.flatMap_words hoperands, List.cons_append, List.take_append_drop]
    · rw [hwhole] at htruncated
      cases htruncated

/-- Whether a program has a stream, and which, does not depend on the address of its first instruction. -/
theorem encodeFrom_of_encode {program : Program} {code : Bytes} (h : program.encode = .ok code)
    (address : Nat) : program.encodeFrom address = .ok code :=
  encodeFrom_of_decodeFrom (decodeFrom_of_encode h 0) address

/-- **A stream fails exactly with the error of its first malformed frame.** What stands before the frame
is the stream of a program. -/
theorem decodeFrom_eq_error_iff {offset : Nat} {bytes : Bytes} {error : DecodeError} :
    decodeFrom offset bytes = .error error ↔ ∃ (program : Program) (code frame rest : Bytes),
      program.encode = .ok code ∧ bytes = code ++ (frame ++ rest)
        ∧ Frame.Malformed (offset + code.length) frame error
        ∧ (error.isTruncated = true → rest = []) := by
  constructor
  · intro h
    -- the induction follows the reader, frame by frame
    fun_induction decodeFrom offset bytes with
    | case1 => cases h
    | case2 offset byte rest hbyte =>
      cases h
      refine ⟨[], [], [byte], rest, rfl, rfl, .unknownTag ?_, fun htruncated => by cases htruncated⟩
      intro tag hvalid htag
      rw [Tag.ofByte?_eq_some_iff.mpr ⟨hvalid, htag⟩] at hbyte
      cases hbyte
    | case3 offset byte rest tag hbyte size operands =>
      rename_i ih
      obtain ⟨hvalid, rfl⟩ := Tag.ofByte?_eq_some_iff.mp hbyte
      rcases bind_eq_error_iff.mp h with hinstr | ⟨instr, hinstr, h⟩
      · obtain ⟨frame, behind, hbytes, hmalformed, hrest⟩ := exists_malformed_of_instr hvalid hinstr
        exact ⟨[], [], frame, behind, rfl, hbytes, hmalformed, hrest⟩
      · rcases bind_eq_error_iff.mp h with hprogram | ⟨program, -, h⟩
        · obtain ⟨program, code, frame, behind, hcode, hdrop, hmalformed, hbehind⟩ := ih hprogram
          obtain ⟨f, hframe, hlength, hbytes⟩ := exists_frame_of_instr hvalid hinstr 0
          have hrest := encodeFrom_of_encode hcode 1
          refine ⟨instr :: program, f.toBytes ++ code, frame, behind, ?_, ?_, ?_, hbehind⟩
          · exact bind_eq_ok_iff.mpr ⟨f, hframe, bind_eq_ok_iff.mpr ⟨code, hrest, rfl⟩⟩
          · rw [hbytes, hdrop, List.append_assoc]
          · rwa [List.length_append, hlength, ← Nat.add_assoc, ← Nat.add_assoc]
        · cases h
  · rintro ⟨program, code, frame, rest, hcode, rfl, hmalformed, hrest⟩
    rw [decodeFrom_append hcode, decodeFrom_of_malformed hmalformed hrest]
    rfl

/-- A stream further back fails in the same way. -/
theorem decodeFrom_shift {offset : Nat} {bytes : Bytes} {error : DecodeError}
    (h : decodeFrom offset bytes = .error error) (distance : Nat) :
    decodeFrom (offset + distance) bytes = .error (error.shift distance) := by
  obtain ⟨program, code, frame, rest, hcode, hbytes, hmalformed, hrest⟩ := decodeFrom_eq_error_iff.mp h
  refine decodeFrom_eq_error_iff.mpr ⟨program, code, frame, rest, hcode, hbytes, ?_, ?_⟩
  · rw [Nat.add_right_comm]
    exact hmalformed.shift distance
  · rwa [DecodeError.isTruncated_shift]

/-- **Reading goes frame by frame.** Behind the stream of a program, bytes are read as they are read on
their own, whether they make a program or not: only the offset in an error grows, by the length of the
stream. And an error is that of the first malformed frame. In front of it stands the stream of a program,
and the error is the same whatever follows the frame; if the frame is cut off, nothing follows it. -/
theorem decode_framed (bytes : Bytes) :
    (∀ (program : Program) (code : Bytes), program.encode = .ok code →
      (∀ rest, decode bytes = .ok rest → decode (code ++ bytes) = .ok (program ++ rest))
        ∧ ∀ error, decode bytes = .error error →
          decode (code ++ bytes) = .error (error.shift code.length))
    ∧ ∀ error, decode bytes = .error error → ∃ (program : Program) (code frame rest : Bytes),
        program.encode = .ok code ∧ bytes = code ++ (frame ++ rest)
          ∧ Frame.Malformed code.length frame error
          ∧ (error.isTruncated = true → rest = [])
          ∧ (error.isTruncated = false →
              ∀ other, decode (code ++ (frame ++ other)) = .error error) := by
  constructor
  · intro program code hcode
    have happend : decode (code ++ bytes) = (decodeFrom (0 + code.length) bytes).map (program ++ ·) :=
      decodeFrom_append hcode 0 bytes
    constructor
    · intro rest h
      rw [happend, decodeFrom_of_encode (encodeFrom_of_decodeFrom h 0)]
      rfl
    · intro error h
      rw [happend, decodeFrom_shift h]
      rfl
  · intro error h
    obtain ⟨program, code, frame, rest, hcode, hbytes, hmalformed, hrest⟩ := decodeFrom_eq_error_iff.mp h
    refine ⟨program, code, frame, rest, hcode, hbytes, ?_, hrest, ?_⟩
    · rwa [Nat.zero_add] at hmalformed
    · intro hwhole other
      refine decodeFrom_eq_error_iff.mpr ⟨program, code, frame, other, hcode, rfl, hmalformed, ?_⟩
      intro htruncated
      rw [hwhole] at htruncated
      cases htruncated

/-- A frame, then a comparison whose second slot is negative and whose relation is unknown, then bytes that
start like a frame. -/
def spoilt : Bytes :=
  [9, 0, 0, 0, 0] ++ ([6, 0, 0, 0, 0, 255, 255, 255, 255, 255, 255, 255, 255] ++ [9, 0])

theorem decode_spoilt : decode spoilt = .error (.negativeIndex 10 (-1)) := by
  have hreturn : encode [.ret 0] = .ok [9, 0, 0, 0, 0] := rfl
  have hcompare := decodeFrom_of_instr (f := ⟨⟨.compare, false, false⟩, [0, -1, -1]⟩) (.inl rfl) rfl
    [9, 0] fun available => (rfl : _ = Except.error (DecodeError.negativeIndex 10 (-1)))
  rw [spoilt, decode, decodeFrom_append hreturn]
  exact congrArg _ hcompare

theorem decode_framed_spoilt :
    encode [.set 0 300] = .ok [0, 0, 0, 0, 0, 44, 1, 0, 0]
      ∧ decode ([0, 0, 0, 0, 0, 44, 1, 0, 0] ++ spoilt) = .error (.negativeIndex 19 (-1))
      ∧ ∃ (program : Program) (code frame rest : Bytes), program.encode = .ok code
        ∧ spoilt = code ++ (frame ++ rest) ∧ Frame.Malformed code.length frame (.negativeIndex 10 (-1))
        ∧ ∀ other, decode (code ++ (frame ++ other)) = .error (.negativeIndex 10 (-1)) := by
  have hset : encode [.set 0 300] = .ok [0, 0, 0, 0, 0, 44, 1, 0, 0] := rfl
  obtain ⟨happend, hframe⟩ := decode_framed spoilt
  obtain ⟨program, code, frame, rest, hcode, hbytes, hmalformed, -, hother⟩ := hframe _ decode_spoilt
  exact ⟨hset, (happend _ _ hset).2 _ decode_spoilt, program, code, frame, rest, hcode, hbytes,
    hmalformed, hother rfl⟩

end Program

end RegisterLang
