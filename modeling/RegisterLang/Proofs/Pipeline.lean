import RegisterLang.Proofs.Control
import RegisterLang.Proofs.Encoding
import RegisterLang.Proofs.Scanning

/-!
# Running a source text, directly and through an image

A source text can be run as it is compiled, or be turned into an image that is read and run later. The
two agree, because everything that a compiler emits fits the words of an instruction stream.

* `Emitter.Bounded`: targets and the places to which loops go back stay below `maxAddress`.
* `CodeUnit.exists_encode`: a compiled program has a stream if there are not too many names.
* `Toolchain.assemble_agrees`: building an image and running it is the same as running the source.
* `Toolchain.assemble_longName`: a name can be too long for an image.
-/

namespace RegisterLang

/-! ## Addresses in compiled programs -/

namespace Emitter

/-- The addresses that the emitter has written down, and those it has kept for later, fit. -/
structure Bounded (e : Emitter) : Prop where
  size_le : e.code.size ≤ maxAddress + 1
  target_le : ∀ instr ∈ e.code, ∀ target, instr.jumpTarget? = some target → target ≤ maxAddress
  restart_le : ∀ block ∈ e.blocks, ∀ start, block.restart = some start → start ≤ maxAddress

theorem bounded_initial : initial.Bounded where
  size_le := Nat.zero_le _
  target_le := by simp [initial]
  restart_le := by simp [initial]

theorem size_le_of_here {e : Emitter} {address : Nat} (h : e.here = .ok address) :
    e.code.size ≤ maxAddress := by
  unfold here at h
  split at h
  · assumption
  · cases h

namespace Bounded

variable {e e' : Emitter}

theorem slot {name : String} {position : Position} {index : Nat} (h : e.Bounded)
    (hslot : e.slot name position = .ok (index, e')) : e'.Bounded := by
  obtain ⟨-, rfl⟩ := slot_eq_ok hslot
  exact ⟨h.size_le, h.target_le, h.restart_le⟩

theorem operand {text : String} {position : Position} {o : Operand} (h : e.Bounded)
    (hoperand : e.operand text position = .ok (o, e')) : e'.Bounded := by
  obtain ⟨hcode, hblocks, -⟩ := operand_eq_ok hoperand
  exact ⟨hcode ▸ h.size_le, hcode ▸ h.target_le, hblocks ▸ h.restart_le⟩

theorem emit {instr : Instr} (h : e.Bounded) (hemit : e.emit instr = .ok e')
    (hinstr : ∀ target, instr.jumpTarget? = some target → target ≤ maxAddress) : e'.Bounded := by
  have hsize : e.code.size ≤ maxAddress := by
    obtain ⟨address, hhere, -⟩ := bind_eq_ok_iff.mp hemit
    exact size_le_of_here hhere
  obtain rfl := emit_eq_ok hemit
  refine ⟨?_, ?_, h.restart_le⟩
  · rw [Array.size_push]
    omega
  · intro other hother
    rcases Array.mem_push.mp hother with hother | rfl
    · exact h.target_le other hother
    · exact hinstr

theorem patch {block : OpenBlock} (h : e.Bounded) (hpatch : e.patch block = .ok e') :
    e'.Bounded := by
  have hsize : e.code.size ≤ maxAddress := by
    obtain ⟨address, hhere, -⟩ := bind_eq_ok_iff.mp hpatch
    exact size_le_of_here hhere
  obtain ⟨-, hblocks, hcode⟩ := patch_eq_ok hpatch
  refine ⟨?_, ?_, hblocks ▸ h.restart_le⟩
  · rw [← Array.length_toList, hcode, Program.length_patch, Array.length_toList]
    exact h.size_le
  · intro instr hinstr target htarget
    rw [← Array.mem_toList_iff, hcode] at hinstr
    rcases Program.mem_patch hinstr with hinstr | rfl
    · exact h.target_le instr (Array.mem_toList_iff.mp hinstr) target htarget
    · cases htarget
      exact hsize

theorem openBlock {restart : Option Nat} {lhs relation rhs : String} {position : Position}
    (h : e.Bounded) (hrestart : ∀ start, restart = some start → start ≤ maxAddress)
    (hopen : e.openBlock restart lhs relation rhs position = .ok e') : e'.Bounded := by
  unfold Emitter.openBlock at hopen
  split at hopen
  · cases hopen
  · obtain ⟨⟨left, e₁⟩, hleft, hopen⟩ := bind_eq_ok_iff.mp hopen
    obtain ⟨⟨right, e₂⟩, hright, hopen⟩ := bind_eq_ok_iff.mp hopen
    obtain ⟨e₃, hcompare, hopen⟩ := bind_eq_ok_iff.mp hopen
    obtain ⟨exit, -, hopen⟩ := bind_eq_ok_iff.mp hopen
    obtain ⟨e₄, hjump, hopen⟩ := bind_eq_ok_iff.mp hopen
    cases hopen
    have h₃ := ((h.operand hleft).operand hright).emit hcompare (by simp [Instr.jumpTarget?])
    -- the target of the jump is filled in later
    have h₄ := h₃.emit hjump (by simp [Instr.jumpTarget?])
    exact ⟨h₄.size_le, h₄.target_le, List.forall_mem_cons.mpr ⟨hrestart, h₄.restart_le⟩⟩

theorem closeBlock {position : Position} (h : e.Bounded)
    (hclose : e.closeBlock position = .ok e') : e'.Bounded := by
  unfold Emitter.closeBlock at hclose
  split at hclose
  · cases hclose
  · rename_i block blocks hblocks
    have hkept := h.restart_le
    rw [hblocks] at hkept
    obtain ⟨hrestart, hothers⟩ := List.forall_mem_cons.mp hkept
    have hpopped : Bounded { e with blocks := blocks } := ⟨h.size_le, h.target_le, hothers⟩
    split at hclose
    · exact hpopped.patch hclose
    · rename_i start hstart
      obtain ⟨e₁, hjump, hclose⟩ := bind_eq_ok_iff.mp hclose
      have h₁ := hpopped.emit hjump (by simpa [Instr.jumpTarget?] using hrestart start hstart)
      exact h₁.patch hclose

/-- **No token brings in an address that does not fit.** -/
theorem token {t : Token} (h : e.Bounded) (htoken : e.token t = .ok e') : e'.Bounded := by
  unfold Emitter.token at htoken
  split at htoken
  · obtain ⟨⟨dest, e₁⟩, hdest, htoken⟩ := bind_eq_ok_iff.mp htoken
    obtain ⟨number, -, hemit⟩ := bind_eq_ok_iff.mp htoken
    exact (h.slot hdest).emit hemit (by simp [Instr.jumpTarget?])
  · obtain ⟨⟨dest, e₁⟩, hdest, htoken⟩ := bind_eq_ok_iff.mp htoken
    obtain ⟨⟨left, e₂⟩, hleft, htoken⟩ := bind_eq_ok_iff.mp htoken
    obtain ⟨⟨right, e₃⟩, hright, hemit⟩ := bind_eq_ok_iff.mp htoken
    exact (((h.slot hdest).operand hleft).operand hright).emit hemit (by simp [Instr.jumpTarget?])
  · exact h.openBlock (by simp) htoken
  · obtain ⟨start, hstart, hopen⟩ := bind_eq_ok_iff.mp htoken
    have hsize := size_le_of_here hstart
    rw [← here_eq_ok hstart] at hsize
    exact h.openBlock (by simpa using hsize) hopen
  · obtain ⟨⟨source, e₁⟩, hsource, hemit⟩ := bind_eq_ok_iff.mp htoken
    exact (h.slot hsource).emit hemit (by simp [Instr.jumpTarget?])
  · cases htoken
    exact h
  · exact h.closeBlock htoken

end Bounded

end Emitter

namespace CodeUnit

theorem bounds_of_ofTokens {tokens : List Token} {unit : CodeUnit} (h : ofTokens tokens = .ok unit) :
    unit.program.length ≤ maxAddress + 1
      ∧ ∀ instr ∈ unit.program, ∀ target, instr.jumpTarget? = some target → target ≤ maxAddress := by
  obtain ⟨e, hrun, -, rfl⟩ := ofTokens_eq_ok h
  have hbounded := foldlM_invariant (fun _ _ _ => Emitter.Bounded.token) Emitter.bounded_initial hrun
  exact ⟨hbounded.size_le, fun instr hinstr => hbounded.target_le instr (Array.mem_toList_iff.mp hinstr)⟩

theorem length_program_lt {tokens : List Token} {unit : CodeUnit} (h : ofTokens tokens = .ok unit) :
    unit.program.length < UInt32.size := Nat.lt_of_le_of_lt (bounds_of_ofTokens h).1 (by decide)

/-- **A compiled program has a stream** if the slots of its names fit in a word. -/
theorem exists_encode {tokens : List Token} {unit : CodeUnit} (h : ofTokens tokens = .ok unit)
    (hnames : unit.symbols.names.length ≤ 0x80000000) : ∃ code, unit.program.encode = .ok code := by
  refine Program.exists_encode_iff.mpr ?_
  intro instr hinstr index hindex
  rcases Instr.mem_indices_iff.mp hindex with hslot | htarget
  · have hlt := (sound_of_ofTokens h).slot_lt instr hinstr index hslot
    exact Nat.le_of_lt_succ (Nat.lt_of_lt_of_le hlt hnames)
  · exact (bounds_of_ofTokens h).2 instr hinstr index htarget

/-- The header of the unit's image. -/
def header (unit : CodeUnit) : Header :=
  ⟨Image.formatVersion, unit.program.length, unit.symbols.names⟩

/-- An image of a compiled unit can be written, if its header fits where it has one. -/
theorem exists_toBytes_image {tokens : List Token} {unit : CodeUnit}
    (h : ofTokens tokens = .ok unit) (hnames : unit.symbols.names.length ≤ 0x80000000) {raw : Bool}
    (hheader : raw = true ∨ unit.header.toBytes.length < UInt32.size) :
    ∃ bytes, (unit.image raw).toBytes = .ok bytes := by
  obtain ⟨code, hcode⟩ := exists_encode h hnames
  refine Image.exists_toBytes hcode ?_
  intro symbols hsymbols
  cases raw with
  | true => cases hsymbols
  | false =>
    cases hsymbols
    have hlength := hheader.resolve_left (by simp)
    exact ⟨_, Image.headerBytes_eq_ok_iff.mpr ⟨length_program_lt h, hlength, rfl⟩⟩

/-- A header that is too long is the reason why an image is not written. -/
theorem toBytes_image_of_tooLong {tokens : List Token} {unit : CodeUnit}
    (h : ofTokens tokens = .ok unit) (hheader : UInt32.size ≤ unit.header.toBytes.length) :
    (unit.image false).toBytes = .error (.header .tooLong) := by
  have hbytes : Image.headerBytes unit.program unit.symbols = .error (.header .tooLong) := by
    rw [Image.headerBytes, if_neg (Nat.not_le.mpr (length_program_lt h))]
    exact if_pos hheader
  exact bind_eq_error_iff.mpr (.inl hbytes)

/-- The code unit of the return of a variable. -/
def giving (name : String) : CodeUnit := ⟨[.ret 0], SymbolTable.empty.insert name⟩

theorem names_giving (name : String) : (giving name).symbols.names = [name] := rfl

theorem ofTokens_give {name : String} (h : ¬ Text.isNumeral name = true) (p : Position) :
    ofTokens [⟨.give name, p⟩] = .ok (giving name) := by
  have hslot : Emitter.initial.slot name p = .ok (0, ⟨#[], SymbolTable.empty.insert name, []⟩) := by
    rw [Emitter.slot, if_neg h]
    rfl
  simp only [ofTokens, List.foldlM_cons, List.foldlM_nil, Emitter.token, hslot]
  rfl

end CodeUnit

/-! ## The two ways to run a source text -/

namespace Toolchain

theorem exists_tokens {source : String} {unit : CodeUnit} (h : compile source = .ok unit) :
    ∃ tokens, Token.scan source = .ok tokens ∧ CodeUnit.ofTokens tokens = .ok unit := by
  obtain ⟨tokens, htokens, hunit⟩ := bind_eq_ok_iff.mp h
  exact ⟨tokens, mapError_eq_ok_iff.mp htokens, mapError_eq_ok_iff.mp hunit⟩

/-- An image that was written is read back. -/
theorem read_of_write {image : Image} {bytes : Bytes} (h : write image = .ok bytes) :
    read bytes = .ok image := by
  have hlayout := Image.layout_of_toBytes (mapError_eq_ok_iff.mp h)
  exact mapError_eq_ok_iff.mpr (Image.ofBytes_of_layout hlayout)

/-- A header that is too long is the reason why an image is not built. -/
theorem assemble_of_tooLong {source : String} {unit : CodeUnit} (h : compile source = .ok unit)
    (hheader : UInt32.size ≤ unit.header.toBytes.length) :
    assemble source false = .error (.image (.header .tooLong)) := by
  obtain ⟨tokens, -, htokens⟩ := exists_tokens h
  refine bind_eq_error_iff.mpr (.inr ⟨unit, h, ?_⟩)
  rw [write, CodeUnit.toBytes_image_of_tooLong htokens hheader]
  rfl

theorem compile_give {name : String} (hname : Text.IsName name)
    (hnumeral : ¬ Text.isNumeral name = true) :
    compile (Lexeme.give name).text = .ok (CodeUnit.giving name) := by
  have hwellFormed : (Lexeme.give name).WellFormed := hname
  have hscan := Scan.tokensFrom_of_written (Scan.written_text hwellFormed .start)
  have hunit := CodeUnit.ofTokens_give hnumeral .start
  exact bind_eq_ok_iff.mpr ⟨_, mapError_eq_ok_iff.mpr hscan, mapError_eq_ok_iff.mpr hunit⟩

/-- **Building an image and running it is the same as running the source.** An image that is built is
read back with the program and, unless it is raw, the names; it runs under every limit as the source
does. What does not compile is neither built nor run, with the same error. What compiles, with names that
fit, is built, unless the image is not raw and its header is too long. -/
theorem assemble_agrees (source : String) (raw : Bool) :
    (∀ bytes, assemble source raw = .ok bytes →
        ∃ unit, compile source = .ok unit
          ∧ read bytes = .ok ⟨unit.program, if raw then none else some unit.symbols⟩
          ∧ ∀ limit, (read bytes >>= fun image => run image limit) = evaluate source limit)
      ∧ (∀ error, compile source = .error error →
          assemble source raw = .error error ∧ ∀ limit, evaluate source limit = .error error)
      ∧ ∀ unit, compile source = .ok unit → unit.symbols.names.length ≤ 0x80000000 →
          (raw = true ∨ unit.header.toBytes.length < UInt32.size →
              ∃ bytes, assemble source raw = .ok bytes)
            ∧ (raw = false → UInt32.size ≤ unit.header.toBytes.length →
              assemble source raw = .error (.image (.header .tooLong))) := by
  refine ⟨?_, ?_, ?_⟩
  · intro bytes h
    obtain ⟨unit, hunit, hbytes⟩ := bind_eq_ok_iff.mp h
    have hread := read_of_write hbytes
    refine ⟨unit, hunit, hread, ?_⟩
    intro limit
    rw [hread, evaluate, hunit]
    rfl
  · intro error h
    refine ⟨?_, ?_⟩
    · rw [assemble, h]
      rfl
    · intro limit
      rw [evaluate, h]
      rfl
  · intro unit hunit hnames
    obtain ⟨tokens, -, htokens⟩ := exists_tokens hunit
    refine ⟨?_, ?_⟩
    · intro hheader
      obtain ⟨bytes, hbytes⟩ := CodeUnit.exists_toBytes_image htokens hnames hheader
      exact ⟨bytes, bind_eq_ok_iff.mpr ⟨unit, hunit, mapError_eq_ok_iff.mpr hbytes⟩⟩
    · rintro rfl hheader
      exact assemble_of_tooLong hunit hheader

theorem length_header_giving :
    (CodeUnit.giving "x").header.toBytes.length < UInt32.size := by
  have hname : Text.utf8 "x" = [120] := by decide
  have hheader : (CodeUnit.giving "x").header.toBytes = [1, 1, 1, 1, 120] := by
    have hcount : (CodeUnit.giving "x").program.length = 1 := rfl
    simp only [CodeUnit.header, CodeUnit.names_giving, hcount, Header.toBytes, Header.nameBytes,
      List.flatMap_cons, List.flatMap_nil, hname]
    rw [Varint.toBytes_of_lt (by decide), Varint.toBytes_of_lt (by decide),
      Varint.toBytes_of_lt (by decide), Varint.toBytes_of_lt (by decide)]
    rfl
  rw [hheader]
  decide

theorem assemble_agrees_return :
    compile "return x" = .ok (CodeUnit.giving "x")
      ∧ (CodeUnit.giving "x").header.toBytes.length < UInt32.size
      ∧ ∃ bytes, assemble "return x" false = .ok bytes
        ∧ (read bytes >>= fun image => run image (some 5)) = evaluate "return x" (some 5) := by
  have htext : (Lexeme.give "x").text = "return x" := by decide
  have hcompile : compile (Lexeme.give "x").text = .ok (CodeUnit.giving "x") :=
    compile_give (by decide) (by decide)
  rw [htext] at hcompile
  obtain ⟨hruns, -, hbuilds⟩ := assemble_agrees "return x" false
  obtain ⟨bytes, hbytes⟩ := (hbuilds _ hcompile (by decide)).1 (.inr length_header_giving)
  obtain ⟨unit, -, -, hagrees⟩ := hruns bytes hbytes
  exact ⟨hcompile, length_header_giving, bytes, hbytes, hagrees (some 5)⟩

end Toolchain

/-! ## Names that are too long -/

theorem mem_longName {length : Nat} {c : Char} (h : c ∈ (longName length).toList) : c = 'a' := by
  rw [longName, String.toList_ofList] at h
  exact List.eq_of_mem_replicate h

theorem longName_ne_nil {length : Nat} (h : 0 < length) : (longName length).toList ≠ [] := by
  rw [longName, String.toList_ofList]
  simpa using Nat.ne_of_gt h

theorem isName_longName {length : Nat} (h : 0 < length) : Text.IsName (longName length) := by
  refine ⟨longName_ne_nil h, ?_⟩
  intro c hc
  rw [mem_longName hc]
  decide

theorem not_isNumeral_longName {length : Nat} (h : 0 < length) :
    ¬ Text.isNumeral (longName length) = true := by
  obtain ⟨c, hc⟩ := List.exists_mem_of_ne_nil _ (longName_ne_nil h)
  rw [Text.isNumeral_eq_true_iff]
  rintro (hdigits | ⟨digits, -, hminus⟩)
  · have hdigit := hdigits.2 c hc
    rw [mem_longName hc] at hdigit
    exact absurd hdigit (by decide)
  · have hmem : '-' ∈ (longName length).toList := by simp [hminus]
    have hfirst := mem_longName hmem
    exact absurd hfirst (by decide)

/-- **A single name can be too long for an image**, though the source compiles. -/
theorem Toolchain.assemble_longName {length : Nat} (h : UInt32.size ≤ length) :
    compile (Lexeme.give (longName length)).text = .ok (CodeUnit.giving (longName length))
      ∧ assemble (Lexeme.give (longName length)).text false = .error (.image (.header .tooLong)) := by
  have hpos : 0 < length := Nat.lt_of_lt_of_le (by decide) h
  have hcompile := compile_give (isName_longName hpos) (not_isNumeral_longName hpos)
  refine ⟨hcompile, assemble_of_tooLong hcompile ?_⟩
  have hmem : longName length ∈ (CodeUnit.giving (longName length)).header.names :=
    List.mem_singleton_self _
  exact Nat.le_trans h (Header.length_le_of_longName hmem)

/-- A variable whose name has 4294967296 letters. -/
theorem Toolchain.assemble_longName_size :
    ∃ unit, compile (Lexeme.give (longName 4294967296)).text = .ok unit
      ∧ unit.symbols.names.length ≤ 0x80000000
      ∧ ∀ bytes, assemble (Lexeme.give (longName 4294967296)).text false ≠ .ok bytes := by
  have hsize : UInt32.size ≤ 4294967296 := by decide
  obtain ⟨hcompile, hassemble⟩ := assemble_longName hsize
  refine ⟨_, hcompile, ?_, ?_⟩
  · rw [CodeUnit.names_giving]
    decide
  · intro bytes hbytes
    rw [hassemble] at hbytes
    cases hbytes

end RegisterLang
