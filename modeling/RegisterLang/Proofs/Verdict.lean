import RegisterLang.Proofs.Balance
import RegisterLang.Proofs.Emission
import RegisterLang.Proofs.Words

/-!
# Which tokens compile, and what is wrong with the others

A token can be at fault on its own: a constant where a variable must stand, a constant out of range, an
unknown relation. A closing brace can be at fault where it stands. The compiler reports the first token
at fault, and a block that is still open only if there is none.

* `Token.localFault?`: the fault of a token on its own, the first of several.
* `Emitter.token_checks`: one token fails to compile for its fault and for nothing else, the size of the
  program aside.
* `CodeUnit.ofTokens_cases`: the three ways in which compiling can end.
* `CodeUnit.ofTokens_verdict`: when tokens compile, and the error if they do not.
-/

namespace RegisterLang

open Text

/-! ## Faults -/

namespace CompileError

/-- What is written or returned must not look like a number. -/
def ofTarget? (name : String) (position : Position) : Option CompileError :=
  if IsNumeral name then some (.literalTarget name position) else none

/-- A constant must fit. -/
def ofConstant? (text : String) (position : Position) : Option CompileError :=
  if IsDecimal32 text then none else some (.literalOutOfRange text position)

/-- An operand that looks like a number must fit. -/
def ofOperand? (text : String) (position : Position) : Option CompileError :=
  if IsNumeral text then ofConstant? text position else none

/-- A relation must be one of the six. -/
def ofRelation? (sign : String) (position : Position) : Option CompileError :=
  if Relation.IsSign sign then none else some (.unknownRelation sign position)

end CompileError

open CompileError in
/-- What is wrong with the token on its own: the first fault, in the order in which its parts are looked
at. -/
def Token.localFault? (t : Token) : Option CompileError :=
  match t.lexeme with
  | .declare name value => (ofTarget? name t.position).or (ofConstant? value t.position)
  | .assign target lhs _ rhs =>
    (ofTarget? target t.position).or ((ofOperand? lhs t.position).or (ofOperand? rhs t.position))
  | .branch lhs relation rhs | .loop lhs relation rhs =>
    (ofRelation? relation t.position).or
      ((ofOperand? lhs t.position).or (ofOperand? rhs t.position))
  | .give name => ofTarget? name t.position
  | .blockOpen | .blockClose => none

/-- What is wrong with the token behind tokens of the given depth. -/
def Token.fault? (depth : Int) (t : Token) : Option CompileError :=
  if t.lexeme = .blockClose ∧ depth = 0 then some (.unmatchedClose t.position) else t.localFault?

/-- No token is at fault. -/
structure Flawless (tokens : List Token) : Prop where
  valid : ∀ t ∈ tokens, t.localFault? = none
  before_nonneg : ∀ before, before <+: tokens → 0 ≤ depth before

/-- The error is that of the first token at fault. -/
def FirstFault (tokens : List Token) (error : CompileError) : Prop :=
  ∃ before t after, tokens = before ++ t :: after ∧ Flawless before
    ∧ t.fault? (depth before) = some error

/-- No token is at fault, and the error names the block opened last that is still open. -/
def Unclosed (tokens : List Token) (error : CompileError) : Prop :=
  Flawless tokens ∧ ∃ before t after kind, tokens = before ++ t :: after
    ∧ t.lexeme.opens? = some kind ∧ Balanced after ∧ error = .unclosedBlock kind t.position

/-! ## Sizes -/

/-- The number of instructions that the lexeme brings about. The jump back of a loop counts with its
head, although it is emitted when the loop is closed. -/
def Lexeme.size : Lexeme → Nat
  | declare .. | assign .. | give _ => 1
  | branch .. => 2
  | loop .. => 3
  | blockOpen | blockClose => 0

/-- The number of instructions of the program of some tokens. -/
def programSize : List Token → Nat
  | [] => 0
  | t :: tokens => t.lexeme.size + programSize tokens

/-- The number of instructions that closing the block takes. -/
def OpenBlock.pending (block : OpenBlock) : Nat :=
  match block.restart with
  | none => 0
  | some _ => 1

/-- The number of instructions that closing the blocks takes. -/
def OpenBlock.pendingIn : List OpenBlock → Nat
  | [] => 0
  | block :: blocks => block.pending + pendingIn blocks

/-- The number of instructions when the open blocks are closed. -/
def Emitter.extent (e : Emitter) : Nat := e.code.size + OpenBlock.pendingIn e.blocks

/-- A token adds its size. -/
theorem Emitter.extent_of_token {e e' : Emitter} {t : Token} (h : e.token t = .ok e') :
    e'.extent = e.extent + t.lexeme.size := by
  obtain ⟨-, -, hemits⟩ := token_emits h
  have hstep := hemits e'.symbols (.refl _)
  unfold extent
  cases hlexeme : t.lexeme with
  | declare name value | assign target lhs op rhs | give name =>
    rw [hlexeme] at hstep
    obtain ⟨hcode, hblocks⟩ := hstep
    have hsize := congrArg List.length hcode
    simp only [List.length_append, Array.length_toList, List.length_singleton] at hsize
    rw [hsize, hblocks, Lexeme.size]
    omega
  | branch lhs relation rhs | loop lhs relation rhs =>
    rw [hlexeme] at hstep
    obtain ⟨hcode, position, hblocks⟩ := hstep
    have hsize := congrArg List.length hcode
    simp only [List.length_append, Array.length_toList, List.length_cons, List.length_nil] at hsize
    simp only [hsize, hblocks, Lexeme.size, OpenBlock.pendingIn, OpenBlock.pending]
    omega
  | blockOpen =>
    rw [hlexeme] at hstep
    rw [hstep.1, hstep.2, Lexeme.size, Nat.add_zero]
  | blockClose =>
    rw [hlexeme] at hstep
    obtain ⟨block, hblocks, hcode⟩ := hstep
    have hsize := congrArg List.length hcode
    simp only [hblocks, Lexeme.size, OpenBlock.pendingIn, OpenBlock.pending]
    simp only [OpenBlock.close, Array.length_toList] at hsize
    cases hrestart : block.restart with
    | none =>
      simp only [hrestart, Program.length_patch, Array.length_toList] at hsize ⊢
      omega
    | some start =>
      simp only [hrestart, Program.length_patch, List.length_append, Array.length_toList,
        List.length_singleton] at hsize ⊢
      omega

/-! ## One token -/

/-- The result of a computation that fails for the given fault only, or for the size of the program if
that is large. -/
inductive Checks {α : Type} (large : Prop) : Option CompileError → Except CompileError α → Prop
  | tooLarge (h : large) (fault : Option CompileError) : Checks large fault (.error .programTooLarge)
  | passes (a : α) : Checks large none (.ok a)
  | fails (error : CompileError) : Checks large (some error) (.error error)

namespace Checks

variable {α β : Type} {large : Prop} {fault fault' : Option CompileError}
  {x : Except CompileError α} {next : α → Except CompileError β}

theorem bind (hx : Checks large fault x) (hnext : ∀ a, x = .ok a → Checks large fault' (next a)) :
    Checks large (fault.or fault') (x >>= next) := by
  cases hx with
  | tooLarge h => exact .tooLarge h _
  | passes a => exact hnext a rfl
  | fails error => exact .fails error

/-- What follows a computation that has no fault. -/
theorem andThen (hx : Checks large none x) (hnext : ∀ a, x = .ok a → Checks large fault (next a)) :
    Checks large fault (x >>= next) := hx.bind hnext

/-- What follows a computation and has no fault itself. -/
theorem before (hx : Checks large fault x) (hnext : ∀ a, x = .ok a → Checks large none (next a)) :
    Checks large fault (x >>= next) := by
  have h := hx.bind hnext
  rwa [Option.or_none] at h

end Checks

namespace Emitter

open CompileError

variable {large : Prop} {e : Emitter}

theorem here_checks (h : maxAddress < e.code.size → large) : Checks large none e.here := by
  unfold here
  split
  · exact .passes _
  · rename_i hsize
    exact .tooLarge (h (Nat.lt_of_not_le hsize)) _

theorem emit_checks (h : maxAddress < e.code.size → large) (instr : Instr) :
    Checks large none (e.emit instr) :=
  (here_checks h).andThen fun _ _ => .passes _

theorem patch_checks (h : maxAddress < e.code.size → large) (block : OpenBlock) :
    Checks large none (e.patch block) := by
  refine (here_checks h).andThen fun target _ => ?_
  split
  · exact .passes _
  · exact .passes _

theorem slot_checks (e : Emitter) (name : String) (position : Position) :
    Checks large (ofTarget? name position) (e.slot name position) := by
  by_cases h : IsNumeral name
  · rw [ofTarget?, if_pos h, slot, if_pos (isNumeral_eq_true_iff.mpr h)]
    exact .fails _
  · rw [ofTarget?, if_neg h, slot, if_neg (mt isNumeral_eq_true_iff.mp h)]
    exact .passes _

theorem literal_checks (text : String) (position : Position) :
    Checks large (ofConstant? text position) (literal text position) := by
  cases h : int32OfText? text with
  | none =>
    have hnot : ¬ IsDecimal32 text := by
      rw [← isSome_int32OfText?_iff, h]
      simp
    rw [ofConstant?, if_neg hnot, literal, h]
    exact .fails _
  | some value =>
    have hdecimal : IsDecimal32 text := ⟨value, int32OfText?_eq_some_iff.mp h⟩
    rw [ofConstant?, if_pos hdecimal, literal, h]
    exact .passes _

theorem operand_checks (e : Emitter) (text : String) (position : Position) :
    Checks large (ofOperand? text position) (e.operand text position) := by
  by_cases h : IsNumeral text
  · rw [ofOperand?, if_pos h, operand, if_pos (isNumeral_eq_true_iff.mpr h)]
    exact (literal_checks text position).before fun _ _ => .passes _
  · rw [ofOperand?, if_neg h, operand, if_neg (mt isNumeral_eq_true_iff.mp h)]
    exact .passes _

/-- The head of a block takes two instructions. -/
theorem openBlock_checks (hlarge : maxAddress < e.code.size + 1 → large) (restart : Option Nat)
    (lhs relation rhs : String) (position : Position) :
    Checks large
      ((ofRelation? relation position).or ((ofOperand? lhs position).or (ofOperand? rhs position)))
      (e.openBlock restart lhs relation rhs position) := by
  cases h : Relation.ofSymbol? relation with
  | none =>
    have hnot : ¬ Relation.IsSign relation := by
      rw [← Relation.isSome_ofSymbol?_iff, h]
      simp
    rw [ofRelation?, if_neg hnot, openBlock, h]
    exact .fails _
  | some r =>
    have hsign : Relation.IsSign relation := ⟨r, Relation.ofSymbol?_eq_some_iff.mp h⟩
    rw [ofRelation?, if_pos hsign, Option.none_or, openBlock, h]
    refine (operand_checks e lhs position).bind fun left hleft => ?_
    refine (operand_checks left.2 rhs position).before fun right hright => ?_
    have hcode : right.2.code = e.code :=
      (operand_eq_ok hright).1.trans (operand_eq_ok hleft).1
    have hfirst : maxAddress < right.2.code.size → large := by
      rw [hcode]
      intro hsize
      exact hlarge (Nat.lt_succ_of_lt hsize)
    refine (emit_checks hfirst _).andThen fun e₁ he₁ => ?_
    have hsecond : maxAddress < e₁.code.size → large := by
      rw [emit_eq_ok he₁, Array.size_push, hcode]
      exact hlarge
    refine (here_checks hsecond).andThen fun exit _ => ?_
    exact (emit_checks hsecond _).andThen fun e₂ _ => .passes _

/-- The end of a loop takes an instruction, that of a branch none. -/
theorem closeBlock_checks (hlarge : maxAddress < e.extent → large) (position : Position) :
    Checks large (if e.blocks = [] then some (.unmatchedClose position) else none)
      (e.closeBlock position) := by
  unfold extent at hlarge
  cases h : e.blocks with
  | nil =>
    rw [closeBlock, h]
    exact .fails _
  | cons block blocks =>
    rw [closeBlock, h, if_neg (by simp)]
    rw [h] at hlarge
    cases hrestart : block.restart with
    | none =>
      simp only [hrestart]
      refine patch_checks (fun hsize => hlarge ?_) block
      exact Nat.lt_add_right _ hsize
    | some start =>
      simp only [OpenBlock.pendingIn, OpenBlock.pending, hrestart] at hlarge
      simp only [hrestart]
      refine (emit_checks (fun hsize => hlarge ?_) _).andThen fun e₁ he₁ => ?_
      · exact Nat.lt_add_right _ hsize
      · refine patch_checks (fun hsize => hlarge ?_) block
        have hsize₁ : e₁.code.size = e.code.size + 1 := by rw [emit_eq_ok he₁, Array.size_push]
        omega

theorem fault?_of_ne {t : Token} (h : t.lexeme ≠ .blockClose) (depth : Int) :
    t.fault? depth = t.localFault? := by
  rw [Token.fault?, if_neg]
  exact fun hclose => h hclose.1

/-- **One token fails to compile for its fault only**, or because the program gets too large. -/
theorem token_checks (e : Emitter) (t : Token) :
    Checks (maxAddress < e.extent + t.lexeme.size) (t.fault? e.blocks.length) (e.token t) := by
  have hextent : e.code.size ≤ e.extent := Nat.le_add_right _ _
  obtain ⟨lexeme, position⟩ := t
  cases lexeme with
  | declare name value =>
    rw [fault?_of_ne (by simp)]
    refine (slot_checks e name position).bind fun dest hdest => ?_
    refine (literal_checks value position).before fun number _ => emit_checks ?_ _
    rw [(slot_eq_ok hdest).2]
    exact fun hsize => Nat.lt_of_lt_of_le hsize (Nat.le_add_right_of_le hextent)
  | assign target lhs op rhs =>
    rw [fault?_of_ne (by simp)]
    refine (slot_checks e target position).bind fun dest hdest => ?_
    refine (operand_checks dest.2 lhs position).bind fun left hleft => ?_
    refine (operand_checks left.2 rhs position).before fun right hright => emit_checks ?_ _
    rw [(operand_eq_ok hright).1, (operand_eq_ok hleft).1, (slot_eq_ok hdest).2]
    exact fun hsize => Nat.lt_of_lt_of_le hsize (Nat.le_add_right_of_le hextent)
  | branch lhs relation rhs =>
    rw [fault?_of_ne (by simp)]
    refine openBlock_checks ?_ none lhs relation rhs position
    simp only [Lexeme.size]
    omega
  | loop lhs relation rhs =>
    rw [fault?_of_ne (by simp)]
    simp only [Lexeme.size]
    refine (here_checks (by omega)).andThen fun start _ => ?_
    exact openBlock_checks (by omega) (some start) lhs relation rhs position
  | give name =>
    rw [fault?_of_ne (by simp)]
    refine (slot_checks e name position).before fun source hsource => emit_checks ?_ _
    rw [(slot_eq_ok hsource).2]
    exact fun hsize => Nat.lt_of_lt_of_le hsize (Nat.le_add_right_of_le hextent)
  | blockOpen =>
    rw [fault?_of_ne (by simp)]
    exact .passes e
  | blockClose =>
    have hfault : Token.fault? e.blocks.length ⟨.blockClose, position⟩
        = if e.blocks = [] then some (.unmatchedClose position) else none := by
      simp [Token.fault?, Token.localFault?]
    rw [hfault]
    exact closeBlock_checks id position

/-- The open blocks of the emitter are those that the tokens so far leave open. -/
theorem opened_of_token {e' : Emitter} {t : Token} {seen : List Token}
    (hseen : Opened seen e.blocks) (h : e.token t = .ok e') : Opened (seen ++ [t]) e'.blocks := by
  obtain ⟨-, -, hemits⟩ := token_emits h
  have hstep := hemits e'.symbols (.refl _)
  obtain ⟨lexeme, position⟩ := t
  cases lexeme with
  | declare name value | assign target lhs op rhs | give name | blockOpen =>
    rw [hstep.2]
    exact hseen.append (.single rfl)
  | branch lhs relation rhs =>
    obtain ⟨-, -, -, hblocks, -⟩ := openBlock_eq_ok h
    rw [hblocks]
    exact .block hseen rfl rfl balanced_nil
  | loop lhs relation rhs =>
    obtain ⟨start, -, h⟩ := bind_eq_ok_iff.mp h
    obtain ⟨-, -, -, hblocks, -⟩ := openBlock_eq_ok h
    rw [hblocks]
    exact .block hseen rfl rfl balanced_nil
  | blockClose =>
    obtain ⟨block, hblocks, -⟩ := hstep
    rw [hblocks] at hseen
    exact hseen.closing rfl

theorem localFault?_of_fault? {depth : Int} {t : Token} (h : t.fault? depth = none) :
    t.localFault? = none := by
  unfold Token.fault? at h
  split at h
  · cases h
  · exact h

/-! ## All tokens -/

/-- How compiling goes on behind tokens without a fault: it fails at the first token at fault, or gets
to the end and has the open blocks there. -/
theorem foldlM_cases (tokens : List Token) {seen : List Token}
    (hseen : Opened seen e.blocks) (hvalid : ∀ t ∈ seen, t.localFault? = none) :
    (tokens.foldlM token e = .error .programTooLarge ∧ maxAddress < e.extent + programSize tokens)
      ∨ (∃ error, tokens.foldlM token e = .error error ∧ FirstFault (seen ++ tokens) error)
      ∨ (∃ last, tokens.foldlM token e = .ok last ∧ Opened (seen ++ tokens) last.blocks
          ∧ (∀ t ∈ seen ++ tokens, t.localFault? = none)
          ∧ last.extent = e.extent + programSize tokens) := by
  induction tokens generalizing seen e with
  | nil =>
    rw [List.append_nil]
    exact .inr (.inr ⟨e, rfl, hseen, hvalid, rfl⟩)
  | cons t tokens ih =>
    have hchecks := token_checks e t
    rw [List.foldlM_cons, programSize, ← Nat.add_assoc]
    rw [← hseen.depth_eq] at hchecks
    generalize hfault : t.fault? (depth seen) = fault at hchecks
    generalize htoken : e.token t = result at hchecks
    cases hchecks with
    | tooLarge hlarge => exact .inl ⟨rfl, Nat.lt_add_right _ hlarge⟩
    | fails error =>
      exact .inr (.inl ⟨error, rfl, seen, t, tokens, rfl, ⟨hvalid, hseen.before_nonneg⟩, hfault⟩)
    | passes e' =>
      have hvalid' : ∀ u ∈ seen ++ [t], u.localFault? = none := by
        intro u hu
        rcases List.mem_append.mp hu with hu | hu
        · exact hvalid u hu
        · rw [List.mem_singleton.mp hu]
          exact localFault?_of_fault? hfault
      have hnext := ih (opened_of_token hseen htoken) hvalid'
      rw [List.append_assoc, List.singleton_append, extent_of_token htoken] at hnext
      exact hnext

end Emitter

namespace CodeUnit

/-- **The ways in which compiling ends.** -/
theorem ofTokens_cases (tokens : List Token) :
    (ofTokens tokens = .error .programTooLarge ∧ maxAddress < programSize tokens)
      ∨ (∃ unit, ofTokens tokens = .ok unit ∧ Flawless tokens ∧ depth tokens = 0
          ∧ unit.program.length = programSize tokens)
      ∨ (∃ error, ofTokens tokens = .error error
          ∧ (FirstFault tokens error ∨ Unclosed tokens error)) := by
  have hstart : Opened [] Emitter.initial.blocks := .none balanced_nil
  have hempty : Emitter.initial.extent = 0 := rfl
  rcases Emitter.foldlM_cases tokens hstart (by simp) with
    ⟨hlarge, hsize⟩ | ⟨error, herror, hfirst⟩ | ⟨last, hlast, hopen, hvalid, hextent⟩
  · rw [hempty, Nat.zero_add] at hsize
    exact .inl ⟨by rw [ofTokens, hlarge]; rfl, hsize⟩
  · exact .inr (.inr ⟨error, by rw [ofTokens, herror]; rfl, .inl hfirst⟩)
  · rw [List.nil_append] at hopen hvalid
    rw [hempty, Nat.zero_add, Emitter.extent] at hextent
    have hflawless : Flawless tokens := ⟨hvalid, hopen.before_nonneg⟩
    have hfinish : ofTokens tokens = last.finish := by rw [ofTokens, hlast]; rfl
    rw [hfinish, Emitter.finish]
    generalize last.blocks = blocks at hopen hextent
    cases hopen with
    | none h => exact .inr (.inl ⟨_, rfl, hflawless, h.depth_eq_zero, hextent⟩)
    | @block before after t block blocks outer kind position inner =>
      refine .inr (.inr ⟨_, rfl, .inr ⟨hflawless, before, t, after, block.kind, rfl, kind, inner, ?_⟩⟩)
      rw [position]

end CodeUnit

/-! ## One ending only -/

theorem Flawless.not_firstFault {tokens : List Token} (h : Flawless tokens) (error : CompileError) :
    ¬ FirstFault tokens error := by
  rintro ⟨before, t, after, rfl, -, hfault⟩
  unfold Token.fault? at hfault
  split at hfault
  · rename_i hclose
    have hnonneg := h.before_nonneg (before ++ [t]) (by simp)
    rw [depth_append, hclose.2, depth_cons, hclose.1] at hnonneg
    exact absurd hnonneg (by decide)
  · rw [h.valid t (by simp)] at hfault
    cases hfault

open CompileError in
theorem Token.fault?_ne_programTooLarge (depth : Int) (t : Token) :
    t.fault? depth ≠ some .programTooLarge := by
  obtain ⟨lexeme, position⟩ := t
  unfold Token.fault?
  split
  · simp
  · cases lexeme <;> simp [Token.localFault?, ofTarget?, ofOperand?, ofConstant?, ofRelation?,
      Option.or_eq_some_iff]

theorem error_ne_programTooLarge {tokens : List Token} {error : CompileError}
    (h : FirstFault tokens error ∨ Unclosed tokens error) : error ≠ .programTooLarge := by
  rcases h with ⟨before, t, after, -, -, hfault⟩ | ⟨-, before, t, after, kind, -, -, -, rfl⟩
  · rintro rfl
    exact t.fault?_ne_programTooLarge (depth before) hfault
  · simp

theorem FirstFault.unique {tokens : List Token} {error error' : CompileError}
    (h : FirstFault tokens error) (h' : FirstFault tokens error') : error = error' := by
  obtain ⟨before, t, after, rfl, hbefore, hfault⟩ := h
  obtain ⟨before', t', after', hsame, hbefore', hfault'⟩ := h'
  rcases List.append_eq_append_iff.mp hsame with ⟨middle, rfl, hmiddle⟩ | ⟨middle, rfl, hmiddle⟩
  · obtain _ | ⟨first, middle⟩ := middle
    · cases hmiddle
      rw [List.append_nil, hfault] at hfault'
      exact Option.some.inj hfault'
    · cases hmiddle
      exact absurd ⟨before, t, middle, rfl, hbefore, hfault⟩ (hbefore'.not_firstFault error)
  · obtain _ | ⟨first, middle⟩ := middle
    · cases hmiddle
      rw [List.append_nil, hfault'] at hfault
      exact (Option.some.inj hfault).symm
    · cases hmiddle
      exact absurd ⟨before', t', middle, rfl, hbefore', hfault'⟩ (hbefore.not_firstFault error')

theorem Unclosed.unique {tokens : List Token} {error error' : CompileError}
    (h : Unclosed tokens error) (h' : Unclosed tokens error') : error = error' := by
  obtain ⟨-, before, t, after, kind, rfl, ht, hafter, rfl⟩ := h
  obtain ⟨-, before', t', after', kind', hsame, ht', hafter', rfl⟩ := h'
  obtain rfl := Opened.innermost_unique hsame ht ht' hafter hafter'
  rw [ht] at ht'
  rw [Option.some.inj ht']

/-- **A reported error is the only one that tokens can have.** -/
theorem error_unique {tokens : List Token} {error error' : CompileError}
    (h : FirstFault tokens error ∨ Unclosed tokens error)
    (h' : FirstFault tokens error' ∨ Unclosed tokens error') : error = error' := by
  rcases h with hfirst | hunclosed <;> rcases h' with hfirst' | hunclosed'
  · exact hfirst.unique hfirst'
  · exact absurd hfirst (hunclosed'.1.not_firstFault error)
  · exact absurd hfirst' (hunclosed.1.not_firstFault error')
  · exact hunclosed.unique hunclosed'

theorem Unclosed.depth_ne_zero {tokens : List Token} {error : CompileError}
    (h : Unclosed tokens error) : depth tokens ≠ 0 := by
  obtain ⟨hflawless, before, t, after, kind, rfl, ht, hafter, -⟩ := h
  have hbefore := hflawless.before_nonneg before (List.prefix_append _ _)
  rw [depth_append, depth_cons, Lexeme.depthChange_of_opens ht, hafter.depth_eq_zero]
  omega

namespace CodeUnit

/-- **When tokens compile, and what is wrong with them if they do not.** Compiling succeeds exactly if
every token is valid on its own, no closing brace is without a block and every block is closed. Otherwise
the error is that of the first token at fault, or, if there is none, names the innermost block that is
still open. All this holds as long as the program is not too large: tokens that compile have a program of
`programSize`, and none with at most `maxAddress` instructions is too large. -/
theorem ofTokens_verdict (tokens : List Token) :
    (∀ unit, ofTokens tokens = .ok unit → unit.program.length = programSize tokens)
      ∧ (programSize tokens ≤ maxAddress → ofTokens tokens ≠ .error .programTooLarge)
      ∧ (ofTokens tokens ≠ .error .programTooLarge →
        ((∃ unit, ofTokens tokens = .ok unit)
          ↔ (∀ t ∈ tokens, t.localFault? = none)
            ∧ (∀ before, before <+: tokens → 0 ≤ depth before) ∧ depth tokens = 0)
        ∧ ∀ error, ofTokens tokens = .error error
          ↔ FirstFault tokens error ∨ Unclosed tokens error) := by
  rcases ofTokens_cases tokens with
    ⟨htokens, hlarge⟩ | ⟨unit, htokens, hflawless, hdepth, hlength⟩ | ⟨error, htokens, herror⟩
  · rw [htokens]
    refine ⟨by simp, fun hsize => absurd hlarge (Nat.not_lt.mpr hsize), fun h => absurd rfl h⟩
  · rw [htokens]
    refine ⟨?_, by simp, fun _ => ⟨?_, ?_⟩⟩
    · intro unit' hunit
      cases hunit
      exact hlength
    · exact ⟨fun _ => ⟨hflawless.valid, hflawless.before_nonneg, hdepth⟩, fun _ => ⟨unit, rfl⟩⟩
    · intro error
      constructor
      · intro h
        cases h
      · rintro (hfirst | hunclosed)
        · exact absurd hfirst (hflawless.not_firstFault error)
        · exact absurd hdepth hunclosed.depth_ne_zero
  · rw [htokens]
    refine ⟨by simp, ?_, fun hne => ⟨?_, ?_⟩⟩
    · intro _ hlarge
      exact error_ne_programTooLarge herror (Except.error.inj hlarge)
    · constructor
      · rintro ⟨unit, h⟩
        cases h
      · rintro ⟨hvalid, hbefore, hdepth⟩
        rcases herror with hfirst | hunclosed
        · exact absurd hfirst (Flawless.not_firstFault ⟨hvalid, hbefore⟩ error)
        · exact absurd hdepth hunclosed.depth_ne_zero
    · intro error'
      rw [Except.error.injEq]
      constructor
      · rintro rfl
        exact herror
      · exact error_unique herror

/-- A loop that is closed twice, and a constant that is returned behind it. -/
def closedTwice : List Token :=
  [⟨.loop "x" "<" "007", ⟨0, 1, 1⟩⟩, ⟨.blockClose, ⟨13, 2, 1⟩⟩, ⟨.blockClose, ⟨15, 3, 1⟩⟩,
    ⟨.give "7", ⟨17, 4, 1⟩⟩]

/-- The second brace is reported, not the constant. -/
theorem ofTokens_verdict_closedTwice :
    programSize closedTwice ≤ maxAddress
      ∧ ofTokens closedTwice = .error (.unmatchedClose ⟨15, 3, 1⟩) := by
  have hsize : programSize closedTwice ≤ maxAddress := by decide
  obtain ⟨-, hlarge, hverdict⟩ := ofTokens_verdict closedTwice
  have hclosed : Balanced (closedTwice.take 2) := .block rfl rfl balanced_nil
  refine ⟨hsize, ((hverdict (hlarge hsize)).2 _).mpr (.inl ?_)⟩
  exact ⟨closedTwice.take 2, ⟨.blockClose, ⟨15, 3, 1⟩⟩, [⟨.give "7", ⟨17, 4, 1⟩⟩], rfl,
    ⟨by decide, hclosed.before_nonneg⟩, rfl⟩

end CodeUnit

end RegisterLang
