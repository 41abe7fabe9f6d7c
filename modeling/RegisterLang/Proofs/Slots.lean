import RegisterLang.Proofs.Control
import RegisterLang.Proofs.Verdict

/-!
# The slots of a compiled program

The compiler looks texts up in the order of the source and gives every new name the next slot. So the
table lists the names of the source at their first appearance, the instructions name them by their places
in that list, and more source behind changes neither the names nor the instructions that are there.

* `namesIn`: the names in some tokens. `Emitter.symbols_of_foldlM`: the compiler declares exactly these.
* `Lexeme.Becomes`: what the instruction of a lexeme has for its texts.
* `Carries`: the instructions of some code, jumps aside, are those of the statements among the tokens.
  `Body.carries_code`: the code of a body does so.
* `Emitter.Keeps`: code that no later token changes.
* `CodeUnit.ofTokens_slots`: the table and the slots of a compiled program.
-/

namespace RegisterLang

open Text

/-! ## Names in the order of the source -/

/-- The texts of the lexeme that are looked up, in order. -/
def Lexeme.texts : Lexeme → List String
  | declare name _ => [name]
  | assign target lhs _ rhs => [target, lhs, rhs]
  | branch lhs _ rhs => [lhs, rhs]
  | loop lhs _ rhs => [lhs, rhs]
  | give name => [name]
  | blockOpen => []
  | blockClose => []

/-- The names among the texts of the tokens, in order and with repeats. -/
def namesIn (tokens : List Token) : List String :=
  (tokens.flatMap (·.lexeme.texts)).filter (!isNumeral ·)

theorem mem_namesIn_iff {tokens : List Token} {name : String} :
    name ∈ namesIn tokens ↔ (∃ t ∈ tokens, name ∈ t.lexeme.texts) ∧ ¬ IsNumeral name := by
  rw [namesIn, List.mem_filter, List.mem_flatMap, ← isNumeral_eq_true_iff, Bool.not_eq_true',
    Bool.not_eq_true]

/-- Declares the names among the texts. -/
def SymbolTable.look (t : SymbolTable) (texts : List String) : SymbolTable :=
  (texts.filter (!isNumeral ·)).foldl insert t

theorem SymbolTable.look_append (t : SymbolTable) (texts others : List String) :
    t.look (texts ++ others) = (t.look texts).look others := by
  rw [look, List.filter_append, List.foldl_append, look, look]

theorem SymbolTable.look_name {name : String} (h : ¬ isNumeral name = true) (t : SymbolTable) :
    t.look [name] = t.insert name := by
  rw [look, List.filter_cons_of_pos (by simpa using h)]
  rfl

theorem SymbolTable.look_numeral {text : String} (h : isNumeral text = true) (t : SymbolTable) :
    t.look [text] = t := by
  rw [look, List.filter_cons_of_neg (by simpa using h)]
  rfl

namespace Emitter

theorem symbols_of_slot {e e' : Emitter} {name : String} {position : Position} {index : Nat}
    (h : e.slot name position = .ok (index, e')) : e'.symbols = e.symbols.look [name] := by
  unfold slot at h
  split at h
  · cases h
  · rename_i hname
    cases h
    exact (SymbolTable.look_name hname _).symm

theorem symbols_of_operand {e e' : Emitter} {text : String} {position : Position} {o : Operand}
    (h : e.operand text position = .ok (o, e')) : e'.symbols = e.symbols.look [text] := by
  unfold operand at h
  split at h
  · rename_i hnumeral
    obtain ⟨value, -, h⟩ := bind_eq_ok_iff.mp h
    cases h
    exact (SymbolTable.look_numeral hnumeral _).symm
  · rename_i hname
    cases h
    exact (SymbolTable.look_name hname _).symm

theorem symbols_of_openBlock {e e' : Emitter} {restart : Option Nat} {lhs relation rhs : String}
    {position : Position} (h : e.openBlock restart lhs relation rhs position = .ok e') :
    e'.symbols = e.symbols.look [lhs, rhs] := by
  unfold openBlock at h
  split at h
  · cases h
  · obtain ⟨⟨left, e₁⟩, hleft, h⟩ := bind_eq_ok_iff.mp h
    obtain ⟨⟨right, e₂⟩, hright, h⟩ := bind_eq_ok_iff.mp h
    obtain ⟨e₃, hcompare, h⟩ := bind_eq_ok_iff.mp h
    obtain ⟨exit, -, h⟩ := bind_eq_ok_iff.mp h
    obtain ⟨e₄, hjump, h⟩ := bind_eq_ok_iff.mp h
    cases h
    obtain rfl := emit_eq_ok hcompare
    obtain rfl := emit_eq_ok hjump
    change e₂.symbols = e.symbols.look ([lhs] ++ [rhs])
    rw [symbols_of_operand hright, symbols_of_operand hleft, SymbolTable.look_append]

/-- **One token declares the names among its texts**, in order. -/
theorem symbols_of_token {e e' : Emitter} {t : Token} (h : e.token t = .ok e') :
    e'.symbols = e.symbols.look t.lexeme.texts := by
  unfold token at h
  split at h
  · rename_i name value hlexeme
    obtain ⟨⟨dest, e₁⟩, hdest, h⟩ := bind_eq_ok_iff.mp h
    obtain ⟨number, -, h⟩ := bind_eq_ok_iff.mp h
    obtain rfl := emit_eq_ok h
    rw [hlexeme]
    change e₁.symbols = e.symbols.look [name]
    exact symbols_of_slot hdest
  · rename_i target lhs op rhs hlexeme
    obtain ⟨⟨dest, e₁⟩, hdest, h⟩ := bind_eq_ok_iff.mp h
    obtain ⟨⟨left, e₂⟩, hleft, h⟩ := bind_eq_ok_iff.mp h
    obtain ⟨⟨right, e₃⟩, hright, h⟩ := bind_eq_ok_iff.mp h
    obtain rfl := emit_eq_ok h
    rw [hlexeme]
    change e₃.symbols = e.symbols.look ([target] ++ ([lhs] ++ [rhs]))
    rw [symbols_of_operand hright, symbols_of_operand hleft, symbols_of_slot hdest,
      SymbolTable.look_append, SymbolTable.look_append]
  · rename_i lhs relation rhs hlexeme
    rw [hlexeme]
    exact symbols_of_openBlock h
  · rename_i lhs relation rhs hlexeme
    obtain ⟨start, -, h⟩ := bind_eq_ok_iff.mp h
    rw [hlexeme]
    exact symbols_of_openBlock h
  · rename_i name hlexeme
    obtain ⟨⟨source, e₁⟩, hsource, h⟩ := bind_eq_ok_iff.mp h
    obtain rfl := emit_eq_ok h
    rw [hlexeme]
    change e₁.symbols = e.symbols.look [name]
    exact symbols_of_slot hsource
  · rename_i hlexeme
    cases h
    rw [hlexeme]
    rfl
  · rename_i hlexeme
    rw [hlexeme]
    exact (closeBlock_eq_ok h).1

theorem symbols_of_foldlM {tokens : List Token} {e last : Emitter}
    (h : tokens.foldlM token e = .ok last) :
    last.symbols = e.symbols.look (tokens.flatMap (·.lexeme.texts)) := by
  induction tokens generalizing e with
  | nil =>
    cases h
    rfl
  | cons t tokens ih =>
    obtain ⟨e', hfirst, hrest⟩ := foldlM_cons_eq_ok_iff.mp h
    rw [ih hrest, symbols_of_token hfirst, List.flatMap_cons, SymbolTable.look_append]

end Emitter

theorem CodeUnit.names_of_ofTokens {tokens : List Token} {unit : CodeUnit}
    (h : ofTokens tokens = .ok unit) : unit.symbols.names = (namesIn tokens).eraseDups := by
  obtain ⟨e, hrun, -, rfl⟩ := ofTokens_eq_ok h
  rw [← SymbolTable.names_ofNames]
  exact congrArg SymbolTable.names (Emitter.symbols_of_foldlM hrun)

/-! ## Texts and instructions -/

/-- The operand stands for the text: it is the value of a numeral, or the place of a name in the list. -/
def Operand.Represents (names : List String) (text : String) : Operand → Prop
  | literal value => IsNumeral text ∧ IsDecimal text value.toInt
  | slot index => ¬ IsNumeral text ∧ names[index]? = some text

/-- The instruction of a lexeme. Slots are the places of the texts in the list of names, and literals the
values of the texts. -/
inductive Lexeme.Becomes (names : List String) : Lexeme → Instr → Prop
  | declare {name value : String} {dest : Nat} {number : Int32} (hdest : names[dest]? = some name)
    (hvalue : IsDecimal value number.toInt) : Becomes names (.declare name value) (.set dest number)
  | assign {target lhs rhs : String} {op : Operator} {dest : Nat} {l r : Operand}
    (hdest : names[dest]? = some target) (hlhs : l.Represents names lhs) (hrhs : r.Represents names rhs) :
    Becomes names (.assign target lhs op rhs) (.arith op dest l r)
  | branch {lhs rhs : String} {relation : Relation} {l r : Operand} (hlhs : l.Represents names lhs)
    (hrhs : r.Represents names rhs) :
    Becomes names (.branch lhs relation.symbol rhs) (.compare relation l r)
  | loop {lhs rhs : String} {relation : Relation} {l r : Operand} (hlhs : l.Represents names lhs)
    (hrhs : r.Represents names rhs) :
    Becomes names (.loop lhs relation.symbol rhs) (.compare relation l r)
  | give {name : String} {source : Nat} (hsource : names[source]? = some name) :
    Becomes names (.give name) (.ret source)

/-- Every name of the lexeme has its slot in the instruction. -/
theorem Lexeme.Becomes.exists_slot {names : List String} {lexeme : Lexeme} {instr : Instr}
    (h : lexeme.Becomes names instr) {name : String} (htext : name ∈ lexeme.texts)
    (hname : ¬ IsNumeral name) : ∃ slot ∈ instr.slots, names[slot]? = some name := by
  have hoperand {o : Operand} (ho : o.Represents names name) :
      ∃ slot ∈ o.slots, names[slot]? = some name := by
    cases o with
    | literal value => exact absurd ho.1 hname
    | slot index => exact ⟨index, List.mem_singleton_self index, ho.2⟩
  cases h with
  | declare hslot _ | give hslot =>
    obtain rfl := List.mem_singleton.mp htext
    exact ⟨_, List.mem_singleton_self _, hslot⟩
  | assign hdest hlhs hrhs =>
    simp only [texts, List.mem_cons, List.not_mem_nil, or_false] at htext
    rcases htext with rfl | rfl | rfl
    · exact ⟨_, List.mem_cons_self, hdest⟩
    · obtain ⟨slot, hslot, hplace⟩ := hoperand hlhs
      exact ⟨slot, by simp [Instr.slots, hslot], hplace⟩
    · obtain ⟨slot, hslot, hplace⟩ := hoperand hrhs
      exact ⟨slot, by simp [Instr.slots, hslot], hplace⟩
  | branch hlhs hrhs | loop hlhs hrhs =>
    simp only [texts, List.mem_cons, List.not_mem_nil, or_false] at htext
    rcases htext with rfl | rfl
    · obtain ⟨slot, hslot, hplace⟩ := hoperand hlhs
      exact ⟨slot, List.mem_append_left _ hslot, hplace⟩
    · obtain ⟨slot, hslot, hplace⟩ := hoperand hrhs
      exact ⟨slot, List.mem_append_right _ hslot, hplace⟩

/-- The lexeme is no brace. -/
def Lexeme.isStatement : Lexeme → Bool
  | blockOpen | blockClose => false
  | _ => true

theorem Lexeme.Becomes.isStatement {names : List String} {lexeme : Lexeme} {instr : Instr}
    (h : lexeme.Becomes names instr) : lexeme.isStatement = true := by
  cases h <;> rfl

theorem Lexeme.Becomes.jumpTarget? {names : List String} {lexeme : Lexeme} {instr : Instr}
    (h : lexeme.Becomes names instr) : instr.jumpTarget? = none := by
  cases h <;> rfl

/-- The statements among the lexemes and the instructions of the program, jumps aside, go in pairs: the
first with the first, and so on. -/
def Carries (names : List String) (lexemes : List Lexeme) (program : Program) : Prop :=
  ∃ pairs : List (Lexeme × Instr), pairs.map Prod.fst = lexemes.filter Lexeme.isStatement
    ∧ pairs.map Prod.snd = program.filter (·.jumpTarget?.isNone)
    ∧ ∀ pair ∈ pairs, pair.1.Becomes names pair.2

namespace Carries

variable {names : List String} {lexemes : List Lexeme} {program : Program}

theorem nil : Carries names [] [] := ⟨[], rfl, rfl, by simp⟩

theorem cons {lexeme : Lexeme} {instr : Instr} (hfirst : lexeme.Becomes names instr)
    (h : Carries names lexemes program) : Carries names (lexeme :: lexemes) (instr :: program) := by
  obtain ⟨pairs, hlexemes, hinstrs, hpairs⟩ := h
  refine ⟨(lexeme, instr) :: pairs, ?_, ?_, List.forall_mem_cons.mpr ⟨hfirst, hpairs⟩⟩
  · rw [List.map_cons, hlexemes, List.filter_cons_of_pos hfirst.isStatement]
  · rw [List.map_cons, hinstrs, List.filter_cons_of_pos (by rw [hfirst.jumpTarget?]; rfl)]

theorem append {others : List Lexeme} {rest : Program} (h : Carries names lexemes program)
    (hrest : Carries names others rest) : Carries names (lexemes ++ others) (program ++ rest) := by
  obtain ⟨pairs, hlexemes, hinstrs, hpairs⟩ := h
  obtain ⟨pairs', hlexemes', hinstrs', hpairs'⟩ := hrest
  refine ⟨pairs ++ pairs', ?_, ?_, List.forall_mem_append.mpr ⟨hpairs, hpairs'⟩⟩
  · rw [List.map_append, hlexemes, hlexemes', List.filter_append]
  · rw [List.map_append, hinstrs, hinstrs', List.filter_append]

theorem jumping {instr : Instr} (hjump : instr.jumpTarget? ≠ none)
    (h : Carries names lexemes program) : Carries names lexemes (instr :: program) := by
  obtain ⟨pairs, hlexemes, hinstrs, hpairs⟩ := h
  refine ⟨pairs, hlexemes, ?_, hpairs⟩
  rw [hinstrs, List.filter_cons_of_neg (by simpa using hjump)]

theorem closing (h : Carries names lexemes program) :
    Carries names (.blockClose :: lexemes) program := h

end Carries

/-! ## The code of a body -/

theorem isDecimal_of_ofConstant? {text : String} {position : Position}
    (h : CompileError.ofConstant? text position = none) :
    IsDecimal text ((int32OfText? text).getD 0).toInt := by
  have hdecimal : IsDecimal32 text := by
    unfold CompileError.ofConstant? at h
    split at h
    · assumption
    · cases h
  obtain ⟨value, hvalue⟩ := hdecimal
  rwa [int32OfText?_eq_some_iff.mpr hvalue, Option.getD_some]

theorem Operand.represents_ofText {symbols : SymbolTable} {text : String} {position : Position}
    (hknows : symbols.Knows text) (hvalid : CompileError.ofOperand? text position = none) :
    (ofText symbols text).Represents symbols.names text := by
  by_cases hnumeral : IsNumeral text
  · rw [CompileError.ofOperand?, if_pos hnumeral] at hvalid
    rw [ofText, if_pos (isNumeral_eq_true_iff.mpr hnumeral)]
    exact ⟨hnumeral, isDecimal_of_ofConstant? hvalid⟩
  · have hname := mt isNumeral_eq_true_iff.mp hnumeral
    rw [ofText, if_neg hname]
    exact ⟨hnumeral, SymbolTable.getElem?_slot (hknows.resolve_left hname)⟩

theorem exists_symbol_of_ofRelation? {sign : String} {position : Position}
    (h : CompileError.ofRelation? sign position = none) : ∃ relation : Relation, sign = relation.symbol := by
  unfold CompileError.ofRelation? at h
  split at h
  · assumption
  · cases h

/-- The comparison of a condition that has nothing wrong. -/
theorem Condition.exists_instr {symbols : SymbolTable} {c : Condition} {position : Position}
    (hlhs : symbols.Knows c.lhs) (hrhs : symbols.Knows c.rhs)
    (hvalid : (CompileError.ofRelation? c.relation position).or
      ((CompileError.ofOperand? c.lhs position).or (CompileError.ofOperand? c.rhs position)) = none) :
    ∃ relation l r, c.relation = relation.symbol ∧ c.instr symbols = .compare relation l r
      ∧ l.Represents symbols.names c.lhs ∧ r.Represents symbols.names c.rhs := by
  obtain ⟨hrelation, hvalid⟩ := Option.or_eq_none_iff.mp hvalid
  obtain ⟨hleft, hright⟩ := Option.or_eq_none_iff.mp hvalid
  obtain ⟨relation, hsign⟩ := exists_symbol_of_ofRelation? hrelation
  refine ⟨relation, _, _, hsign, ?_, Operand.represents_ofText hlhs hleft,
    Operand.represents_ofText hrhs hright⟩
  rw [instr, Relation.ofSymbol?_eq_some_iff.mpr hsign, Option.getD_some]

/-- The table has the names of the lexeme, and nothing is wrong with it on its own. -/
def Lexeme.Compiles (symbols : SymbolTable) (lexeme : Lexeme) : Prop :=
  lexeme.Resolved symbols ∧ ∃ position, Token.localFault? ⟨lexeme, position⟩ = none

/-- **The code of a body carries out its lexemes.** -/
theorem Body.carries_code {symbols : SymbolTable} {body : Body}
    (h : ∀ lexeme ∈ body.lexemes, lexeme.Compiles symbols) (address : Nat) :
    Carries symbols.names body.lexemes (body.code symbols address) := by
  induction body generalizing address with
  | done => exact .nil
  | declare name value rest ih =>
    obtain ⟨⟨hname, position, hvalid⟩, hrest⟩ := List.forall_mem_cons.mp h
    obtain ⟨-, hvalue⟩ := Option.or_eq_none_iff.mp hvalid
    exact .cons (.declare (SymbolTable.getElem?_slot hname) (isDecimal_of_ofConstant? hvalue))
      (ih hrest (address + 1))
  | assign target lhs op rhs rest ih =>
    obtain ⟨⟨⟨htarget, hlhs, hrhs⟩, position, hvalid⟩, hrest⟩ := List.forall_mem_cons.mp h
    obtain ⟨-, hvalid⟩ := Option.or_eq_none_iff.mp hvalid
    obtain ⟨hleft, hright⟩ := Option.or_eq_none_iff.mp hvalid
    exact .cons (.assign (SymbolTable.getElem?_slot htarget) (Operand.represents_ofText hlhs hleft)
      (Operand.represents_ofText hrhs hright)) (ih hrest (address + 1))
  | give name rest ih =>
    obtain ⟨⟨hname, -⟩, hrest⟩ := List.forall_mem_cons.mp h
    exact .cons (.give (SymbolTable.getElem?_slot hname)) (ih hrest (address + 1))
  | branch c body rest ihb ihr =>
    obtain ⟨⟨⟨hlhs, hrhs⟩, position, hvalid⟩, h⟩ := List.forall_mem_cons.mp h
    obtain ⟨hbody, h⟩ := List.forall_mem_append.mp h
    obtain ⟨-, hrest⟩ := List.forall_mem_cons.mp h
    obtain ⟨relation, l, r, hsign, hinstr, hl, hr⟩ := Condition.exists_instr hlhs hrhs hvalid
    rw [lexemes, code, hinstr, hsign]
    exact .cons (.branch hl hr)
      (.jumping (by simp [Instr.jumpTarget?]) ((ihb hbody _).append (ihr hrest _).closing))
  | loop c body rest ihb ihr =>
    obtain ⟨⟨⟨hlhs, hrhs⟩, position, hvalid⟩, h⟩ := List.forall_mem_cons.mp h
    obtain ⟨hbody, h⟩ := List.forall_mem_append.mp h
    obtain ⟨-, hrest⟩ := List.forall_mem_cons.mp h
    obtain ⟨relation, l, r, hsign, hinstr, hl, hr⟩ := Condition.exists_instr hlhs hrhs hvalid
    rw [lexemes, code, hinstr, hsign]
    exact .cons (.loop hl hr) (.jumping (by simp [Instr.jumpTarget?])
      ((ihb hbody _).append (.jumping (by simp [Instr.jumpTarget?]) (ihr hrest _).closing)))

theorem Carries.of_filter {names : List String} {lexemes : List Lexeme} {program : Program}
    (h : Carries names (lexemes.filter (· ≠ .blockOpen)) program) : Carries names lexemes program := by
  have hstatements : (lexemes.filter (· ≠ .blockOpen)).filter Lexeme.isStatement
      = lexemes.filter Lexeme.isStatement := by
    rw [List.filter_filter]
    apply List.filter_congr
    intro lexeme _
    cases lexeme <;> simp [Lexeme.isStatement]
  obtain ⟨pairs, hlexemes, hpairs⟩ := h
  exact ⟨pairs, hlexemes.trans hstatements, hpairs⟩

namespace CodeUnit

theorem flawless_of_ofTokens {tokens : List Token} {unit : CodeUnit} (h : ofTokens tokens = .ok unit) :
    Flawless tokens := by
  rcases ofTokens_cases tokens with ⟨herror, -⟩ | ⟨_, -, hflawless, -⟩ | ⟨error, herror, -⟩
  · rw [h] at herror
    cases herror
  · exact hflawless
  · rw [h] at herror
    cases herror

theorem carries_of_ofTokens {tokens : List Token} {unit : CodeUnit} (h : ofTokens tokens = .ok unit) :
    Carries unit.symbols.names (tokens.map Token.lexeme) unit.program := by
  obtain ⟨body, hbody, hprogram, hresolved⟩ := exists_body h
  have hlexemes := Body.ofLexemes?_eq_some_iff.mp hbody
  have hcompiles : ∀ lexeme ∈ body.lexemes, lexeme.Compiles unit.symbols := by
    intro lexeme hlexeme
    refine ⟨hresolved lexeme hlexeme, ?_⟩
    rw [hlexemes] at hlexeme
    obtain ⟨t, ht, rfl⟩ := List.mem_map.mp (List.mem_filter.mp hlexeme).1
    exact ⟨t.position, (flawless_of_ofTokens h).valid t ht⟩
  rw [hprogram]
  apply Carries.of_filter
  rw [← hlexemes]
  exact Body.carries_code hcompiles 0

/-- Every name of the table has its slot in some instruction. -/
theorem exists_instr_of_lt {tokens : List Token} {unit : CodeUnit} (h : ofTokens tokens = .ok unit)
    {slot : Nat} (hslot : slot < unit.symbols.names.length) :
    ∃ instr ∈ unit.program, slot ∈ instr.slots := by
  obtain ⟨name, hname⟩ : ∃ name, unit.symbols.names[slot]? = some name :=
    ⟨_, List.getElem?_eq_getElem hslot⟩
  have hmem := List.mem_of_getElem? hname
  rw [names_of_ofTokens h, List.mem_eraseDups] at hmem
  obtain ⟨⟨t, ht, htext⟩, hnot⟩ := mem_namesIn_iff.mp hmem
  have hstatement : t.lexeme ∈ (tokens.map Token.lexeme).filter Lexeme.isStatement := by
    refine List.mem_filter.mpr ⟨List.mem_map_of_mem ht, ?_⟩
    cases hlexeme : t.lexeme <;> simp_all [Lexeme.texts, Lexeme.isStatement]
  obtain ⟨pairs, hlexemes, hinstrs, hpairs⟩ := carries_of_ofTokens h
  rw [← hlexemes] at hstatement
  obtain ⟨⟨lexeme, instr⟩, hpair, rfl⟩ := List.mem_map.mp hstatement
  have hinstr : instr ∈ pairs.map Prod.snd := List.mem_map_of_mem hpair
  rw [hinstrs] at hinstr
  obtain ⟨other, hother, hplace⟩ := (hpairs _ hpair).exists_slot htext hnot
  have hsame : slot = other := (List.getElem?_inj hslot unit.symbols.nodup).mp (hname.trans hplace.symm)
  exact ⟨instr, (List.mem_filter.mp hinstr).1, hsame ▸ hother⟩

end CodeUnit

/-! ## Code that stays -/

/-- The code starts with the given one, and no open block has its exit in it. -/
structure Emitter.Keeps (front : Program) (e : Emitter) : Prop where
  starts : front <+: e.code.toList
  exit_le : ∀ block ∈ e.blocks, front.length ≤ block.exit

theorem OpenBlock.isPrefix_close {block : OpenBlock} {front code : Program} (h : front <+: code)
    (hexit : front.length ≤ block.exit) : front <+: block.close code := by
  obtain ⟨rest, rfl⟩ := h
  have hpatch (more : Program) (target : Nat) :
      front <+: Program.patch (front ++ more) block.exit target := by
    rcases Program.patch_cases (front ++ more) block.exit target with h | h
    · rw [h, List.set_append_right _ _ hexit]
      exact List.prefix_append _ _
    · rw [h]
      exact List.prefix_append _ _
  unfold close
  split
  · exact hpatch rest _
  · rw [List.append_assoc]
    exact hpatch _ _

/-- **No token changes the code that was there before the open blocks.** -/
theorem Emitter.Keeps.token {front : Program} {e e' : Emitter} {t : Token} (h : e.Keeps front)
    (htoken : e.token t = .ok e') : e'.Keeps front := by
  obtain ⟨-, -, hemits⟩ := token_emits htoken
  have hstep := hemits e'.symbols (.refl _)
  generalize t.lexeme = lexeme at hstep
  cases lexeme with
  | declare name value | assign target lhs op rhs | give name =>
    obtain ⟨hcode, hblocks⟩ := hstep
    refine ⟨?_, ?_⟩
    · rw [hcode]
      exact h.starts.trans (List.prefix_append _ _)
    · rw [hblocks]
      exact h.exit_le
  | branch lhs relation rhs | loop lhs relation rhs =>
    obtain ⟨hcode, position, hblocks⟩ := hstep
    refine ⟨?_, ?_⟩
    · rw [hcode]
      exact h.starts.trans (List.prefix_append _ _)
    · rw [hblocks]
      have hlength := h.starts.length_le
      rw [Array.length_toList] at hlength
      exact List.forall_mem_cons.mpr ⟨Nat.le_succ_of_le hlength, h.exit_le⟩
  | blockOpen =>
    obtain ⟨hcode, hblocks⟩ := hstep
    exact ⟨hcode ▸ h.starts, hblocks ▸ h.exit_le⟩
  | blockClose =>
    obtain ⟨block, hblocks, hcode⟩ := hstep
    have hexits := h.exit_le
    rw [hblocks] at hexits
    obtain ⟨hexit, hothers⟩ := List.forall_mem_cons.mp hexits
    refine ⟨?_, hothers⟩
    rw [hcode]
    exact OpenBlock.isPrefix_close h.starts hexit

namespace CodeUnit

/-- **More tokens behind change nothing of what is there.** -/
theorem isPrefix_of_append {tokens more : List Token} {unit longer : CodeUnit}
    (h : ofTokens tokens = .ok unit) (hlonger : ofTokens (tokens ++ more) = .ok longer) :
    unit.symbols.names <+: longer.symbols.names ∧ unit.program <+: longer.program := by
  obtain ⟨e, hrun, hclosed, rfl⟩ := ofTokens_eq_ok h
  obtain ⟨last, hwhole, -, rfl⟩ := ofTokens_eq_ok hlonger
  obtain ⟨e', hrun', hmore⟩ := foldlM_append_eq_ok_iff.mp hwhole
  rw [hrun] at hrun'
  cases hrun'
  have hkeeps : e.Keeps e.code.toList := ⟨List.prefix_refl _, by simp [hclosed]⟩
  have hlast := foldlM_invariant (fun _ _ _ => Emitter.Keeps.token) hkeeps hmore
  exact ⟨(Emitter.extends_of_foldlM hmore).1, hlast.starts⟩

/-- **Slots are given in the order of first appearance and used consistently.** The table has the names in
the tokens, each at its first appearance. The statements and the instructions, jumps aside, go in pairs; in
each pair the slots are the places of the texts in the table, and the literals their values. No slot lies
outside the table, and none is without use. More tokens behind change neither the names nor the program. -/
theorem ofTokens_slots {tokens : List Token} {unit : CodeUnit} (h : ofTokens tokens = .ok unit) :
    unit.symbols.names = (namesIn tokens).eraseDups
      ∧ Carries unit.symbols.names (tokens.map Token.lexeme) unit.program
      ∧ (∀ instr ∈ unit.program, ∀ slot ∈ instr.slots, slot < unit.symbols.names.length)
      ∧ (∀ slot < unit.symbols.names.length, ∃ instr ∈ unit.program, slot ∈ instr.slots)
      ∧ ∀ more longer, ofTokens (tokens ++ more) = .ok longer →
          unit.symbols.names <+: longer.symbols.names ∧ unit.program <+: longer.program := by
  refine ⟨names_of_ofTokens h, carries_of_ofTokens h, (sound_of_ofTokens h).slot_lt, ?_, ?_⟩
  · intro slot hslot
    exact exists_instr_of_lt h hslot
  · intro more longer hlonger
    exact isPrefix_of_append h hlonger

/-- One more variable, declared behind the tokens of `sumTokens`. -/
def declaredLast : Token := ⟨.declare "k" "-007", ⟨59, 2, 1⟩⟩

/-- The code unit of `sumTokens` with `declaredLast` behind them. -/
def longerUnit : CodeUnit := ⟨sumUnit.program ++ [.set 2 (-7)], ⟨["i", "n", "k"], by decide⟩⟩

theorem ofTokens_slots_sum :
    ofTokens sumTokens = .ok sumUnit
      ∧ sumUnit.symbols.names = (namesIn sumTokens).eraseDups
      ∧ Carries ["i", "n"] (sumTokens.map Token.lexeme) sumUnit.program
      ∧ (∃ instr ∈ sumUnit.program, 1 ∈ instr.slots)
      ∧ ofTokens (sumTokens ++ [declaredLast]) = .ok longerUnit
      ∧ ["i", "n"] <+: longerUnit.symbols.names ∧ sumUnit.program <+: longerUnit.program := by
  have h : ofTokens sumTokens = .ok sumUnit := rfl
  have hlonger : ofTokens (sumTokens ++ [declaredLast]) = .ok longerUnit := rfl
  obtain ⟨hnames, hcarries, -, hused, hstays⟩ := ofTokens_slots h
  obtain ⟨hnames', hprogram⟩ := hstays _ _ hlonger
  exact ⟨h, hnames, hcarries, hused 1 (by decide), hlonger, hnames', hprogram⟩

end CodeUnit

end RegisterLang
