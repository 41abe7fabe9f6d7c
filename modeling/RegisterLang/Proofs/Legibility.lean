import RegisterLang.Proofs.Lines
import RegisterLang.Proofs.Pipeline
import RegisterLang.Proofs.Slots

/-!
# What a listing tells

A listing shows all of a program: two programs with the same listing are the same. Without symbols slots are
shown by number. With symbols they are shown by name, and it matters which names there are: those of a
compiled source consist of name characters, differ from each other, and are never numerals.

* `Legible`: the names are names, and not numerals. `Shown`: the slot has one.
* `slotText_inj`, `Operand.listed_inj`, `Instr.listed_inj`: the text of a slot, an operand or an instruction
  tells which one it is.
* `Program.eq_of_listing_eq`: so does a listing for its program.
* `Toolchain.legible_of_compile`: the names of a compiled source.
* `Toolchain.listing_legible`: different programs have different listings, and so have different units.
-/

namespace RegisterLang

open Text

/-! ## Texts with separators -/

namespace Text

/-- A text ends where the separator behind it starts, if it has not got its first character. -/
theorem append_separator_inj {separator : String} {c : Char} {tail : List Char}
    (hseparator : separator.toList = c :: tail) {text text' rest rest' : String} (htext : c ∉ text.toList)
    (htext' : c ∉ text'.toList) (h : text ++ (separator ++ rest) = text' ++ (separator ++ rest')) :
    text = text' ∧ rest = rest' := by
  simp only [← String.toList_inj, String.toList_append, hseparator, List.cons_append] at h ⊢
  have hpieces := congrArg (List.splitOn c) h
  rw [List.splitOn_append_cons_self_of_not_mem htext,
    List.splitOn_append_cons_self_of_not_mem htext'] at hpieces
  have hsame : text.toList = text'.toList := (List.cons.inj hpieces).1
  rw [hsame] at h
  have hrest := (List.cons.inj (List.append_cancel_left h)).2
  exact ⟨hsame, List.append_cancel_left hrest⟩

theorem intercalate_inj {texts texts' : List String} (h : ∀ text ∈ texts, ',' ∉ text.toList)
    (h' : ∀ text ∈ texts', ',' ∉ text.toList) (hlength : texts.length = texts'.length)
    (heq : String.intercalate ", " texts = String.intercalate ", " texts') : texts = texts' := by
  induction texts generalizing texts' with
  | nil => exact (List.length_eq_zero_iff.mp hlength.symm).symm
  | cons text texts ih =>
    obtain ⟨text', texts', rfl⟩ := List.exists_cons_of_length_eq_add_one hlength.symm
    obtain ⟨htext, htexts⟩ := List.forall_mem_cons.mp h
    obtain ⟨htext', htexts'⟩ := List.forall_mem_cons.mp h'
    have hrest : texts.length = texts'.length := Nat.succ.inj hlength
    cases texts with
    | nil =>
      obtain rfl := List.length_eq_zero_iff.mp hrest.symm
      simpa using heq
    | cons next texts =>
      obtain ⟨next', texts', rfl⟩ := List.exists_cons_of_length_eq_add_one hrest.symm
      rw [String.intercalate_cons_cons, String.intercalate_cons_cons, String.append_assoc,
        String.append_assoc] at heq
      obtain ⟨rfl, hnext⟩ := append_separator_inj rfl htext htext' heq
      rw [ih htexts htexts' hrest hnext]

theorem repr_inj {m n : Nat} (h : m.repr = n.repr) : m = n := by
  rw [← ofDigitChars_repr m, h, ofDigitChars_repr]

end Text

/-! ## Slots and operands -/

/-- The names consist of name characters, and none of them is a numeral. -/
def Legible (symbols : Option SymbolTable) : Prop :=
  ∀ table, symbols = some table → ∀ name ∈ table.names, IsName name ∧ ¬ IsNumeral name

/-- The slot has a name, if there are names at all. -/
def Shown (symbols : Option SymbolTable) (slot : Nat) : Prop :=
  ∀ table, symbols = some table → slot < table.names.length

theorem isName_register (slot : Nat) : IsName ("r" ++ slot.repr) := by
  refine ⟨by simp, ?_⟩
  intro c hc
  rw [String.toList_append, List.mem_append] at hc
  rcases hc with hc | hc
  · rw [List.mem_singleton.mp hc]
    decide
  · exact isNameChar_of_isDigit ((isDigits_repr slot).2 c hc)

theorem not_isNumeral_register (slot : Nat) : ¬ IsNumeral ("r" ++ slot.repr) := by
  have hchars : ("r" ++ slot.repr).toList = 'r' :: slot.repr.toList := by simp
  rintro (hdigits | ⟨digits, -, htext⟩)
  · exact hdigits.ne_cons (by decide) _ hchars
  · rw [hchars] at htext
    cases htext

/-- A slot is shown by a name that is no numeral, also where it has to be shown by its number. -/
theorem Legible.slotText {symbols : Option SymbolTable} (h : Legible symbols) (slot : Nat) :
    IsName (slotText symbols slot) ∧ ¬ IsNumeral (slotText symbols slot) := by
  cases symbols with
  | none => exact ⟨isName_register slot, not_isNumeral_register slot⟩
  | some table =>
    rw [RegisterLang.slotText, Option.bind_some]
    cases hname : table.nameOf? slot with
    | none => exact ⟨isName_register slot, not_isNumeral_register slot⟩
    | some name => exact h table rfl name (List.mem_of_getElem? hname)

/-- Different slots are shown by different texts. -/
theorem slotText_inj {symbols : Option SymbolTable} {slot other : Nat} (hslot : Shown symbols slot)
    (hother : Shown symbols other) (heq : slotText symbols slot = slotText symbols other) :
    slot = other := by
  cases symbols with
  | none => exact repr_inj ((String.append_right_inj _).mp heq)
  | some table =>
    have hname {i : Nat} (hi : i < table.names.length) : slotText (some table) i = table.names[i] := by
      rw [slotText, Option.bind_some, SymbolTable.nameOf?, List.getElem?_eq_getElem hi, Option.getD_some]
    rw [hname (hslot table rfl), hname (hother table rfl)] at heq
    apply (List.getElem?_inj (hslot table rfl) table.nodup).mp
    rw [List.getElem?_eq_getElem (hslot table rfl), List.getElem?_eq_getElem (hother table rfl), heq]

section Texts

variable {symbols : Option SymbolTable} (h : Legible symbols)

include h

theorem Operand.isOperand_listed (operand : Operand) : IsOperand (operand.listed symbols) := by
  cases operand with
  | literal value => exact IsNumeral.isOperand (isNumeral_intText value.toInt)
  | slot index => exact .inl (h.slotText index).1

/-- **A literal and a slot are never shown alike.** -/
theorem Operand.literal_ne_slot (value : Int32) (index : Nat) :
    (literal value).listed symbols ≠ (slot index).listed symbols := by
  intro heq
  have hnumeral := isNumeral_intText value.toInt
  rw [listed, listed] at heq
  rw [heq] at hnumeral
  exact (h.slotText index).2 hnumeral

/-- The text of an operand tells which operand it is. -/
theorem Operand.listed_inj {operand other : Operand} (hshown : ∀ slot ∈ operand.slots, Shown symbols slot)
    (hother : ∀ slot ∈ other.slots, Shown symbols slot)
    (heq : operand.listed symbols = other.listed symbols) : operand = other := by
  cases operand with
  | literal value =>
    cases other with
    | literal value' => rw [Int32.toInt_inj.mp (intText_inj heq)]
    | slot index => exact absurd heq (literal_ne_slot h value index)
  | slot index =>
    cases other with
    | literal value => exact absurd heq.symm (literal_ne_slot h value index)
    | slot index' =>
      rw [slotText_inj (List.forall_mem_singleton.mp hshown) (List.forall_mem_singleton.mp hother) heq]

/-- The text of an operand ends where the separator behind it starts. -/
theorem Operand.listed_append_inj {separator : String} {c : Char} {tail : List Char}
    (hseparator : separator.toList = c :: tail) (hname : isNameChar c = false) (hminus : c ≠ '-')
    {operand other : Operand} (hshown : ∀ slot ∈ operand.slots, Shown symbols slot)
    (hother : ∀ slot ∈ other.slots, Shown symbols slot) {rest rest' : String}
    (heq : operand.listed symbols ++ (separator ++ rest) = other.listed symbols ++ (separator ++ rest')) :
    operand = other ∧ rest = rest' := by
  have htext := (isOperand_listed h operand).notMem hname hminus
  have htext' := (isOperand_listed h other).notMem hname hminus
  obtain ⟨hlisted, hrest⟩ := append_separator_inj hseparator htext htext' heq
  exact ⟨listed_inj h hshown hother hlisted, hrest⟩

/-- A slot is shown like an operand. -/
theorem slotText_append_inj {separator : String} {c : Char} {tail : List Char}
    (hseparator : separator.toList = c :: tail) (hname : isNameChar c = false) (hminus : c ≠ '-')
    {slot other : Nat} (hshown : Shown symbols slot) (hother : Shown symbols other) {rest rest' : String}
    (heq : slotText symbols slot ++ (separator ++ rest) = slotText symbols other ++ (separator ++ rest')) :
    slot = other ∧ rest = rest' := by
  have htext := (Operand.isOperand_listed h (.slot slot)).notMem hname hminus
  have htext' := (Operand.isOperand_listed h (.slot other)).notMem hname hminus
  obtain ⟨hsame, hrest⟩ := append_separator_inj hseparator htext htext' heq
  exact ⟨slotText_inj hshown hother hsame, hrest⟩

/-! ## Instructions -/

theorem Instr.details_inj {instr other : Instr} (hshown : ∀ slot ∈ instr.slots, Shown symbols slot)
    (hother : ∀ slot ∈ other.slots, Shown symbols slot) (hopcode : instr.opcode = other.opcode)
    (heq : instr.details symbols = other.details symbols) : instr = other := by
  cases instr with
  | set dest value =>
    cases other with
    | set dest' value' =>
      simp only [details, String.append_assoc] at heq
      obtain ⟨rfl, hvalue⟩ := slotText_append_inj h rfl (by decide) (by decide)
        (List.forall_mem_singleton.mp hshown) (List.forall_mem_singleton.mp hother) heq
      rw [Int32.toInt_inj.mp (intText_inj hvalue)]
    | _ => cases hopcode
  | arith op dest lhs rhs =>
    cases other with
    | arith op' dest' lhs' rhs' =>
      obtain ⟨hdest, hoperands⟩ := List.forall_mem_cons.mp hshown
      obtain ⟨hlhs, hrhs⟩ := List.forall_mem_append.mp hoperands
      obtain ⟨hdest', hoperands'⟩ := List.forall_mem_cons.mp hother
      obtain ⟨hlhs', hrhs'⟩ := List.forall_mem_append.mp hoperands'
      simp only [details, String.append_assoc] at heq
      obtain ⟨rfl, hbehind⟩ := slotText_append_inj h rfl (by decide) (by decide) hdest hdest' heq
      obtain ⟨rfl, hright⟩ := Operand.listed_append_inj h rfl (by decide) (by decide) hlhs hlhs' hbehind
      obtain rfl := Operand.listed_inj h hrhs hrhs' hright
      cases hopcode
      rfl
    | _ => cases hopcode
  | compare relation lhs rhs =>
    cases other with
    | compare relation' lhs' rhs' =>
      obtain ⟨hlhs, hrhs⟩ := List.forall_mem_append.mp hshown
      obtain ⟨hlhs', hrhs'⟩ := List.forall_mem_append.mp hother
      have hsign (r : Relation) : ' ' ∉ r.symbol.toList := by cases r <;> decide
      simp only [details, String.append_assoc] at heq
      obtain ⟨rfl, hbehind⟩ := Operand.listed_append_inj h rfl (by decide) (by decide) hlhs hlhs' heq
      obtain ⟨hsymbol, hright⟩ := append_separator_inj rfl (hsign relation) (hsign relation') hbehind
      obtain rfl := Operand.listed_inj h hrhs hrhs' hright
      have hrelation := Relation.ofSymbol?_symbol relation
      rw [hsymbol, Relation.ofSymbol?_symbol] at hrelation
      rw [Option.some.inj hrelation]
    | _ => cases hopcode
  | jumpIfFalse target =>
    cases other with
    | jumpIfFalse target' => rw [zeroPadded_inj ((String.append_right_inj _).mp heq)]
    | _ => cases hopcode
  | jump target =>
    cases other with
    | jump target' => rw [zeroPadded_inj ((String.append_right_inj _).mp heq)]
    | _ => cases hopcode
  | ret source =>
    cases other with
    | ret source' =>
      rw [slotText_inj (List.forall_mem_singleton.mp hshown) (List.forall_mem_singleton.mp hother) heq]
    | _ => cases hopcode

omit h in
/-- The column of the mnemonic tells the opcode. -/
theorem Opcode.padRight_mnemonic_inj {opcode other : Opcode}
    (heq : padRight 13 opcode.mnemonic = padRight 13 other.mnemonic) : opcode = other := by
  have hall : ∀ i < 10, ∀ j < 10, (ofNumber? i).map (fun opcode => padRight 13 opcode.mnemonic)
      = (ofNumber? j).map (fun opcode => padRight 13 opcode.mnemonic) → i = j := by decide
  have hnumber := hall opcode.number opcode.number_lt other.number other.number_lt
    (by rw [ofNumber?_number, ofNumber?_number, Option.map_some, Option.map_some, heq])
  have hopcode := ofNumber?_number opcode
  rw [hnumber, ofNumber?_number] at hopcode
  exact (Option.some.inj hopcode).symm

/-- **The text of an instruction tells which instruction it is.** -/
theorem Instr.listed_inj {instr other : Instr} (hshown : ∀ slot ∈ instr.slots, Shown symbols slot)
    (hother : ∀ slot ∈ other.slots, Shown symbols slot) (heq : instr.listed symbols = other.listed symbols) :
    instr = other := by
  -- the mnemonics fill a column of one width, so there is no need for a separator behind them
  have hwidth (opcode : Opcode) : (padRight 13 opcode.mnemonic).toList.length = 13 := by
    cases opcode with
    | arith op => cases op <;> decide
    | _ => decide
  simp only [listed, ← String.toList_inj, String.toList_append, List.append_assoc] at heq
  obtain ⟨hmnemonic, hbehind⟩ := List.append_inj heq ((hwidth _).trans (hwidth _).symm)
  have hopcode := Opcode.padRight_mnemonic_inj (String.toList_inj.mp hmnemonic)
  have hdetails := String.toList_inj.mp (List.append_cancel_left hbehind)
  exact details_inj h hshown hother hopcode hdetails

end Texts

/-! ## Listings -/

namespace Program

/-- No line with an address is a rule. -/
theorem targetRule_ne (address : Nat) (mark text : String) :
    targetRule ≠ zeroPadded 4 address ++ mark ++ text := by
  intro heq
  have hfirst : targetRule.toList.head? = some ' ' := by simp [targetRule]
  obtain ⟨hne, hdigits⟩ := isDigits_zeroPadded 4 address
  obtain ⟨c, cs, hchars⟩ := List.exists_cons_of_ne_nil hne
  rw [heq, String.toList_append, String.toList_append, hchars] at hfirst
  have hdigit := hdigits c (by simp [hchars])
  rw [Option.some.inj hfirst] at hdigit
  cases hdigit

/-- The lines of one address tell the text of its instruction, whether they are marked or not. -/
theorem addressLines_inj {targets targets' : List Nat} {address : Nat} {text text' : String}
    {rest rest' : List String}
    (heq : addressLines targets address text ++ rest = addressLines targets' address text' ++ rest') :
    text = text' ∧ rest = rest' := by
  have hline {mark : String}
      (h : zeroPadded 4 address ++ mark ++ text = zeroPadded 4 address ++ mark ++ text') : text = text' :=
    (String.append_right_inj _).mp h
  -- where only one of them is marked, a rule would be a line with an address
  unfold addressLines at heq
  split at heq <;> split at heq
  · obtain ⟨-, heq⟩ := List.cons.inj heq
    obtain ⟨hfirst, hrest⟩ := List.cons.inj heq
    exact ⟨hline hfirst, hrest⟩
  · exact absurd (List.cons.inj heq).1 (targetRule_ne address _ _)
  · exact absurd (List.cons.inj heq).1.symm (targetRule_ne address _ _)
  · obtain ⟨hfirst, hrest⟩ := List.cons.inj heq
    exact ⟨hline hfirst, hrest⟩

/-- The lines of the code tell the instructions, one after the other. The two sets of targets are those of
the programs, so they may differ as long as the programs are not known to be the same. -/
theorem codeLines_inj {symbols : Option SymbolTable} (h : Legible symbols)
    {targets targets' : List Nat} {address : Nat} {program other : Program} {rest rest' : List String}
    (hlength : program.length = other.length)
    (hshown : ∀ instr ∈ program, ∀ slot ∈ instr.slots, Shown symbols slot)
    (hother : ∀ instr ∈ other, ∀ slot ∈ instr.slots, Shown symbols slot)
    (heq : codeLines targets symbols address program ++ rest
      = codeLines targets' symbols address other ++ rest') : program = other := by
  induction program generalizing address other with
  | nil => exact (List.length_eq_zero_iff.mp hlength.symm).symm
  | cons instr program ih =>
    obtain ⟨instr', other, rfl⟩ := List.exists_cons_of_length_eq_add_one hlength.symm
    obtain ⟨hinstr, hprogram⟩ := List.forall_mem_cons.mp hshown
    obtain ⟨hinstr', hother'⟩ := List.forall_mem_cons.mp hother
    rw [codeLines, codeLines, List.append_assoc, List.append_assoc] at heq
    obtain ⟨htext, hbehind⟩ := addressLines_inj heq
    rw [Instr.listed_inj h hinstr hinstr' htext,
      ih (Nat.succ.inj hlength) hprogram hother' hbehind]

/-- The line of the slots tells the names, since there are no commas in them. -/
theorem slotLine_inj {table table' : SymbolTable} (h : Legible (some table)) (h' : Legible (some table'))
    (heq : slotLine table = slotLine table') : table = table' := by
  have hcomma {table : SymbolTable} (h : Legible (some table)) : ∀ name ∈ table.names, ',' ∉ name.toList := by
    intro name hname
    exact IsOperand.notMem (.inl (h table rfl name hname).1) (by decide) (by decide)
  have hspace (n : Nat) : ' ' ∉ n.repr.toList :=
    IsOperand.notMem (.inl (isDigits_repr n).isName) (by decide) (by decide)
  simp only [slotLine, String.append_assoc] at heq
  have hcounts := (String.append_right_inj _).mp heq
  obtain ⟨hcount, hnames⟩ := append_separator_inj rfl (hspace _) (hspace _) hcounts
  exact SymbolTable.ext_names (intercalate_inj (hcomma h) (hcomma h') (repr_inj hcount) hnames)

/-- The head of a listing tells the number of instructions, and which names the slots have. -/
theorem headLines_inj {program other : Program} {symbols symbols' : Option SymbolTable}
    {rest rest' : List String} (hsome : symbols.isSome = symbols'.isSome) (h : Legible symbols)
    (h' : Legible symbols')
    (heq : program.headLines symbols ++ rest = other.headLines symbols' ++ rest') :
    program.length = other.length ∧ symbols = symbols' ∧ rest = rest' := by
  simp only [headLines, List.cons_append, List.nil_append, List.append_assoc, List.cons.injEq,
    true_and, String.append_left_inj, String.append_right_inj] at heq
  obtain ⟨hcount, hbehind⟩ := heq
  refine ⟨repr_inj hcount, ?_⟩
  cases symbols with
  | none =>
    cases symbols' with
    | none => exact ⟨rfl, (List.cons.inj hbehind).2⟩
    | some table => cases hsome
  | some table =>
    cases symbols' with
    | none => cases hsome
    | some table' =>
      obtain ⟨hline, hrest⟩ := List.cons.inj hbehind
      obtain rfl := slotLine_inj h h' hline
      exact ⟨rfl, (List.cons.inj hrest).2⟩

theorem splitLines_listing {symbols : Option SymbolTable} (h : Legible symbols) (program : Program) :
    splitLines (program.listing symbols) = program.listingLines symbols ++ [""] := by
  refine splitLines_join (oneLine_listingLines_iff.mpr ?_)
  intro table htable name hname
  exact IsOperand.oneLine (.inl (h table htable name hname).1)

/-- **A listing tells which program it shows**, and which names its slots have. -/
theorem eq_of_listing_eq {program other : Program} {symbols symbols' : Option SymbolTable}
    (h : Legible symbols) (h' : Legible symbols') (hsome : symbols.isSome = symbols'.isSome)
    (hshown : ∀ instr ∈ program, ∀ slot ∈ instr.slots, Shown symbols slot)
    (hother : ∀ instr ∈ other, ∀ slot ∈ instr.slots, Shown symbols' slot)
    (heq : program.listing symbols = other.listing symbols') : program = other ∧ symbols = symbols' := by
  have hlines : program.listingLines symbols = other.listingLines symbols' := by
    apply List.append_cancel_right
    rw [← splitLines_listing h program, ← splitLines_listing h' other, heq]
  rw [listingLines, listingLines, List.append_assoc, List.append_assoc] at hlines
  obtain ⟨hlength, rfl, hcode⟩ := headLines_inj hsome h h' hlines
  exact ⟨codeLines_inj h hlength hshown hother hcode, rfl⟩

end Program

/-! ## Compiled sources -/

theorem Lexeme.WellFormed.isOperand_of_mem_texts {lexeme : Lexeme} (h : lexeme.WellFormed) {text : String}
    (htext : text ∈ lexeme.texts) : IsOperand text := by
  cases lexeme with
  | declare name value =>
    rw [List.mem_singleton.mp htext]
    exact .inl h.1
  | assign target lhs op rhs =>
    obtain ⟨htarget, hlhs, hrhs⟩ := h
    simp only [texts, List.mem_cons, List.not_mem_nil, or_false] at htext
    rcases htext with rfl | rfl | rfl
    · exact .inl htarget
    · exact hlhs
    · exact hrhs
  | branch lhs relation rhs | loop lhs relation rhs =>
    obtain ⟨hlhs, -, hrhs⟩ := h
    simp only [texts, List.mem_cons, List.not_mem_nil, or_false] at htext
    rcases htext with rfl | rfl
    · exact hlhs
    · exact hrhs
  | give name =>
    rw [List.mem_singleton.mp htext]
    exact .inl h
  | blockOpen | blockClose => cases htext

namespace Toolchain

/-- The names of a compiled source are names, and not numerals. -/
theorem legible_of_compile {source : String} {unit : CodeUnit} (h : compile source = .ok unit) :
    Legible (some unit.symbols) := by
  obtain ⟨tokens, hscan, hunit⟩ := exists_tokens h
  rintro _ ⟨⟩ name hname
  rw [CodeUnit.names_of_ofTokens hunit, List.mem_eraseDups] at hname
  obtain ⟨⟨t, ht, htext⟩, hnot⟩ := mem_namesIn_iff.mp hname
  have hwellFormed := (Scan.tokensFrom_eq_ok_iff.mp hscan).wellFormed t ht
  exact ⟨(isOperand_iff.mp (hwellFormed.isOperand_of_mem_texts htext)).resolve_right hnot, hnot⟩

theorem shown_of_compile {source : String} {unit : CodeUnit} (h : compile source = .ok unit) :
    ∀ instr ∈ unit.program, ∀ slot ∈ instr.slots, Shown (some unit.symbols) slot := by
  obtain ⟨tokens, -, hunit⟩ := exists_tokens h
  rintro instr hinstr slot hslot _ ⟨⟩
  exact (CodeUnit.sound_of_ofTokens hunit).slot_lt instr hinstr slot hslot

/-- **A listing loses nothing.** Without symbols it tells which program it shows. With the symbols of a
compiled source it tells the program and the symbols. In both a literal and a slot never look alike. -/
theorem listing_legible :
    (∀ program other : Program, program.listing none = other.listing none → program = other)
      ∧ (∀ source source' unit unit', compile source = .ok unit → compile source' = .ok unit' →
          unit.program.listing (some unit.symbols) = unit'.program.listing (some unit'.symbols) →
          unit.program = unit'.program ∧ unit.symbols = unit'.symbols)
      ∧ (∀ value index, (Operand.literal value).listed none ≠ (Operand.slot index).listed none)
      ∧ ∀ source unit, compile source = .ok unit → ∀ value index,
          (Operand.literal value).listed (some unit.symbols)
            ≠ (Operand.slot index).listed (some unit.symbols) := by
  have hnone : Legible none := by
    rintro table ⟨⟩
  have hshown (program : Program) : ∀ instr ∈ program, ∀ slot ∈ instr.slots, Shown none slot := by
    rintro instr - slot - table ⟨⟩
  refine ⟨?_, ?_, Operand.literal_ne_slot hnone, ?_⟩
  · intro program other heq
    exact (Program.eq_of_listing_eq hnone hnone rfl (hshown program) (hshown other) heq).1
  · intro source source' unit unit' h h' heq
    obtain ⟨hprogram, hsymbols⟩ := Program.eq_of_listing_eq (legible_of_compile h)
      (legible_of_compile h') rfl (shown_of_compile h) (shown_of_compile h') heq
    exact ⟨hprogram, Option.some.inj hsymbols⟩
  · intro source unit h
    exact Operand.literal_ne_slot (legible_of_compile h)

theorem compile_tab : compile "\treturn x" = .ok (CodeUnit.giving "x") := by
  have hwellFormed : (Lexeme.give "x").WellFormed := by decide
  have hnumeral : ¬ isNumeral "x" = true := by decide
  have hchars : "\treturn x".toList = ['\t'] ++ (Lexeme.give "x").text.toList := by decide
  have hwritten : Scan.Written .start "\treturn x".toList [⟨.give "x", Position.start.past ['\t']⟩] := by
    rw [hchars]
    exact .blanks_append (Scan.blanks_singleton (by decide)) (Scan.written_text hwellFormed _)
  have hunit := CodeUnit.ofTokens_give hnumeral (Position.start.past ['\t'])
  exact bind_eq_ok_iff.mpr
    ⟨_, mapError_eq_ok_iff.mpr (Scan.tokensFrom_of_written hwritten), mapError_eq_ok_iff.mpr hunit⟩

/-- A blank in front of a source does not show in its listing. Another name does, and another literal. -/
theorem listing_legible_return :
    (∃ unit unit', compile "return x" = .ok unit ∧ compile "\treturn x" = .ok unit'
        ∧ unit.program.listing (some unit.symbols) = unit'.program.listing (some unit'.symbols)
        ∧ unit.program = unit'.program ∧ unit.symbols = unit'.symbols)
      ∧ (∃ unit unit', compile "return x" = .ok unit ∧ compile "return r0" = .ok unit'
        ∧ unit.program.listing (some unit.symbols) ≠ unit'.program.listing (some unit'.symbols)
        ∧ (Operand.literal 0).listed (some unit'.symbols) ≠ (Operand.slot 0).listed (some unit'.symbols))
      ∧ Program.listing [.set 0 0] none ≠ Program.listing [.set 0 1] none := by
  have hx : compile (Lexeme.give "x").text = .ok (CodeUnit.giving "x") :=
    compile_give (by decide) (by decide)
  have hr0 : compile (Lexeme.give "r0").text = .ok (CodeUnit.giving "r0") :=
    compile_give (by decide) (by decide)
  obtain ⟨hprogram, hunit, -, hoperand⟩ := listing_legible
  refine ⟨⟨_, _, hx, compile_tab, rfl, hunit _ _ _ _ hx compile_tab rfl⟩,
    ⟨_, _, hx, hr0, ?_, hoperand _ _ hr0 0 0⟩, ?_⟩
  · intro heq
    have hsymbols := (hunit _ _ _ _ hx hr0 heq).2
    exact absurd (congrArg SymbolTable.names hsymbols) (by decide)
  · intro heq
    exact absurd (hprogram _ _ heq) (by decide)

end Toolchain

end RegisterLang
