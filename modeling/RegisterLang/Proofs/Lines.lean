import RegisterLang.Program.Listing
import RegisterLang.Proofs.Framing
import RegisterLang.Proofs.Words

/-!
# The lines of a listing

A listing is meant to have a head of four or five lines and then one line for each instruction, with a mark
and a rule where a jump leads. Names are written into it as they are. So the lines come out as meant exactly
if no name of the table has a line feed in it; a header can bring in any name.

* `Text.splitLines`: the pieces of a text between its line feeds. `Text.splitLines_join`: lines that are put
  together come apart again.
* `Program.ListedBy`: what the lines of a listing are meant to be.
* `Program.oneLine_listingLines_iff`: the lines are single lines exactly if the names are.
* `Program.listing_lines_iff`: the listing has the lines that are meant exactly if no name has a line feed.
* `Image.listing_brokenName`: an image that can be read, with a name that breaks the lines.
-/

namespace RegisterLang

namespace Text

/-! ## Line feeds -/

/-- The pieces of a text between its line feeds. -/
def splitLines (text : String) : List String := (text.toList.splitOn '\n').map String.ofList

/-- The text has no line feed. -/
def OneLine (text : String) : Prop := '\n' ∉ text.toList

instance (text : String) : Decidable (OneLine text) := inferInstanceAs (Decidable (¬ _))

theorem oneLine_append {text more : String} :
    OneLine (text ++ more) ↔ OneLine text ∧ OneLine more := by
  simp [OneLine]

theorem IsOperand.oneLine {text : String} (h : IsOperand text) : OneLine text :=
  h.notMem (by decide) (by decide)

theorem IsDigits.oneLine {text : String} (h : IsDigits text.toList) : OneLine text :=
  IsOperand.oneLine (.inl h.isName)

theorem IsNumeral.oneLine {text : String} (h : IsNumeral text) : OneLine text :=
  IsOperand.oneLine h.isOperand

theorem oneLine_padRight {text : String} (h : OneLine text) (width : Nat) :
    OneLine (padRight width text) := by
  refine oneLine_append.mpr ⟨h, ?_⟩
  simp [OneLine]

theorem oneLine_intercalate {separator : String} (h : OneLine separator) {texts : List String} :
    OneLine (separator.intercalate texts) ↔ ∀ text ∈ texts, OneLine text := by
  induction texts with
  | nil => simp [OneLine]
  | cons text texts ih =>
    cases texts with
    | nil => simp
    | cons next texts =>
      rw [String.intercalate_cons_cons, oneLine_append, oneLine_append, ih, List.forall_mem_cons]
      simp [h]

/-- **Single lines that are put together come apart again.** -/
theorem splitLines_join {lines : List String} (h : ∀ line ∈ lines, OneLine line) :
    splitLines (String.join (lines.map (· ++ "\n"))) = lines ++ [""] := by
  induction lines with
  | nil => rfl
  | cons line lines ih =>
    obtain ⟨hline, hlines⟩ := List.forall_mem_cons.mp h
    have htext : (String.join ((line :: lines).map (· ++ "\n"))).toList
        = line.toList ++ '\n' :: (String.join (lines.map (· ++ "\n"))).toList := by
      simp
    rw [splitLines, htext, List.splitOn_append_cons_self_of_not_mem hline, List.map_cons,
      String.ofList_toList, List.cons_append, ← ih hlines]
    rfl

theorem length_splitOn (c : Char) (cs : List Char) : (cs.splitOn c).length = cs.count c + 1 := by
  induction cs with
  | nil => simp
  | cons d cs ih =>
    rw [List.splitOn_cons_eq_if_modifyHead, List.count_cons]
    split
    · rw [List.length_cons, ih]
    · rw [List.length_modifyHead, ih]

/-- Lines that are put together have as many pieces as there are lines, one more for the end, and one more
for each line feed in a line. -/
theorem length_splitLines_join (lines : List String) :
    (splitLines (String.join (lines.map (· ++ "\n")))).length
      = lines.length + (lines.flatMap String.toList).count '\n' + 1 := by
  rw [splitLines, List.length_map, length_splitOn]
  induction lines with
  | nil => rfl
  | cons line lines ih =>
    simp only [List.map_cons, String.join_cons, String.toList_append, List.count_append,
      List.length_cons, List.flatMap_cons] at ih ⊢
    have hend : "\n".toList.count '\n' = 1 := by decide
    omega

end Text

open Text

/-! ## The texts in a listing -/

/-- No name of the table has a line feed. -/
def SymbolTable.OneLine (t : SymbolTable) : Prop := ∀ name ∈ t.names, Text.OneLine name

theorem Opcode.oneLine_mnemonic (opcode : Opcode) : OneLine opcode.mnemonic := by
  cases opcode with
  | arith op => cases op <;> decide
  | _ => decide

section Texts

variable {symbols : Option SymbolTable} (h : ∀ table, symbols = some table → table.OneLine)

include h

theorem oneLine_slotText (slot : Nat) : OneLine (slotText symbols slot) := by
  have hregister : OneLine ("r" ++ slot.repr) :=
    oneLine_append.mpr ⟨by decide, (isDigits_repr slot).oneLine⟩
  cases hsymbols : symbols with
  | none => exact hregister
  | some table =>
    rw [slotText, Option.bind_some]
    cases hname : table.nameOf? slot with
    | none => exact hregister
    | some name => exact h table hsymbols name (List.mem_of_getElem? hname)

theorem Operand.oneLine_listed (operand : Operand) : OneLine (operand.listed symbols) := by
  cases operand with
  | literal value => exact (isNumeral_intText value.toInt).oneLine
  | slot index => exact oneLine_slotText h index

theorem Instr.oneLine_details (instr : Instr) : OneLine (instr.details symbols) := by
  cases instr with
  | set dest value =>
    simp only [details, oneLine_append]
    exact ⟨⟨oneLine_slotText h dest, by decide⟩, (isNumeral_intText value.toInt).oneLine⟩
  | arith op dest lhs rhs =>
    simp only [details, oneLine_append]
    exact ⟨⟨⟨⟨oneLine_slotText h dest, by decide⟩, lhs.oneLine_listed h⟩, by decide⟩, rhs.oneLine_listed h⟩
  | compare relation lhs rhs =>
    simp only [details, oneLine_append]
    have hsign : OneLine relation.symbol := by cases relation <;> decide
    exact ⟨⟨⟨⟨lhs.oneLine_listed h, by decide⟩, hsign⟩, by decide⟩, rhs.oneLine_listed h⟩
  | jumpIfFalse target | jump target =>
    exact oneLine_append.mpr ⟨by decide, (isDigits_zeroPadded 4 target).oneLine⟩
  | ret source => exact oneLine_slotText h source

theorem Instr.oneLine_listed (instr : Instr) : OneLine (instr.listed symbols) := by
  simp only [listed, oneLine_append]
  exact ⟨⟨oneLine_padRight instr.opcode.oneLine_mnemonic 13, by decide⟩, instr.oneLine_details h⟩

end Texts

/-! ## The lines that are meant -/

namespace Program

/-- Some jump of the program leads to the address. -/
def JumpsTo (program : Program) (address : Nat) : Prop :=
  Instr.jump address ∈ program ∨ Instr.jumpIfFalse address ∈ program

theorem mem_targets_iff {program : Program} {address : Nat} :
    address ∈ program.targets ↔ program.JumpsTo address := by
  rw [targets, List.mem_filterMap]
  constructor
  · rintro ⟨instr, hinstr, htarget⟩
    cases instr with
    | jumpIfFalse target =>
      cases htarget
      exact .inr hinstr
    | jump target =>
      cases htarget
      exact .inl hinstr
    | _ => cases htarget
  · rintro (h | h)
    · exact ⟨_, h, rfl⟩
    · exact ⟨_, h, rfl⟩

/-- The lines of some texts from an address on. Each text has one line, which starts with its address; the
line has the mark and stands under a rule exactly if the address is marked. -/
inductive Numbered (marked : Nat → Prop) : Nat → List String → List String → Prop
  | done {address : Nat} : Numbered marked address [] []
  | plain {address : Nat} {text : String} {texts lines : List String} (hplain : ¬ marked address)
    (rest : Numbered marked (address + 1) texts lines) :
    Numbered marked address (text :: texts) ((zeroPadded 4 address ++ "   " ++ text) :: lines)
  | under {address : Nat} {text : String} {texts lines : List String} (hmarked : marked address)
    (rest : Numbered marked (address + 1) texts lines) :
    Numbered marked address (text :: texts)
      (targetRule :: (zeroPadded 4 address ++ " ► " ++ text) :: lines)

/-- The lines of the end: a rule and the marked line of the end if a jump leads there, else none. -/
def Ending (program : Program) (last : List String) : Prop :=
  program.JumpsTo program.length ∧ last = [targetRule, zeroPadded 4 program.length ++ " ► <end>"]
    ∨ ¬ program.JumpsTo program.length ∧ last = []

/-- The lines of a listing as they are meant: the head, one line for the text of each instruction, and the
end. The head has one line more if there are symbols. -/
def ListedBy (program : Program) (symbols : Option SymbolTable) (texts lines : List String) : Prop :=
  ∃ head code last, lines = head ++ code ++ last ∧ head.length = (if symbols.isSome then 5 else 4)
    ∧ texts.length = program.length ∧ Numbered program.JumpsTo 0 texts code ∧ program.Ending last

/-- How many lines there are does not depend on the texts. -/
theorem Numbered.length_eq {marked : Nat → Prop} {address : Nat} {texts lines texts' lines' : List String}
    (h : Numbered marked address texts lines) (h' : Numbered marked address texts' lines')
    (hlength : texts.length = texts'.length) : lines.length = lines'.length := by
  induction h generalizing texts' lines' with
  | done =>
    cases h' with
    | done => rfl
    | plain | under => cases hlength
  | plain hplain rest ih =>
    cases h' with
    | done => cases hlength
    | plain _ rest' => exact congrArg (· + 1) (ih rest' (Nat.succ.inj hlength))
    | under hmarked => exact absurd hmarked hplain
  | under hmarked rest ih =>
    cases h' with
    | done => cases hlength
    | plain hplain => exact absurd hmarked hplain
    | under _ rest' => exact congrArg (· + 2) (ih rest' (Nat.succ.inj hlength))

theorem Ending.unique {program : Program} {last last' : List String} (h : program.Ending last)
    (h' : program.Ending last') : last = last' := by
  rcases h with ⟨hjumps, rfl⟩ | ⟨hnot, rfl⟩ <;> rcases h' with ⟨hjumps', rfl⟩ | ⟨hnot', rfl⟩
  · rfl
  · exact absurd hjumps hnot'
  · exact absurd hjumps' hnot
  · rfl

theorem ListedBy.length_eq {program : Program} {symbols : Option SymbolTable}
    {texts lines texts' lines' : List String} (h : program.ListedBy symbols texts lines)
    (h' : program.ListedBy symbols texts' lines') : lines.length = lines'.length := by
  obtain ⟨head, code, last, rfl, hhead, htexts, hcode, hlast⟩ := h
  obtain ⟨head', code', last', rfl, hhead', htexts', hcode', hlast'⟩ := h'
  have hlines := hcode.length_eq hcode' (htexts.trans htexts'.symm)
  rw [hlast.unique hlast']
  simp only [List.length_append]
  omega

/-! ## The lines of a listing -/

theorem oneLine_headRule : OneLine headRule := by simp [OneLine, headRule]

theorem oneLine_targetRule : OneLine targetRule := by simp [OneLine, targetRule]

theorem numbered_codeLines {targets : List Nat} {marked : Nat → Prop}
    (hmarked : ∀ address, address ∈ targets ↔ marked address) (symbols : Option SymbolTable)
    (address : Nat) (program : Program) :
    Numbered marked address (program.map (Instr.listed symbols))
      (codeLines targets symbols address program) := by
  induction program generalizing address with
  | nil => exact .done
  | cons instr program ih =>
    by_cases h : address ∈ targets
    · rw [codeLines, addressLines, if_pos h]
      exact .under ((hmarked address).mp h) (ih (address + 1))
    · rw [codeLines, addressLines, if_neg h]
      exact .plain (mt (hmarked address).mpr h) (ih (address + 1))

theorem ending_endLines (program : Program) :
    program.Ending (endLines program.targets program.length) := by
  by_cases h : program.length ∈ program.targets
  · rw [endLines, if_pos h, addressLines, if_pos h]
    exact .inl ⟨mem_targets_iff.mp h, by simp [← String.toList_inj]⟩
  · rw [endLines, if_neg h]
    exact .inr ⟨mt mem_targets_iff.mpr h, rfl⟩

/-- Before any of them is taken apart at a line feed, the lines are as they are meant. -/
theorem listedBy_listingLines (program : Program) (symbols : Option SymbolTable) :
    program.ListedBy symbols (program.map (Instr.listed symbols)) (program.listingLines symbols) := by
  refine ⟨program.headLines symbols, _, _, rfl, ?_, List.length_map _,
    numbered_codeLines (fun _ => mem_targets_iff) symbols 0 program, ending_endLines program⟩
  cases symbols <;> rfl

theorem oneLine_addressLines {targets : List Nat} {address : Nat} {text line : String}
    (htext : OneLine text) (hline : line ∈ addressLines targets address text) : OneLine line := by
  have haddress := (isDigits_zeroPadded 4 address).oneLine
  unfold addressLines at hline
  split at hline
  · rcases List.mem_cons.mp hline with rfl | hline
    · exact oneLine_targetRule
    · rw [List.mem_singleton.mp hline, oneLine_append, oneLine_append]
      exact ⟨⟨haddress, by decide⟩, htext⟩
  · rw [List.mem_singleton.mp hline, oneLine_append, oneLine_append]
    exact ⟨⟨haddress, by decide⟩, htext⟩

theorem oneLine_codeLines {symbols : Option SymbolTable}
    (h : ∀ table, symbols = some table → table.OneLine) {targets : List Nat} {address : Nat}
    {program : Program} {line : String} (hline : line ∈ codeLines targets symbols address program) :
    OneLine line := by
  induction program generalizing address with
  | nil => cases hline
  | cons instr program ih =>
    rcases List.mem_append.mp hline with hline | hline
    · exact oneLine_addressLines (instr.oneLine_listed h) hline
    · exact ih hline

theorem oneLine_slotLine_iff {table : SymbolTable} : OneLine (slotLine table) ↔ table.OneLine := by
  have hcount := (isDigits_repr table.names.length).oneLine
  rw [slotLine, oneLine_append, oneLine_append, oneLine_append, oneLine_intercalate (by decide)]
  constructor
  · intro h
    exact h.2
  · intro h
    exact ⟨⟨⟨by decide, hcount⟩, by decide⟩, h⟩

theorem oneLine_headLines {program : Program} {symbols : Option SymbolTable}
    (h : ∀ table, symbols = some table → table.OneLine) {line : String}
    (hline : line ∈ program.headLines symbols) : OneLine line := by
  have hcount := (isDigits_repr program.length).oneLine
  simp only [headLines, List.mem_append, List.mem_cons, List.not_mem_nil, or_false, Option.mem_toList,
    Option.map_eq_some_iff] at hline
  rcases hline with ((rfl | rfl | rfl) | ⟨table, hsymbols, rfl⟩) | rfl
  · exact oneLine_headRule
  · decide
  · rw [oneLine_append, oneLine_append]
    exact ⟨⟨by decide, hcount⟩, by decide⟩
  · exact oneLine_slotLine_iff.mpr (h table hsymbols)
  · exact oneLine_headRule

/-- **The lines of a listing are single lines exactly if the names are.** -/
theorem oneLine_listingLines_iff {program : Program} {symbols : Option SymbolTable} :
    (∀ line ∈ program.listingLines symbols, OneLine line)
      ↔ ∀ table, symbols = some table → table.OneLine := by
  constructor
  · rintro h table rfl
    exact oneLine_slotLine_iff.mp (h _ (by simp [listingLines, headLines]))
  · intro h line hline
    rw [listingLines, List.mem_append, List.mem_append] at hline
    rcases hline with (hline | hline) | hline
    · exact oneLine_headLines h hline
    · exact oneLine_codeLines h hline
    · unfold endLines at hline
      split at hline
      · exact oneLine_addressLines (by decide) hline
      · cases hline

/-- Names with line feeds give the listing more lines than are meant. -/
theorem oneLine_of_listedBy {program : Program} {symbols : Option SymbolTable} {texts lines : List String}
    (hlines : splitLines (program.listing symbols) = lines ++ [""])
    (h : program.ListedBy symbols texts lines) : ∀ table, symbols = some table → table.OneLine := by
  apply oneLine_listingLines_iff.mp
  have hlength := length_splitLines_join (program.listingLines symbols)
  rw [← listing, hlines, List.length_append, h.length_eq (listedBy_listingLines program symbols)] at hlength
  have hnone : ((program.listingLines symbols).flatMap String.toList).count '\n' = 0 := by
    simp only [List.length_singleton] at hlength
    omega
  intro line hline hmem
  exact List.count_eq_zero.mp hnone (List.mem_flatMap.mpr ⟨line, hline, hmem⟩)

/-- **A listing has the lines that are meant exactly if no name has a line feed.** They are a head of four
lines, or five with symbols; then for each address in order one line that starts with the address, with the
mark and under a rule exactly if a jump leads there; then a rule and the line of the end exactly if a jump
leads to the end. The line of an address goes on with the text of its instruction. -/
theorem listing_lines_iff (program : Program) (symbols : Option SymbolTable) :
    ((∃ texts lines, splitLines (program.listing symbols) = lines ++ [""]
        ∧ program.ListedBy symbols texts lines)
      ↔ ∀ table, symbols = some table → ∀ name ∈ table.names, '\n' ∉ name.toList)
    ∧ ((∀ table, symbols = some table → ∀ name ∈ table.names, '\n' ∉ name.toList) →
        ∃ lines, splitLines (program.listing symbols) = lines ++ [""]
          ∧ program.ListedBy symbols (program.map (Instr.listed symbols)) lines) := by
  have hmeant : (∀ table, symbols = some table → ∀ name ∈ table.names, '\n' ∉ name.toList) →
      ∃ lines, splitLines (program.listing symbols) = lines ++ [""]
        ∧ program.ListedBy symbols (program.map (Instr.listed symbols)) lines := by
    intro h
    exact ⟨_, splitLines_join (oneLine_listingLines_iff.mpr h), listedBy_listingLines program symbols⟩
  refine ⟨⟨?_, ?_⟩, hmeant⟩
  · rintro ⟨texts, lines, hlines, hlisted⟩
    exact oneLine_of_listedBy hlines hlisted
  · intro h
    exact ⟨_, hmeant h⟩

/-- A loop with its first address and its end marked. -/
theorem listing_lines_iff_loop :
    ∃ table : SymbolTable, table.names = ["é", "r1"] ∧ (∀ name ∈ table.names, '\n' ∉ name.toList)
      ∧ ∃ lines, splitLines (Program.listing [.compare .lt (.slot 0) (.slot 1), .jumpIfFalse 3, .jump 0]
          (some table)) = lines ++ [""]
        ∧ Program.ListedBy [.compare .lt (.slot 0) (.slot 1), .jumpIfFalse 3, .jump 0] (some table)
            ["CMP           é < r1", "JUMP_IF_FALSE -> 0003", "JUMP          -> 0000"] lines := by
  have hnames : ∀ name ∈ ["é", "r1"], '\n' ∉ name.toList := by decide
  refine ⟨⟨["é", "r1"], by decide⟩, rfl, hnames, (listing_lines_iff _ _).2 ?_⟩
  rintro _ ⟨⟩
  exact hnames

end Program

namespace Image

/-- A header that names slot 0 by an `a` and a `b` with a line feed between them. -/
def brokenHeader : Bytes := [1, 1, 1, 3, 97, 10, 98]

/-- A container with that header, whose only instruction returns slot 0. -/
def broken : Bytes := mark ++ [7, 0, 0, 0] ++ brokenHeader ++ [9, 0, 0, 0, 0]

/-- The image in `broken`. -/
def brokenImage : Image := ⟨[.ret 0], some ⟨["a\nb"], by decide⟩⟩

theorem ofBytes_broken : ofBytes broken = .ok brokenImage := by
  obtain ⟨hform, hversion⟩ := ofHeader_eq_ok_iff.mp (rfl : ofHeader brokenHeader = .ok _)
  exact ofBytes_eq_ok_iff.mpr (.container hform (by decide) hversion rfl rfl)

theorem listing_brokenImage :
    brokenImage.program.listing brokenImage.symbols
      = String.join ([Program.headRule, " main", " 1 instructions", " 1 slots: a", "b", Program.headRule,
        "0000   RETURN        a", "b"].map (· ++ "\n")) := by
  have hlines : brokenImage.program.listingLines brokenImage.symbols
      = [Program.headRule, " main", " 1 instructions", " 1 slots: a" ++ "\n" ++ "b", Program.headRule,
        "0000   RETURN        a" ++ "\n" ++ "b"] := rfl
  rw [Program.listing, hlines]
  simp only [List.map_cons, List.map_nil, String.join_cons, String.join_nil, String.append_assoc]

/-- An image that is read, in whose listing the head has six lines instead of five and the only instruction
two lines instead of one. -/
theorem listing_brokenName :
    ofBytes broken = .ok brokenImage
      ∧ splitLines (brokenImage.program.listing brokenImage.symbols)
        = [Program.headRule, " main", " 1 instructions", " 1 slots: a", "b", Program.headRule,
          "0000   RETURN        a", "b", ""]
      ∧ ¬ ∃ texts lines, splitLines (brokenImage.program.listing brokenImage.symbols) = lines ++ [""]
          ∧ brokenImage.program.ListedBy brokenImage.symbols texts lines := by
  refine ⟨ofBytes_broken, ?_, ?_⟩
  · rw [listing_brokenImage]
    apply splitLines_join
    simp only [List.forall_mem_cons]
    exact ⟨Program.oneLine_headRule, by decide, by decide, by decide, by decide, Program.oneLine_headRule,
      by decide, by decide, by simp⟩
  · rintro ⟨texts, lines, hlines, hlisted⟩
    exact Program.oneLine_of_listedBy hlines hlisted _ rfl "a\nb" (by decide) (by decide)

end Image

end RegisterLang
