import RegisterLang.Machine.Run
import RegisterLang.Proofs.Slots

/-!
# Names do not matter

A renaming keeps numerals as they are, takes names to names, and keeps different names of the source
apart. Compiling a renamed source goes step by step as compiling the source itself: the tables hold the
new names in place of the old ones, and nothing else differs.

* `IsRenaming`: the functions on texts that rename the given names.
* `Alike`: two computations that end in the same way.
* `SymbolTable.slot_rename`: a renamed name has the slot of the name.
* `Emitter.Renamed`: two emitters that differ in the names only. `Emitter.Renamed.token` says that they go on
  so.
* `CodeUnit.ofTokens_rename`: a renamed source has the same program, or the same error.
-/

namespace RegisterLang

open Text

/-! ## Renamings -/

/-- Gives other names to the variables. The value of a declaration and the sign of a relation stay. -/
def Lexeme.rename (f : String → String) : Lexeme → Lexeme
  | declare name value => declare (f name) value
  | assign target lhs op rhs => assign (f target) (f lhs) op (f rhs)
  | branch lhs relation rhs => branch (f lhs) relation (f rhs)
  | loop lhs relation rhs => loop (f lhs) relation (f rhs)
  | give name => give (f name)
  | blockOpen => blockOpen
  | blockClose => blockClose

/-- The token with other names, in its place. -/
def Token.rename (f : String → String) (t : Token) : Token := ⟨t.lexeme.rename f, t.position⟩

/-- The function changes no numeral, makes none, and keeps the given names apart. -/
structure IsRenaming (f : String → String) (names : List String) : Prop where
  numeral : ∀ text, IsNumeral text → f text = text
  name : ∀ text, ¬ IsNumeral text → ¬ IsNumeral (f text)
  injective : ∀ a ∈ names, ∀ b ∈ names, f a = f b → a = b

theorem IsRenaming.isNumeral_eq {f : String → String} {names : List String} (h : IsRenaming f names)
    (text : String) : isNumeral (f text) = isNumeral text := by
  rw [Bool.eq_iff_iff, isNumeral_eq_true_iff, isNumeral_eq_true_iff]
  by_cases htext : IsNumeral text
  · rw [h.numeral text htext]
  · exact iff_of_false (h.name text htext) htext

/-! ## Computations that end alike -/

/-- The two computations fail with the same error, or both succeed, with results in the relation. -/
inductive Alike {ε α β : Type} (R : α → β → Prop) : Except ε α → Except ε β → Prop
  | ok {a : α} {b : β} (h : R a b) : Alike R (.ok a) (.ok b)
  | error (e : ε) : Alike R (.error e) (.error e)

theorem Alike.refl {ε α : Type} (x : Except ε α) : Alike Eq x x := by
  cases x with
  | ok a => exact .ok rfl
  | error e => exact .error e

theorem Alike.bind {ε α β γ δ : Type} {R : α → β → Prop} {S : γ → δ → Prop} {x : Except ε α}
    {y : Except ε β} {next : α → Except ε γ} {next' : β → Except ε δ} (h : Alike R x y)
    (hnext : ∀ a b, R a b → Alike S (next a) (next' b)) : Alike S (x >>= next) (y >>= next') := by
  cases h with
  | ok hab => exact hnext _ _ hab
  | error e => exact .error e

/-! ## Tables -/

namespace SymbolTable

variable {f : String → String} {t u : SymbolTable} {name : String}

theorem mem_rename_iff (hnames : u.names = t.names.map f)
    (hname : ∀ other ∈ t.names, f other = f name → other = name) :
    f name ∈ u.names ↔ name ∈ t.names := by
  rw [hnames, List.mem_map]
  constructor
  · rintro ⟨other, hother, heq⟩
    rwa [← hname other hother heq]
  · intro hmem
    exact ⟨name, hmem, rfl⟩

/-- **A renamed name has the slot of the name.** -/
theorem slot_rename (hnames : u.names = t.names.map f)
    (hname : ∀ other ∈ t.names, f other = f name → other = name) :
    u.slot (f name) = t.slot name := by
  rw [slot, slot, hnames]
  generalize t.names = names at hname
  induction names with
  | nil => rfl
  | cons first names ih =>
    obtain ⟨hfirst, hrest⟩ := List.forall_mem_cons.mp hname
    have hsame : (f first == f name) = (first == name) := by
      rw [Bool.eq_iff_iff, beq_iff_eq, beq_iff_eq]
      exact ⟨hfirst, congrArg f⟩
    rw [List.map_cons, List.idxOf_cons, List.idxOf_cons, hsame, ih hrest]

theorem names_insert_rename (hnames : u.names = t.names.map f)
    (hname : ∀ other ∈ t.names, f other = f name → other = name) :
    (u.insert (f name)).names = (t.insert name).names.map f := by
  by_cases hmem : name ∈ t.names
  · rw [names_insert_of_mem hmem, names_insert_of_mem ((mem_rename_iff hnames hname).mpr hmem), hnames]
  · rw [names_insert_of_not_mem hmem,
      names_insert_of_not_mem (mt (mem_rename_iff hnames hname).mp hmem), hnames, List.map_append]
    rfl

end SymbolTable

/-! ## Emitters -/

namespace Emitter

/-- The two emitters differ in the names only. The names of the first are among the given ones. -/
structure Renamed (f : String → String) (names : List String) (e e' : Emitter) : Prop where
  code : e'.code = e.code
  blocks : e'.blocks = e.blocks
  symbols : e'.symbols.names = e.symbols.names.map f
  known : ∀ name ∈ e.symbols.names, name ∈ names

/-- The same for emitters that come with a result, which is the same. -/
def RenamedWith {α : Type} (f : String → String) (names : List String) (r r' : α × Emitter) : Prop :=
  r'.1 = r.1 ∧ Renamed f names r.2 r'.2

namespace Renamed

variable {f : String → String} {names : List String} {e e' : Emitter}

theorem here (h : Renamed f names e e') : Alike Eq e.here e'.here := by
  rw [Emitter.here, Emitter.here, h.code]
  exact .refl _

theorem emit (h : Renamed f names e e') (instr : Instr) :
    Alike (Renamed f names) (e.emit instr) (e'.emit instr) := by
  refine h.here.bind ?_
  rintro _ _ rfl
  exact .ok ⟨by rw [h.code], h.blocks, h.symbols, h.known⟩

theorem patch (h : Renamed f names e e') (block : OpenBlock) :
    Alike (Renamed f names) (e.patch block) (e'.patch block) := by
  refine h.here.bind ?_
  rintro target _ rfl
  rw [h.code]
  split
  · exact .ok ⟨rfl, h.blocks, h.symbols, h.known⟩
  · exact .ok h

/-- A name that is declared is renamed in the other table. -/
theorem insert (h : Renamed f names e e') (hf : IsRenaming f names) {name : String} (hname : name ∈ names) :
    e'.symbols.slot (f name) = e.symbols.slot name
      ∧ Renamed f names { e with symbols := e.symbols.insert name }
        { e' with symbols := e'.symbols.insert (f name) } := by
  have hapart : ∀ other ∈ e.symbols.names, f other = f name → other = name := fun other hother =>
    hf.injective other (h.known other hother) name hname
  refine ⟨SymbolTable.slot_rename h.symbols hapart, h.code, h.blocks,
    SymbolTable.names_insert_rename h.symbols hapart, ?_⟩
  intro other hother
  rcases SymbolTable.mem_insert_iff.mp hother with hother | rfl
  · exact h.known other hother
  · exact hname

theorem slot (h : Renamed f names e e') (hf : IsRenaming f names) {name : String}
    (hname : ¬ IsNumeral name → name ∈ names) (position : Position) :
    Alike (RenamedWith f names) (e.slot name position) (e'.slot (f name) position) := by
  rw [Emitter.slot, Emitter.slot, hf.isNumeral_eq]
  split
  · rename_i hnumeral
    rw [hf.numeral name (isNumeral_eq_true_iff.mp hnumeral)]
    exact .error _
  · rename_i hnumeral
    exact .ok (h.insert hf (hname (mt isNumeral_eq_true_iff.mpr hnumeral)))

theorem operand (h : Renamed f names e e') (hf : IsRenaming f names) {text : String}
    (htext : ¬ IsNumeral text → text ∈ names) (position : Position) :
    Alike (RenamedWith f names) (e.operand text position) (e'.operand (f text) position) := by
  rw [Emitter.operand, Emitter.operand, hf.isNumeral_eq]
  split
  · rename_i hnumeral
    rw [hf.numeral text (isNumeral_eq_true_iff.mp hnumeral)]
    refine (Alike.refl (literal text position)).bind ?_
    rintro value _ rfl
    exact .ok ⟨rfl, h⟩
  · rename_i hnumeral
    obtain ⟨hslot, hrenamed⟩ := h.insert hf (htext (mt isNumeral_eq_true_iff.mpr hnumeral))
    exact .ok ⟨congrArg Operand.slot hslot, hrenamed⟩

theorem openBlock (h : Renamed f names e e') (hf : IsRenaming f names) {lhs rhs : String}
    (hlhs : ¬ IsNumeral lhs → lhs ∈ names) (hrhs : ¬ IsNumeral rhs → rhs ∈ names)
    (restart : Option Nat) (relation : String) (position : Position) :
    Alike (Renamed f names) (e.openBlock restart lhs relation rhs position)
      (e'.openBlock restart (f lhs) relation (f rhs) position) := by
  unfold Emitter.openBlock
  split
  · exact .error _
  · refine (h.operand hf hlhs position).bind ?_
    rintro ⟨left, e₁⟩ ⟨_, e₁'⟩ ⟨rfl, h₁⟩
    refine (h₁.operand hf hrhs position).bind ?_
    rintro ⟨right, e₂⟩ ⟨_, e₂'⟩ ⟨rfl, h₂⟩
    refine (h₂.emit _).bind ?_
    intro e₃ e₃' h₃
    refine h₃.here.bind ?_
    rintro exit _ rfl
    refine (h₃.emit _).bind ?_
    intro e₄ e₄' h₄
    exact .ok ⟨h₄.code, by rw [h₄.blocks], h₄.symbols, h₄.known⟩

theorem closeBlock (h : Renamed f names e e') (position : Position) :
    Alike (Renamed f names) (e.closeBlock position) (e'.closeBlock position) := by
  unfold Emitter.closeBlock
  rw [h.blocks]
  split
  · exact .error _
  · rename_i block blocks hblocks
    have hpopped : Renamed f names { e with blocks := blocks } { e' with blocks := blocks } :=
      ⟨h.code, rfl, h.symbols, h.known⟩
    split
    · exact hpopped.patch block
    · refine (hpopped.emit _).bind ?_
      intro e₁ e₁' h₁
      exact h₁.patch block

/-- **A renamed token does to the one emitter what the token does to the other.** -/
theorem token (h : Renamed f names e e') (hf : IsRenaming f names) {t : Token}
    (ht : ∀ text ∈ t.lexeme.texts, ¬ IsNumeral text → text ∈ names) :
    Alike (Renamed f names) (e.token t) (e'.token (t.rename f)) := by
  obtain ⟨lexeme, position⟩ := t
  cases lexeme with
  | declare name value =>
    refine (h.slot hf (ht name (by simp [Lexeme.texts])) position).bind ?_
    rintro ⟨dest, e₁⟩ ⟨_, e₁'⟩ ⟨rfl, h₁⟩
    refine (Alike.refl (literal value position)).bind ?_
    rintro number _ rfl
    exact h₁.emit _
  | assign target lhs op rhs =>
    refine (h.slot hf (ht target (by simp [Lexeme.texts])) position).bind ?_
    rintro ⟨dest, e₁⟩ ⟨_, e₁'⟩ ⟨rfl, h₁⟩
    refine (h₁.operand hf (ht lhs (by simp [Lexeme.texts])) position).bind ?_
    rintro ⟨left, e₂⟩ ⟨_, e₂'⟩ ⟨rfl, h₂⟩
    refine (h₂.operand hf (ht rhs (by simp [Lexeme.texts])) position).bind ?_
    rintro ⟨right, e₃⟩ ⟨_, e₃'⟩ ⟨rfl, h₃⟩
    exact h₃.emit _
  | branch lhs relation rhs =>
    exact h.openBlock hf (ht lhs (by simp [Lexeme.texts])) (ht rhs (by simp [Lexeme.texts])) none relation
      position
  | loop lhs relation rhs =>
    refine h.here.bind ?_
    rintro start _ rfl
    exact h.openBlock hf (ht lhs (by simp [Lexeme.texts])) (ht rhs (by simp [Lexeme.texts])) (some start)
      relation position
  | give name =>
    refine (h.slot hf (ht name (by simp [Lexeme.texts])) position).bind ?_
    rintro ⟨source, e₁⟩ ⟨_, e₁'⟩ ⟨rfl, h₁⟩
    exact h₁.emit _
  | blockOpen => exact .ok h
  | blockClose => exact h.closeBlock position

theorem foldlM (h : Renamed f names e e') (hf : IsRenaming f names) {tokens : List Token}
    (htokens : ∀ t ∈ tokens, ∀ text ∈ t.lexeme.texts, ¬ IsNumeral text → text ∈ names) :
    Alike (Renamed f names) (tokens.foldlM Emitter.token e)
      ((tokens.map (Token.rename f)).foldlM Emitter.token e') := by
  induction tokens generalizing e e' with
  | nil => exact .ok h
  | cons t tokens ih =>
    obtain ⟨hfirst, hrest⟩ := List.forall_mem_cons.mp htokens
    rw [List.map_cons, List.foldlM_cons, List.foldlM_cons]
    refine (h.token hf hfirst).bind ?_
    intro e₁ e₁' h₁
    exact ih h₁ hrest

end Renamed

end Emitter

/-! ## Code units -/

namespace CodeUnit

/-- The other unit has the same program, and the renamed names in the same slots. -/
structure Renamed (f : String → String) (unit renamed : CodeUnit) : Prop where
  program : renamed.program = unit.program
  names : renamed.symbols.names = unit.symbols.names.map f

theorem alike_rename {f : String → String} {tokens : List Token} (h : IsRenaming f (namesIn tokens)) :
    Alike (Renamed f) (ofTokens tokens) (ofTokens (tokens.map (Token.rename f))) := by
  have hstart : Emitter.Renamed f (namesIn tokens) .initial .initial :=
    ⟨rfl, rfl, rfl, by simp [Emitter.initial, SymbolTable.empty]⟩
  have hmem : ∀ t ∈ tokens, ∀ text ∈ t.lexeme.texts, ¬ IsNumeral text → text ∈ namesIn tokens := by
    intro t ht text htext hname
    exact mem_namesIn_iff.mpr ⟨⟨t, ht, htext⟩, hname⟩
  refine (hstart.foldlM h hmem).bind ?_
  intro e e' hrenamed
  unfold Emitter.finish
  rw [hrenamed.blocks]
  split
  · exact .ok ⟨by rw [hrenamed.code], hrenamed.symbols⟩
  · exact .error _

/-- **Names do not matter.** A renamed source compiles exactly if the source does. Its program is the same
and so are its runs, and the new names stand in the slots of the old ones. If the source does not compile,
the error is the same, at the same place. -/
theorem ofTokens_rename {f : String → String} {tokens : List Token} (h : IsRenaming f (namesIn tokens)) :
    ((∃ renamed, ofTokens (tokens.map (Token.rename f)) = .ok renamed)
        ↔ ∃ unit, ofTokens tokens = .ok unit)
      ∧ (∀ unit renamed, ofTokens tokens = .ok unit →
          ofTokens (tokens.map (Token.rename f)) = .ok renamed →
          renamed.program = unit.program ∧ renamed.symbols.names = unit.symbols.names.map f
            ∧ ∀ limit, renamed.program.run limit = unit.program.run limit)
      ∧ ∀ error, ofTokens (tokens.map (Token.rename f)) = .error error
          ↔ ofTokens tokens = .error error := by
  have halike := alike_rename h
  generalize ofTokens tokens = result at *
  generalize ofTokens (tokens.map (Token.rename f)) = other at *
  cases halike with
  | error e => simp
  | @ok unit renamed hrenamed =>
    refine ⟨by simp, ?_, by simp⟩
    intro _ _ hunit hother
    cases hunit
    cases hother
    refine ⟨hrenamed.program, hrenamed.names, ?_⟩
    intro limit
    rw [hrenamed.program]

/-- Gives each of two variables the name of the other. -/
def swapped (text : String) : String :=
  if text = "i" then "n" else if text = "n" then "i" else text

theorem swapped_swapped (text : String) : swapped (swapped text) = text := by
  unfold swapped
  grind

theorem isRenaming_swapped (names : List String) : IsRenaming swapped names where
  numeral := by
    intro text hnumeral
    have hi : text ≠ "i" := by
      rintro rfl
      exact absurd hnumeral (by decide)
    have hn : text ≠ "n" := by
      rintro rfl
      exact absurd hnumeral (by decide)
    rw [swapped, if_neg hi, if_neg hn]
  name := by
    intro text hname
    unfold swapped
    split
    · decide
    · split
      · decide
      · exact hname
  injective := by
    intro a _ b _ heq
    rw [← swapped_swapped a, heq, swapped_swapped]

theorem ofTokens_rename_swapped :
    IsRenaming swapped (namesIn sumTokens) ∧ ofTokens sumTokens = .ok sumUnit
      ∧ ∃ renamed, ofTokens (sumTokens.map (Token.rename swapped)) = .ok renamed
        ∧ renamed.program = sumUnit.program ∧ renamed.symbols.names = ["n", "i"] := by
  have h : ofTokens sumTokens = .ok sumUnit := rfl
  obtain ⟨haccepted, hsame, -⟩ := ofTokens_rename (isRenaming_swapped (namesIn sumTokens))
  obtain ⟨renamed, hrenamed⟩ := haccepted.mpr ⟨sumUnit, h⟩
  obtain ⟨hprogram, hnames, -⟩ := hsame sumUnit renamed h hrenamed
  exact ⟨isRenaming_swapped _, h, renamed, hrenamed, hprogram, hnames⟩

end CodeUnit

end RegisterLang
