import RegisterLang.CodeUnit

/-!
# Blocks that are open

Counting blocks tells which tokens nest: an `if` or a `while` opens one, a closing brace closes one, and
every other token changes nothing.

* `Balanced`: tokens that close the blocks they open, and no other.
* `Opened`: the blocks that some tokens leave open, each with the token that opened it. Between such a
  token and the next one, or the end, the tokens are balanced.
* `Opened.innermost_unique`: the innermost open block is determined by the tokens.
-/

namespace RegisterLang

/-- The kind of block that the lexeme opens. -/
def Lexeme.opens? : Lexeme → Option BlockKind
  | branch .. => some .branch
  | loop .. => some .loop
  | _ => none

/-- What the lexeme adds to the number of open blocks. -/
def Lexeme.depthChange : Lexeme → Int
  | branch .. | loop .. => 1
  | blockClose => -1
  | _ => 0

theorem Lexeme.depthChange_of_opens {lexeme : Lexeme} {kind : BlockKind}
    (h : lexeme.opens? = some kind) : lexeme.depthChange = 1 := by
  cases lexeme <;> simp_all [opens?, depthChange]

/-- The number of blocks that the tokens open less the number that they close. -/
def depth : List Token → Int
  | [] => 0
  | t :: tokens => t.lexeme.depthChange + depth tokens

@[simp] theorem depth_nil : depth [] = 0 := rfl

@[simp] theorem depth_cons (t : Token) (tokens : List Token) :
    depth (t :: tokens) = t.lexeme.depthChange + depth tokens := rfl

@[simp] theorem depth_append (tokens more : List Token) :
    depth (tokens ++ more) = depth tokens + depth more := by
  induction tokens with
  | nil => simp
  | cons t tokens ih =>
    rw [List.cons_append, depth_cons, depth_cons, ih]
    omega

/-! ## Balanced tokens -/

/-- No closing brace is without a block, and every block is closed. -/
structure Balanced (tokens : List Token) : Prop where
  before_nonneg : ∀ before, before <+: tokens → 0 ≤ depth before
  depth_eq_zero : depth tokens = 0

/-- The start of two stretches ends in the first, or it is the first with a start of the second. -/
theorem start_of_append {before tokens more : List Token} (h : before <+: tokens ++ more) :
    before <+: tokens ∨ ∃ after, after <+: more ∧ before = tokens ++ after := by
  obtain ⟨rest, hrest⟩ := h
  rcases List.append_eq_append_iff.mp hrest with ⟨middle, hmiddle, -⟩ | ⟨after, hbefore, hmore⟩
  · exact .inl ⟨middle, hmiddle.symm⟩
  · exact .inr ⟨after, ⟨rest, hmore.symm⟩, hbefore⟩

theorem balanced_nil : Balanced [] where
  before_nonneg before h := by
    rw [List.prefix_nil.mp h]
    exact Int.le_refl 0
  depth_eq_zero := rfl

namespace Balanced

/-- A token that opens and closes nothing. -/
theorem single {t : Token} (h : t.lexeme.depthChange = 0) : Balanced [t] where
  before_nonneg before hbefore := by
    rcases List.prefix_cons_iff.mp hbefore with rfl | ⟨rest, rfl, hrest⟩
    · exact Int.le_refl 0
    · rw [List.prefix_nil.mp hrest, depth_cons, h]
      exact Int.le_refl 0
  depth_eq_zero := by rw [depth_cons, h]; rfl

theorem append {tokens more : List Token} (h : Balanced tokens) (h' : Balanced more) :
    Balanced (tokens ++ more) where
  before_nonneg before hbefore := by
    rcases start_of_append hbefore with hleft | ⟨after, hafter, rfl⟩
    · exact h.before_nonneg before hleft
    · have := h'.before_nonneg after hafter
      rw [depth_append, h.depth_eq_zero]
      omega
  depth_eq_zero := by rw [depth_append, h.depth_eq_zero, h'.depth_eq_zero]; rfl

/-- A block with balanced tokens inside. -/
theorem block {first last : Token} {tokens : List Token} (hfirst : first.lexeme.depthChange = 1)
    (hlast : last.lexeme.depthChange = -1) (h : Balanced tokens) :
    Balanced (first :: (tokens ++ [last])) where
  before_nonneg before hbefore := by
    rcases List.prefix_cons_iff.mp hbefore with rfl | ⟨rest, rfl, hrest⟩
    · exact Int.le_refl 0
    · rw [depth_cons, hfirst]
      rcases start_of_append hrest with hinside | ⟨after, hafter, rfl⟩
      · have := h.before_nonneg rest hinside
        omega
      · rw [depth_append, h.depth_eq_zero]
        rcases List.prefix_cons_iff.mp hafter with rfl | ⟨none, rfl, hnone⟩
        · decide
        · rw [List.prefix_nil.mp hnone, depth_cons, hlast]
          decide
  depth_eq_zero := by
    rw [depth_cons, depth_append, hfirst, h.depth_eq_zero, depth_cons, hlast]
    rfl

/-- Balanced tokens leave no block open: behind a token that opens one there is more than balanced
tokens. -/
theorem not_open {before after : List Token} {t : Token} {kind : BlockKind}
    (h : Balanced (before ++ t :: after)) (ht : t.lexeme.opens? = some kind) :
    ¬ Balanced after := by
  intro hafter
  have hbefore := h.before_nonneg before (List.prefix_append _ _)
  have htotal := h.depth_eq_zero
  rw [depth_append, depth_cons, Lexeme.depthChange_of_opens ht, hafter.depth_eq_zero] at htotal
  omega

end Balanced

/-! ## Open blocks -/

/-- The tokens leave the blocks open, the innermost first. -/
inductive Opened : List Token → List OpenBlock → Prop
  | none {tokens : List Token} (h : Balanced tokens) : Opened tokens []
  | block {before after : List Token} {t : Token} {block : OpenBlock} {blocks : List OpenBlock}
      (outer : Opened before blocks) (kind : t.lexeme.opens? = some block.kind)
      (position : t.position = block.position) (inner : Balanced after) :
      Opened (before ++ t :: after) (block :: blocks)

namespace Opened

variable {tokens : List Token} {blocks : List OpenBlock}

theorem depth_eq (h : Opened tokens blocks) : depth tokens = blocks.length := by
  induction h with
  | none h => exact h.depth_eq_zero
  | block outer kind position inner ih =>
    rw [depth_append, depth_cons, ih, Lexeme.depthChange_of_opens kind, inner.depth_eq_zero,
      List.length_cons]
    omega

theorem before_nonneg (h : Opened tokens blocks) : ∀ before, before <+: tokens → 0 ≤ depth before := by
  induction h with
  | none h => exact h.before_nonneg
  | block outer kind position inner ih =>
    intro before hbefore
    rcases start_of_append hbefore with hleft | ⟨after, hafter, rfl⟩
    · exact ih before hleft
    · rw [depth_append, outer.depth_eq]
      rcases List.prefix_cons_iff.mp hafter with rfl | ⟨rest, rfl, hrest⟩
      · rw [depth_nil]
        omega
      · have := inner.before_nonneg rest hrest
        rw [depth_cons, Lexeme.depthChange_of_opens kind]
        omega

/-- Balanced tokens change nothing. -/
theorem append (h : Opened tokens blocks) {more : List Token} (hmore : Balanced more) :
    Opened (tokens ++ more) blocks := by
  cases h with
  | none h => exact .none (h.append hmore)
  | block outer kind position inner =>
    rw [List.append_assoc, List.cons_append]
    exact .block outer kind position (inner.append hmore)

theorem closing {block : OpenBlock} (h : Opened tokens (block :: blocks)) {t : Token}
    (ht : t.lexeme = .blockClose) : Opened (tokens ++ [t]) blocks := by
  cases h with
  | block outer kind position inner =>
    rw [List.append_assoc, List.cons_append]
    exact outer.append (.block (Lexeme.depthChange_of_opens kind) (by rw [ht]; rfl) inner)

/-- **At most one block is the innermost open one.** -/
theorem innermost_unique {before before' after after' : List Token} {t t' : Token}
    {kind kind' : BlockKind} (hsame : before ++ t :: after = before' ++ t' :: after')
    (ht : t.lexeme.opens? = some kind) (ht' : t'.lexeme.opens? = some kind')
    (hafter : Balanced after) (hafter' : Balanced after') : t = t' := by
  rcases List.append_eq_append_iff.mp hsame with ⟨middle, -, hmiddle⟩ | ⟨middle, -, hmiddle⟩
  · obtain _ | ⟨first, middle⟩ := middle
    · exact (List.cons.inj hmiddle).1
    · cases hmiddle
      exact absurd hafter' (hafter.not_open ht')
  · obtain _ | ⟨first, middle⟩ := middle
    · exact (List.cons.inj hmiddle).1.symm
    · cases hmiddle
      exact absurd hafter (hafter'.not_open ht)

end Opened

end RegisterLang
