/-!
# Symbol tables

A symbol table gives each name a slot: the slots are numbered from 0 in the order in which the
names first appear. The list of names, without repeats, is the whole table.

* `SymbolTable.slotOf?` and `SymbolTable.nameOf?` look up in the two directions.
* `SymbolTable.insert` declares a name, `SymbolTable.ofNames` a list of names in order; a name that is
  known already changes nothing.
* `SymbolTable.intern` returns the slot of a name and declares the name if it is new.
-/

namespace RegisterLang

/-- Names by slot, in the order of their first appearance. -/
structure SymbolTable where
  names : List String
  nodup : names.Nodup
deriving DecidableEq

namespace SymbolTable

/-- The table without names. -/
def empty : SymbolTable := ⟨[], .nil⟩

/-- The slot of a name. -/
def slotOf? (t : SymbolTable) (name : String) : Option Nat := t.names.idxOf? name

/-- The name of a slot. -/
def nameOf? (t : SymbolTable) (slot : Nat) : Option String := t.names[slot]?

/-- Declares a name in the next free slot, unless the table knows it already. -/
def insert (t : SymbolTable) (name : String) : SymbolTable :=
  if known : name ∈ t.names then t
  else ⟨t.names ++ [name], by
    refine List.nodup_append.mpr ⟨t.nodup, by simp, fun a ha b hb hab => known ?_⟩
    simp only [List.mem_singleton] at hb
    exact hb ▸ hab ▸ ha⟩

/-- The slot that a name has, or that it gets when it is declared next. -/
def slot (t : SymbolTable) (name : String) : Nat := t.names.idxOf name

/-- The slot of the name, which is declared if it is new. Slots are natural numbers, so that a table has no
greatest size. A table with slots of 32 bits gives the same ones as long as there are fewer than 2^32 names:
`Directory.Keeps.intern`. -/
def intern (t : SymbolTable) (name : String) : Nat × SymbolTable := (t.slot name, t.insert name)

/-- The table that knows the given names. -/
def ofNames (names : List String) : SymbolTable :=
  names.foldl insert empty

end SymbolTable

end RegisterLang
