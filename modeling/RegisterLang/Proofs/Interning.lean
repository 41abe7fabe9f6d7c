import RegisterLang.Proofs.Symbols

/-!
# The two directions of a symbol table

A symbol table is asked for the slot of a name and for the name of a slot. Its list of names answers both.
A table can also be kept in two parts, one for each direction: the names by slot, and a map from names to
32-bit slots. Every new name is then entered twice. The two parts never disagree, and they answer like the
list, as long as the slots fit in 32 bits.

* `SymbolTable.slotOf?_eq_some_iff_nameOf?`: the two directions undo each other.
* `SymbolTable.Consistent`: what a table answers, and what looking a name up makes of it.
* `Directory`: a table in two parts. `Directory.Keeps.intern`: one look-up in both kinds of table.
* `SymbolTable.consistent_internAll`: every table that look-ups lead to is consistent, and is kept by the
  table in two parts.
-/

namespace RegisterLang

namespace SymbolTable

/-! ## Look-ups -/

/-- The table after some names have been looked up, one after the other. -/
def internAll (t : SymbolTable) (names : List String) : SymbolTable :=
  names.foldl (fun t name => (t.intern name).2) t

theorem extends_internAll (t : SymbolTable) (names : List String) : t.Extends (t.internAll names) := by
  induction names generalizing t with
  | nil => exact .refl t
  | cons name names ih => exact (extends_insert t name).trans (ih (t.insert name))

/-- **The two directions undo each other.** -/
theorem slotOf?_eq_some_iff_nameOf? {t : SymbolTable} {name : String} {slot : Nat} :
    t.slotOf? name = some slot ↔ t.nameOf? slot = some name := by
  rw [slotOf?_eq_some_iff]
  constructor
  · rintro ⟨hname, rfl⟩
    exact getElem?_slot hname
  · intro h
    have hname : name ∈ t.names := List.mem_of_getElem? h
    have hlt : slot < t.names.length := (List.getElem?_eq_some_iff.mp h).1
    refine ⟨hname, (List.getElem?_inj hlt t.nodup).mp ?_⟩
    rw [getElem?_slot hname]
    exact h

theorem slotOf?_eq_none_iff {t : SymbolTable} {name : String} :
    t.slotOf? name = none ↔ name ∉ t.names := List.idxOf?_eq_none_iff

theorem intern_of_slotOf? {t : SymbolTable} {name : String} {slot : Nat}
    (h : t.slotOf? name = some slot) : t.intern name = (slot, t) := by
  obtain ⟨hname, rfl⟩ := slotOf?_eq_some_iff.mp h
  have hsame : t.insert name = t := ext_names (names_insert_of_mem hname)
  rw [intern, hsame]

theorem intern_of_not_mem {t : SymbolTable} {name : String} (h : name ∉ t.names) :
    (t.intern name).1 = t.names.length ∧ (t.intern name).2.names = t.names ++ [name] :=
  ⟨List.idxOf_eq_length h, names_insert_of_not_mem h⟩

/-- A name keeps its slot, whatever is looked up later. -/
theorem slotOf?_of_extends {t u : SymbolTable} (h : t.Extends u) {name : String} {slot : Nat}
    (hslot : t.slotOf? name = some slot) : u.slotOf? name = some slot := by
  obtain ⟨hname, rfl⟩ := slotOf?_eq_some_iff.mp hslot
  exact slotOf?_eq_some_iff.mpr ⟨h.mem hname, (h.slot_eq hname).symm⟩

/-- A new name gets the next free slot, and every other name keeps what it had. -/
theorem slotOf?_insert {t : SymbolTable} {name : String} (h : name ∉ t.names) (other : String) :
    (t.insert name).slotOf? other = if other == name then some t.names.length else t.slotOf? other := by
  split
  · rename_i hsame
    rw [eq_of_beq hsame, slotOf?_eq_some_iff_nameOf?, nameOf?, names_insert_of_not_mem h]
    simp
  · rename_i hother
    rw [beq_iff_eq] at hother
    cases hslot : t.slotOf? other with
    | some slot => exact slotOf?_of_extends (t.extends_insert name) hslot
    | none =>
      rw [slotOf?_eq_none_iff] at hslot ⊢
      rw [mem_insert_iff]
      exact not_or.mpr ⟨hslot, hother⟩

theorem internAll_ofNames (names calls : List String) :
    (ofNames names).internAll calls = ofNames (names ++ calls) := by
  rw [ofNames, ofNames, List.foldl_append]
  rfl

/-- What a table answers in the two directions, and what looking a name up makes of it. -/
structure Consistent (t : SymbolTable) : Prop where
  nodup : t.names.Nodup
  /-- A name has a slot exactly if the slot has that name. -/
  slotOf?_iff : ∀ name slot, t.slotOf? name = some slot ↔ t.nameOf? slot = some name
  /-- Looking up a known name returns its slot and changes nothing. -/
  known : ∀ name slot, t.slotOf? name = some slot → t.intern name = (slot, t)
  /-- Looking up a new name returns the next free slot and appends the name. -/
  fresh : ∀ name, t.slotOf? name = none →
    (t.intern name).1 = t.names.length ∧ (t.intern name).2.names = t.names ++ [name]
  /-- No later look-up changes the slot of a known name. -/
  stays : ∀ name slot later, t.slotOf? name = some slot →
    (t.internAll later).slotOf? name = some slot
  /-- The names of the table give the table back. -/
  rebuilt : ofNames t.names = t

theorem consistent (t : SymbolTable) : t.Consistent where
  nodup := t.nodup
  slotOf?_iff _ _ := slotOf?_eq_some_iff_nameOf?
  known _ _ := intern_of_slotOf?
  fresh _ h := intern_of_not_mem (slotOf?_eq_none_iff.mp h)
  stays _ _ later := slotOf?_of_extends (t.extends_internAll later)
  rebuilt := ofNames_names t

end SymbolTable

/-! ## A table in two parts -/

/-- A table in two parts: the names by slot, and the slot of each name. -/
structure Directory where
  names : List String
  slots : List (String × UInt32)
deriving DecidableEq

namespace Directory

/-- The table without names. -/
def empty : Directory := ⟨[], []⟩

/-- The slot of a name. -/
def slotOf? (d : Directory) (name : String) : Option UInt32 := d.slots.lookup name

/-- The slot of the name. A new name gets the next free slot and is entered in both parts. -/
def intern (d : Directory) (name : String) : UInt32 × Directory :=
  match d.slotOf? name with
  | some slot => (slot, d)
  | none =>
    let slot := UInt32.ofNat d.names.length
    (slot, ⟨d.names ++ [name], (name, slot) :: d.slots⟩)

/-- The table after some names have been looked up, one after the other. -/
def internAll (d : Directory) (names : List String) : Directory :=
  names.foldl (fun d name => (d.intern name).2) d

/-- The table that knows the given names. -/
def ofNames (names : List String) : Directory := empty.internAll names

/-- The table in two parts has the names of the other one, and the same slots for them. -/
structure Keeps (d : Directory) (t : SymbolTable) : Prop where
  names_eq : d.names = t.names
  slotOf?_eq : ∀ name, (d.slotOf? name).map UInt32.toNat = t.slotOf? name

theorem keeps_empty : empty.Keeps .empty := ⟨rfl, fun _ => rfl⟩

/-- **One look-up in both kinds of table** gives the same slot and leaves tables that agree again. -/
theorem Keeps.intern {d : Directory} {t : SymbolTable} (h : d.Keeps t)
    (hfew : t.names.length < UInt32.size) (name : String) :
    (d.intern name).1.toNat = (t.intern name).1 ∧ (d.intern name).2.Keeps (t.intern name).2 := by
  have hfound := h.slotOf?_eq name
  unfold Directory.intern
  cases hslot : d.slotOf? name with
  | some slot =>
    rw [hslot, Option.map_some] at hfound
    rw [SymbolTable.intern_of_slotOf? hfound.symm]
    exact ⟨rfl, h⟩
  | none =>
    rw [hslot, Option.map_none] at hfound
    have hnew := SymbolTable.slotOf?_eq_none_iff.mp hfound.symm
    obtain ⟨hnext, hnames⟩ := SymbolTable.intern_of_not_mem hnew
    -- the next slot is exact, since the names are still few enough
    have hexact : (UInt32.ofNat d.names.length).toNat = t.names.length := by
      rw [h.names_eq]
      exact UInt32.toNat_ofNat_of_lt hfew
    refine ⟨hexact.trans hnext.symm, ?_, ?_⟩
    · rw [hnames, h.names_eq]
    · intro other
      rw [Directory.slotOf?, List.lookup_cons, SymbolTable.intern,
        SymbolTable.slotOf?_insert hnew]
      split
      · rename_i heq
        simp [heq, hexact]
      · rename_i hne
        simp only [hne]
        exact h.slotOf?_eq other

theorem Keeps.internAll {d : Directory} {t : SymbolTable} (h : d.Keeps t) {names : List String}
    (hfew : (t.internAll names).names.length < UInt32.size) :
    (d.internAll names).Keeps (t.internAll names) := by
  induction names generalizing d t with
  | nil => exact h
  | cons name names ih =>
    have hgrows : t.Extends (t.internAll (name :: names)) := t.extends_internAll (name :: names)
    have hlt := Nat.lt_of_le_of_lt hgrows.length_le hfew
    exact ih (h.intern hlt name).2 hfew

/-- **The two parts undo each other**, though each is kept on its own. -/
theorem Keeps.slotOf?_eq_some_iff {d : Directory} {t : SymbolTable} (h : d.Keeps t) {name : String}
    {slot : UInt32} : d.slotOf? name = some slot ↔ d.names[slot.toNat]? = some name := by
  have hwide : d.slotOf? name = some slot ↔ t.slotOf? name = some slot.toNat := by
    rw [← h.slotOf?_eq name]
    constructor
    · intro hslot
      rw [hslot, Option.map_some]
    · intro hslot
      obtain ⟨other, hother, heq⟩ := Option.map_eq_some_iff.mp hslot
      rw [hother, UInt32.toNat.inj heq]
  rw [hwide, SymbolTable.slotOf?_eq_some_iff_nameOf?, h.names_eq]
  rfl

end Directory

/-- **The two directions of a symbol table always agree.** A table is made from some names and then asked for
the slots of further ones. It is consistent, and its names are all the names that it was given, each at its
first appearance. The same look-ups lead to a table in two parts that keeps the same names and slots, so
that its parts undo each other; each further look-up gives the same slot in both tables. -/
theorem SymbolTable.consistent_internAll {t : SymbolTable} {d : Directory} {names calls : List String}
    (ht : t = (ofNames names).internAll calls) (hd : d = (Directory.ofNames names).internAll calls) :
    t.Consistent ∧ (ofNames names).names = names.eraseDups ∧ t.names = (names ++ calls).eraseDups
      ∧ (t.names.length < UInt32.size →
          d.Keeps t ∧ (Directory.ofNames d.names).Keeps t
            ∧ (∀ name slot, d.slotOf? name = some slot ↔ d.names[slot.toNat]? = some name)
            ∧ ∀ name, (d.intern name).1.toNat = (t.intern name).1) := by
  subst ht hd
  refine ⟨consistent _, names_ofNames names, by rw [internAll_ofNames, names_ofNames], ?_⟩
  intro hfew
  have hstart : (Directory.ofNames names).Keeps (ofNames names) := by
    refine Directory.keeps_empty.internAll (Nat.lt_of_le_of_lt ?_ hfew)
    exact ((ofNames names).extends_internAll calls).length_le
  have hkeeps := hstart.internAll hfew
  have hagain : (Directory.ofNames ((ofNames names).internAll calls).names).Keeps
      (ofNames ((ofNames names).internAll calls).names) := by
    apply Directory.keeps_empty.internAll
    change (ofNames ((ofNames names).internAll calls).names).names.length < UInt32.size
    rwa [ofNames_names]
  rw [ofNames_names, ← hkeeps.names_eq] at hagain
  exact ⟨hkeeps, hagain, fun _ _ => hkeeps.slotOf?_eq_some_iff, fun name => (hkeeps.intern hfew name).1⟩

theorem SymbolTable.consistent_internAll_repeated :
    (ofNames ["b", "a", "b"]).internAll ["a", "c"] = ⟨["b", "a", "c"], by decide⟩
      ∧ (Directory.ofNames ["b", "a", "b"]).internAll ["a", "c"]
        = ⟨["b", "a", "c"], [("c", 2), ("a", 1), ("b", 0)]⟩
      ∧ Consistent ⟨["b", "a", "c"], by decide⟩
      ∧ Directory.Keeps ⟨["b", "a", "c"], [("c", 2), ("a", 1), ("b", 0)]⟩ ⟨["b", "a", "c"], by decide⟩ := by
  have ht : (⟨["b", "a", "c"], by decide⟩ : SymbolTable) = (ofNames ["b", "a", "b"]).internAll ["a", "c"] :=
    by decide
  have hd : (⟨["b", "a", "c"], [("c", 2), ("a", 1), ("b", 0)]⟩ : Directory)
      = (Directory.ofNames ["b", "a", "b"]).internAll ["a", "c"] := by decide
  obtain ⟨hconsistent, -, -, hkeeps⟩ := consistent_internAll ht hd
  exact ⟨ht.symm, hd.symm, hconsistent, (hkeeps (by decide)).1⟩

end RegisterLang
