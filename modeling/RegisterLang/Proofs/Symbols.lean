import RegisterLang.SymbolTable

/-!
# The slots of a symbol table

A table only ever grows at its end, so a name keeps the slot that it got when it was first seen.

* `SymbolTable.Extends`: the later table knows the names of the earlier one, in the same slots.
* `SymbolTable.slot_eq_of_extends_insert`: the slot that is handed out for a name is its slot for good.
* `SymbolTable.names_ofNames`: a list of names gives a table with these names, the repeated ones left out.
* `SymbolTable.ofNames_names`: the list of names rebuilds the table.
* `SymbolTable.ofNames_sublist`: of a list of names only the repeated ones are dropped, and the others keep
  their order.
-/

namespace RegisterLang.SymbolTable

/-! ## Growth -/

/-- The later table has the names of the earlier one at its start. -/
def Extends (earlier later : SymbolTable) : Prop := earlier.names <+: later.names

theorem Extends.refl (t : SymbolTable) : t.Extends t := List.prefix_refl t.names

theorem Extends.trans {t u v : SymbolTable} (htu : t.Extends u) (huv : u.Extends v) : t.Extends v :=
  List.IsPrefix.trans htu huv

theorem Extends.mem {t u : SymbolTable} (h : t.Extends u) {name : String} (hname : name ∈ t.names) :
    name ∈ u.names := h.subset hname

theorem names_insert_of_mem {t : SymbolTable} {name : String} (h : name ∈ t.names) :
    (t.insert name).names = t.names := by
  rw [insert, dif_pos h]

theorem names_insert_of_not_mem {t : SymbolTable} {name : String} (h : name ∉ t.names) :
    (t.insert name).names = t.names ++ [name] := by
  rw [insert, dif_neg h]

theorem extends_insert (t : SymbolTable) (name : String) : t.Extends (t.insert name) := by
  by_cases h : name ∈ t.names
  · exact ⟨[], by rw [names_insert_of_mem h, List.append_nil]⟩
  · exact ⟨[name], (names_insert_of_not_mem h).symm⟩

theorem mem_insert_iff {t : SymbolTable} {name other : String} :
    other ∈ (t.insert name).names ↔ other ∈ t.names ∨ other = name := by
  by_cases h : name ∈ t.names
  · rw [names_insert_of_mem h]
    constructor
    · exact .inl
    · rintro (hother | rfl)
      · exact hother
      · exact h
  · rw [names_insert_of_not_mem h, List.mem_append, List.mem_singleton]

theorem mem_insert (t : SymbolTable) (name : String) : name ∈ (t.insert name).names :=
  mem_insert_iff.mpr (.inr rfl)

/-! ## Slots -/

theorem slot_lt_length {t : SymbolTable} {name : String} (h : name ∈ t.names) :
    t.slot name < t.names.length := List.idxOf_lt_length_of_mem h

theorem getElem?_slot {t : SymbolTable} {name : String} (h : name ∈ t.names) :
    t.names[t.slot name]? = some name := by
  rw [List.getElem?_eq_getElem (slot_lt_length h)]
  exact congrArg some (List.getElem_idxOf (slot_lt_length h))

theorem eq_of_slot_eq {t : SymbolTable} {name other : String} (hname : name ∈ t.names)
    (hother : other ∈ t.names) (h : t.slot name = t.slot other) : name = other := by
  have hget := getElem?_slot hname
  rw [h, getElem?_slot hother] at hget
  exact (Option.some.inj hget).symm

theorem Extends.slot_eq {t u : SymbolTable} (h : t.Extends u) {name : String}
    (hname : name ∈ t.names) : u.slot name = t.slot name := by
  obtain ⟨rest, hrest⟩ := h
  rw [slot, slot, ← hrest, List.idxOf_append, if_pos hname]

theorem slot_insert (t : SymbolTable) (name : String) : (t.insert name).slot name = t.slot name := by
  by_cases h : name ∈ t.names
  · rw [slot, slot, names_insert_of_mem h]
  · rw [slot, slot, names_insert_of_not_mem h, List.idxOf_append, if_neg h, List.idxOf_eq_length h]
    simp

/-- **A name keeps the slot that it gets when it is declared.** -/
theorem slot_eq_of_extends_insert {t u : SymbolTable} {name : String}
    (h : (t.insert name).Extends u) : u.slot name = t.slot name := by
  rw [h.slot_eq (mem_insert t name), slot_insert]

theorem slotOf?_eq_some_iff {t : SymbolTable} {name : String} {i : Nat} :
    t.slotOf? name = some i ↔ name ∈ t.names ∧ i = t.slot name := by
  rw [slotOf?, List.idxOf?, List.findIdx?_eq_some_iff_findIdx_eq, slot]
  constructor
  · rintro ⟨hlt, rfl⟩
    exact ⟨List.idxOf_lt_length_iff.mp hlt, rfl⟩
  · rintro ⟨hname, rfl⟩
    exact ⟨List.idxOf_lt_length_of_mem hname, rfl⟩

/-! ## Rebuilding -/

theorem ext_names {t u : SymbolTable} (h : t.names = u.names) : t = u := by
  cases t
  cases u
  cases h
  rfl

/-- Names that are all new go to the end of the table, in their order. -/
theorem names_foldl_insert {names : List String} {t : SymbolTable} (h : (t.names ++ names).Nodup) :
    (names.foldl insert t).names = t.names ++ names := by
  induction names generalizing t with
  | nil => rw [List.foldl_nil, List.append_nil]
  | cons name names ih =>
    have hnew : name ∉ t.names := by
      intro hmem
      exact (List.nodup_append.mp h).2.2 name hmem name List.mem_cons_self rfl
    have hnames := names_insert_of_not_mem hnew
    rw [List.foldl_cons, ih (by rw [hnames]; simpa using h), hnames, List.append_assoc]
    rfl

theorem foldl_insert_sublist (names : List String) (t : SymbolTable) :
    (names.foldl insert t).names.Sublist (t.names ++ names) := by
  induction names generalizing t with
  | nil => simp
  | cons name names ih =>
    refine (ih (t.insert name)).trans ?_
    by_cases h : name ∈ t.names
    · rw [names_insert_of_mem h]
      exact (List.sublist_cons_self name names).append_left t.names
    · rw [names_insert_of_not_mem h]
      simp

/-- Names that are repeated are dropped, and the others keep their order. -/
theorem ofNames_sublist (names : List String) : (ofNames names).names.Sublist names :=
  foldl_insert_sublist names empty

theorem names_foldl_insert_eq (names : List String) (t : SymbolTable) :
    (names.foldl insert t).names = t.names ++ (names.filter (· ∉ t.names)).eraseDups := by
  induction names generalizing t with
  | nil => simp
  | cons name names ih =>
    rw [List.foldl_cons, ih]
    by_cases h : name ∈ t.names
    · rw [names_insert_of_mem h, List.filter_cons_of_neg (by simpa using h)]
    · -- the name goes to the end, and is dropped from what follows
      have hrest : names.filter (· ∉ t.names ++ [name])
          = (names.filter (· ∉ t.names)).filter (fun other => !other == name) := by
        rw [List.filter_filter]
        apply List.filter_congr
        intro other _
        rw [Bool.eq_iff_iff]
        simp [and_comm]
      rw [names_insert_of_not_mem h, List.filter_cons_of_pos (by simpa using h), List.eraseDups_cons, hrest,
        List.append_assoc]
      rfl

/-- **A table has the names it was given, each at its first appearance.** -/
theorem names_ofNames (names : List String) : (ofNames names).names = names.eraseDups := by
  have hnew : names.filter (· ∉ empty.names) = names := List.filter_eq_self.mpr (by simp [empty])
  rw [ofNames, names_foldl_insert_eq, hnew]
  rfl

/-- **The names of a table, declared in order, give the table back.** -/
theorem ofNames_names (t : SymbolTable) : ofNames t.names = t := by
  apply ext_names
  rw [ofNames, names_foldl_insert]
  · rfl
  · exact t.nodup

end RegisterLang.SymbolTable
