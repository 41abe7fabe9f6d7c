import RegisterLang.Program.Listing
import RegisterLang.Proofs.Framing
import RegisterLang.Proofs.Interning

/-!
# Repeated names in a header

The header of a container lists the names of the slots. The list goes through a symbol table, and a table
has no name twice. So a repeated name is dropped, and all names behind it move to lower slots.

* `SymbolTable.nameOf?_ofNames_eq_iff`: a name keeps its place in the list exactly if nothing is repeated
  up to it.
* `Image.ofBytes_names`: which slots of a container have the names that its header gives them.
* `Image.ofBytes_displaced`: a container in which the last slot loses its name to the one before.
-/

namespace RegisterLang

namespace SymbolTable

theorem extends_ofNames_take (names : List String) (count : Nat) :
    (ofNames (names.take count)).Extends (ofNames names) := by
  have h := (ofNames (names.take count)).extends_internAll (names.drop count)
  rwa [internAll_ofNames, List.take_append_drop] at h

theorem names_ofNames_of_nodup {names : List String} (h : names.Nodup) : (ofNames names).names = names :=
  congrArg SymbolTable.names (ofNames_names ⟨names, h⟩)

theorem nodup_of_length_le {names : List String} (h : names.length ≤ (ofNames names).names.length) :
    names.Nodup := by
  have hsame : (ofNames names).names = names := (ofNames_sublist names).eq_of_length_le h
  rw [← hsame]
  exact (ofNames names).nodup

/-- **A name keeps its place in the list exactly if nothing is repeated up to it.** -/
theorem nameOf?_ofNames_eq_iff {names : List String} {i : Nat} (h : i < names.length) :
    (ofNames names).nameOf? i = names[i]? ↔ (names.take (i + 1)).Nodup := by
  have hextends := extends_ofNames_take names (i + 1)
  have hfront : (names.take (i + 1))[i]? = names[i]? := List.getElem?_take_of_lt (Nat.lt_succ_self i)
  constructor
  · intro heq
    apply nodup_of_length_le
    -- the name has got its slot among the names up to it, so there are that many different ones
    obtain ⟨name, hname⟩ : ∃ name, names[i]? = some name := ⟨_, List.getElem?_eq_getElem h⟩
    have hmem : name ∈ (ofNames (names.take (i + 1))).names := by
      rw [names_ofNames, List.mem_eraseDups]
      exact List.mem_of_getElem? (hfront.trans hname)
    obtain ⟨-, hslot⟩ := slotOf?_eq_some_iff.mp (slotOf?_eq_some_iff_nameOf?.mpr (heq.trans hname))
    rw [hextends.slot_eq hmem] at hslot
    have hlt := slot_lt_length hmem
    rw [List.length_take]
    omega
  · intro hnodup
    rw [List.getElem?_eq_getElem h] at hfront ⊢
    have hkept : (ofNames (names.take (i + 1))).nameOf? i = some names[i] := by
      rw [nameOf?, names_ofNames_of_nodup hnodup, hfront]
    rw [← slotOf?_eq_some_iff_nameOf?] at hkept ⊢
    exact slotOf?_of_extends hextends hkept

/-- All names keep their places exactly if none is repeated. -/
theorem forall_nameOf?_ofNames_iff {names : List String} :
    (∀ i < names.length, (ofNames names).nameOf? i = names[i]?) ↔ names.Nodup := by
  constructor
  · intro h
    apply nodup_of_length_le
    cases hnames : names.length with
    | zero => exact Nat.zero_le _
    | succ count =>
      have hlast := h count (by omega)
      rw [List.getElem?_eq_getElem (by omega)] at hlast
      exact (List.getElem?_eq_some_iff.mp hlast).1
  · intro h i _
    rw [nameOf?, names_ofNames_of_nodup h]

end SymbolTable

namespace Image

/-- The byte string is a container with the given header. -/
def HasHeader (bytes : Bytes) (header : Header) : Prop :=
  ∃ form code, form.length < UInt32.size ∧ bytes = mark ++ Bytes.ofNat32 form.length ++ form ++ code
    ∧ ofHeader form = .ok header

/-- An image has the names that are in its header, the repeated ones left out. -/
theorem HasHeader.symbols_eq {bytes : Bytes} {header : Header} (hheader : HasHeader bytes header)
    {image : Image} (h : ofBytes bytes = .ok image) :
    image.symbols = some (SymbolTable.ofNames header.names) := by
  obtain ⟨form, code, hlength, rfl, hread⟩ := hheader
  rw [List.append_assoc, List.append_assoc, ofBytes_mark_append, ← List.append_assoc,
    ofContainer_append hlength] at h
  obtain ⟨program, found, hform, hversion, -, -, rfl⟩ := ofParts_eq_ok_iff.mp h
  rw [ofHeader_eq_ok_iff.mpr ⟨hform, hversion⟩] at hread
  cases hread
  rfl

theorem exists_hasHeader {bytes : Bytes} {image : Image} (h : ofBytes bytes = .ok image)
    (hsymbols : image.symbols.isSome) : ∃ header, HasHeader bytes header := by
  cases ofBytes_eq_ok_iff.mp h with
  | bare => cases hsymbols
  | @container program header form code hform hlength hversion =>
    exact ⟨header, form, code, hlength, rfl, ofHeader_eq_ok_iff.mpr ⟨hform, hversion⟩⟩

/-- **Which slots have the names that the header gives them.** Every container that is read has a header. The
names of the image are those in the header, each at its first appearance. A slot has the name that the
header gives it exactly if no name is repeated up to there, and then a listing shows that name. So all slots
have their names exactly if the header repeats none. -/
theorem ofBytes_names {bytes : Bytes} {image : Image} {table : SymbolTable}
    (h : ofBytes bytes = .ok image) (htable : image.symbols = some table) :
    (∃ header, HasHeader bytes header)
      ∧ ∀ header, HasHeader bytes header →
          table.names = header.names.eraseDups
            ∧ (∀ i < header.names.length,
              table.nameOf? i = header.names[i]? ↔ (header.names.take (i + 1)).Nodup)
            ∧ (∀ i name, (header.names.take (i + 1)).Nodup → header.names[i]? = some name →
              slotText image.symbols i = name)
            ∧ ((∀ i < header.names.length, table.nameOf? i = header.names[i]?) ↔ header.names.Nodup) := by
  refine ⟨exists_hasHeader h (by rw [htable]; rfl), ?_⟩
  intro header hheader
  have hsymbols := hheader.symbols_eq h
  obtain rfl : table = SymbolTable.ofNames header.names := Option.some.inj (htable.symm.trans hsymbols)
  refine ⟨SymbolTable.names_ofNames _, fun i hi => SymbolTable.nameOf?_ofNames_eq_iff hi, ?_,
    SymbolTable.forall_nameOf?_ofNames_iff⟩
  intro i name hnodup hname
  have hi : i < header.names.length := (List.getElem?_eq_some_iff.mp hname).1
  have hkept := (SymbolTable.nameOf?_ofNames_eq_iff hi).mpr hnodup
  rw [slotText, hsymbols, Option.bind_some, hkept, hname, Option.getD_some]

/-- A header that gives the slots 0 and 1 the same name, and slot 2 another one. -/
def displacedHeader : Bytes := [1, 1, 3, 1, 97, 1, 97, 1, 98]

/-- A container with that header, whose only instruction returns slot 2. -/
def displaced : Bytes := mark ++ [9, 0, 0, 0] ++ displacedHeader ++ [9, 2, 0, 0, 0]

theorem hasHeader_displaced : HasHeader displaced ⟨1, 1, ["a", "a", "b"]⟩ :=
  ⟨displacedHeader, [9, 2, 0, 0, 0], by decide, rfl, rfl⟩

/-- The image in `displaced`. -/
def displacedImage : Image := ⟨[.ret 2], some ⟨["a", "b"], by decide⟩⟩

theorem ofBytes_displacedImage : ofBytes displaced = .ok displacedImage := by
  obtain ⟨hform, hversion⟩ := ofHeader_eq_ok_iff.mp (rfl : ofHeader displacedHeader = .ok _)
  exact ofBytes_eq_ok_iff.mpr (.container hform (by decide) hversion rfl rfl)

theorem ofBytes_names_displaced :
    ofBytes displaced = .ok displacedImage ∧ HasHeader displaced ⟨1, 1, ["a", "a", "b"]⟩
      ∧ slotText displacedImage.symbols 0 = "a" := by
  obtain ⟨-, hnames⟩ := ofBytes_names ofBytes_displacedImage rfl
  obtain ⟨-, -, hshown, -⟩ := hnames _ hasHeader_displaced
  exact ⟨ofBytes_displacedImage, hasHeader_displaced, hshown 0 "a" (by decide) rfl⟩

/-- The header names slot 1 `a` and slot 2 `b`, but slot 1 of the image is named `b` and slot 2 has no
name. -/
theorem ofBytes_displaced :
    ∃ table, ofBytes displaced = .ok ⟨[.ret 2], some table⟩
      ∧ HasHeader displaced ⟨1, 1, ["a", "a", "b"]⟩
      ∧ table.nameOf? 1 = some "b" ∧ table.nameOf? 2 = none
      ∧ ¬ (∀ i < ["a", "a", "b"].length, table.nameOf? i = ["a", "a", "b"][i]?)
      ∧ slotText (some table) 1 = "b" ∧ slotText (some table) 2 = "r2" := by
  refine ⟨⟨["a", "b"], by decide⟩, ofBytes_displacedImage, hasHeader_displaced, rfl, rfl, ?_, rfl, ?_⟩
  · intro h
    have hlast := h 2 (by decide)
    cases hlast
  · decide

end Image

end RegisterLang
