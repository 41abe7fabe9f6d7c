import RegisterLang.Image.Header
import RegisterLang.Proofs.Results

/-!
# Headers and their bytes

The format of a header, stated apart from its reader and its writer: which bytes may stand for a number
of a given width, for a name, for a list of names and for a header. The reader accepts these forms and
nothing else, and the writer produces one of them.

* `Varint.Form`: groups of seven bits, the lowest first, with the high bit set on all but the last.
* `Header.Form`: version, count and number of names, then each name behind its length.
* `Header.read_eq_ok_iff`: what the reader accepts.
* `Header.form_toBytes`: what the writer produces.
* `Header.length_le_of_longName`: a long name makes a long header.
-/

namespace RegisterLang

/-! ## Numbers -/

namespace Varint

/-- The bytes that may stand for a number: seven bits each, the lowest first, and the high bit set on
every byte but the last. -/
inductive Form : Nat → Bytes → Prop
  | last {byte : UInt8} (h : byte.toNat < 128) : Form byte.toNat [byte]
  | more {byte : UInt8} {n : Nat} {form : Bytes} (h : 128 ≤ byte.toNat) (higher : Form n form) :
    Form (byte.toNat % 128 + 128 * n) (byte :: form)

/-- The least number that is too large for a width. -/
def Width.limit (w : Width) : Nat := Nat.pow 128 w.leading * (w.last + 1)

/-- The forms that a number may take in a width; leading zeros count towards the length. -/
structure Width.Admits (w : Width) (n : Nat) (form : Bytes) : Prop where
  isForm : Form n form
  length_le : form.length ≤ w.leading + 1
  lt_limit : n < w.limit

theorem limit_zero (last : Nat) : Width.limit ⟨0, last⟩ = last + 1 := Nat.one_mul (last + 1)

theorem limit_succ (leading last : Nat) :
    Width.limit ⟨leading + 1, last⟩ = 128 * Width.limit ⟨leading, last⟩ := by
  simp only [Width.limit, Nat.pow_eq, Nat.pow_succ', Nat.mul_assoc]

theorem limit_pos (w : Width) : 0 < w.limit :=
  Nat.mul_pos (Nat.pow_pos (by decide)) (Nat.succ_pos w.last)

theorem Form.length_pos {n : Nat} {form : Bytes} (h : Form n form) : 0 < form.length := by
  cases h <;> exact Nat.succ_pos _

theorem sub_eq_mod {byte : UInt8} (h : 128 ≤ byte.toNat) : byte.toNat - 128 = byte.toNat % 128 := by
  have := byte.toNat_lt
  omega

theorem admits_of_readAtMost {last leading n : Nat} {bytes rest : Bytes} (hlast : last < 128)
    (h : readAtMost last leading bytes = .ok (n, rest)) :
    ∃ form, Width.Admits ⟨leading, last⟩ n form ∧ bytes = form ++ rest := by
  induction leading generalizing bytes n with
  | zero =>
    cases bytes with
    | nil => cases h
    | cons byte bytes =>
      unfold readAtMost at h
      split at h
      · rename_i hbyte
        cases h
        refine ⟨[byte], ⟨.last (by omega), Nat.le_refl 1, ?_⟩, rfl⟩
        rw [limit_zero]
        omega
      · cases h
  | succ leading ih =>
    have hpos := limit_pos ⟨leading, last⟩
    cases bytes with
    | nil => cases h
    | cons byte bytes =>
      unfold readAtMost at h
      split at h
      · rename_i hbyte
        cases h
        refine ⟨[byte], ⟨.last hbyte, by simp, ?_⟩, rfl⟩
        rw [limit_succ]
        omega
      · rename_i hbyte
        obtain ⟨⟨high, tail⟩, htail, h⟩ := bind_eq_ok_iff.mp h
        cases h
        obtain ⟨form, hform, rfl⟩ := ih htail
        refine ⟨byte :: form, ⟨?_, Nat.succ_le_succ hform.length_le, ?_⟩, rfl⟩
        · rw [sub_eq_mod (by omega)]
          exact .more (by omega) hform.isForm
        · have hhigh := hform.lt_limit
          have := byte.toNat_lt
          rw [limit_succ]
          omega

theorem readAtMost_of_admits {last leading n : Nat} {form : Bytes}
    (h : Width.Admits ⟨leading, last⟩ n form) (rest : Bytes) :
    readAtMost last leading (form ++ rest) = .ok (n, rest) := by
  obtain ⟨hform, hlength, hlt⟩ := h
  induction hform generalizing leading with
  | @last byte hbyte =>
    cases leading with
    | zero =>
      rw [limit_zero] at hlt
      rw [List.singleton_append, readAtMost, if_pos (by omega)]
    | succ leading => rw [List.singleton_append, readAtMost, if_pos hbyte]
  | @more byte n form hbyte hform ih =>
    have hpos := hform.length_pos
    cases leading with
    | zero =>
      simp only [List.length_cons] at hlength
      omega
    | succ leading =>
      rw [limit_succ] at hlt
      have hread : readAtMost last leading (form ++ rest) = .ok (n, rest) := by
        apply ih
        · exact Nat.le_of_succ_le_succ hlength
        · omega
      rw [List.cons_append, readAtMost, if_neg (by omega), hread, ← sub_eq_mod hbyte]
      rfl

/-- **The reader of numbers accepts the forms of its width and nothing else.** -/
theorem read_eq_ok_iff {w : Width} (hlast : w.last < 128) {n : Nat} {bytes rest : Bytes} :
    read w bytes = .ok (n, rest) ↔ ∃ form, w.Admits n form ∧ bytes = form ++ rest := by
  constructor
  · intro h
    exact admits_of_readAtMost hlast h
  · rintro ⟨form, hform, rfl⟩
    exact readAtMost_of_admits hform rest

theorem toBytes_of_lt {n : Nat} (h : n < 128) : toBytes n = [UInt8.ofNat n] := by
  rw [toBytes, if_pos h]

theorem form_toBytes (n : Nat) : Form n (toBytes n) := by
  fun_induction toBytes n with
  | case1 n hn =>
    have hbyte : (UInt8.ofNat n).toNat = n := by
      rw [UInt8.toNat_ofNat']
      omega
    have hform : Form (UInt8.ofNat n).toNat [UInt8.ofNat n] := .last (by omega)
    rwa [hbyte] at hform
  | case2 n hn ih =>
    have hbyte : (UInt8.ofNat (n % 128 + 128)).toNat = n % 128 + 128 := by
      rw [UInt8.toNat_ofNat']
      omega
    have hvalue : n = (UInt8.ofNat (n % 128 + 128)).toNat % 128 + 128 * (n / 128) := by
      rw [hbyte]
      omega
    have hform : Form _ (UInt8.ofNat (n % 128 + 128) :: toBytes (n / 128)) := .more (by omega) ih
    rwa [← hvalue] at hform

theorem length_toBytes_le {last leading n : Nat} (hlast : last < 128)
    (h : n < Width.limit ⟨leading, last⟩) : (toBytes n).length ≤ leading + 1 := by
  induction leading generalizing n with
  | zero =>
    rw [limit_zero] at h
    rw [toBytes_of_lt (by omega)]
    exact Nat.le_refl 1
  | succ leading ih =>
    rw [toBytes]
    split
    · simp
    · rw [limit_succ] at h
      exact Nat.succ_le_succ (ih (Nat.div_lt_of_lt_mul h))

/-- Every number of a width is written in one of the forms that the width admits. -/
theorem admits_toBytes {w : Width} (hlast : w.last < 128) {n : Nat} (h : n < w.limit) :
    w.Admits n (toBytes n) := ⟨form_toBytes n, length_toBytes_le hlast h, h⟩

end Varint

/-! ## Names -/

namespace Text

theorem ofUtf8?_utf8 (text : String) : ofUtf8? (utf8 text) = some text := by
  simp only [ofUtf8?, utf8, String.fromUTF8?, String.toUTF8_eq_toByteArray, Array.toArray_toList]
  rw [dif_pos text.isValidUTF8]
  rfl

theorem eq_utf8_of_ofUtf8? {bytes : Bytes} {text : String} (h : ofUtf8? bytes = some text) :
    bytes = utf8 text := by
  unfold ofUtf8? String.fromUTF8? at h
  split at h
  · cases h
    rfl
  · cases h

end Text

namespace Header

/-- A name behind its length in bytes. -/
def NameForm (name : String) (form : Bytes) : Prop :=
  ∃ size, Varint.Width.w64.Admits (Text.utf8 name).length size ∧ form = size ++ Text.utf8 name

/-- Names one behind the other. -/
def NamesForm : List String → Bytes → Prop
  | [], form => form = []
  | name :: names, form =>
    ∃ first others, NameForm name first ∧ NamesForm names others ∧ form = first ++ others

/-- The bytes that may stand for a header. -/
def Form (h : Header) (form : Bytes) : Prop :=
  ∃ version count size names, Varint.Width.w16.Admits h.version version ∧
    Varint.Width.w32.Admits h.count count ∧ Varint.Width.w64.Admits h.names.length size ∧
    NamesForm h.names names ∧ form = version ++ count ++ size ++ names

theorem readNumber_eq_ok_iff {w : Varint.Width} (hlast : w.last < 128) {n : Nat}
    {bytes rest : Bytes} :
    readNumber w bytes = .ok (n, rest) ↔ ∃ form, w.Admits n form ∧ bytes = form ++ rest := by
  rw [← Varint.read_eq_ok_iff hlast]
  unfold readNumber
  split <;> simp_all

theorem readName_eq_ok_iff {name : String} {bytes rest : Bytes} :
    readName bytes = .ok (name, rest) ↔ ∃ form, NameForm name form ∧ bytes = form ++ rest := by
  constructor
  · intro h
    obtain ⟨⟨size, tail⟩, hsize, hname⟩ := bind_eq_ok_iff.mp h
    obtain ⟨form, hform, rfl⟩ := (readNumber_eq_ok_iff (by decide)).mp hsize
    simp only at hname
    split at hname
    · cases hname
    · rename_i hlength
      split at hname
      · rename_i text htext
        cases hname
        have hutf8 := Text.eq_utf8_of_ofUtf8? htext
        have hsize : (Text.utf8 name).length = size := by
          rw [← hutf8, List.length_take]
          omega
        refine ⟨form ++ Text.utf8 name, ⟨form, hsize ▸ hform, rfl⟩, ?_⟩
        rw [← hutf8, List.append_assoc, List.take_append_drop]
      · cases hname
  · rintro ⟨-, ⟨size, hsize, rfl⟩, rfl⟩
    have hread := (readNumber_eq_ok_iff (by decide)).mpr
      ⟨size, hsize, List.append_assoc size (Text.utf8 name) rest⟩
    refine bind_eq_ok_iff.mpr ⟨_, hread, ?_⟩
    simp only
    rw [if_neg (by simp), List.take_left, List.drop_left, Text.ofUtf8?_utf8]

theorem namesForm_of_readNames {count : Nat} {names : List String} {bytes rest : Bytes}
    (h : readNames count bytes = .ok (names, rest)) :
    names.length = count ∧ ∃ form, NamesForm names form ∧ bytes = form ++ rest := by
  induction count generalizing bytes names with
  | zero =>
    cases h
    exact ⟨rfl, [], rfl, rfl⟩
  | succ count ih =>
    obtain ⟨⟨name, tail⟩, hname, h⟩ := bind_eq_ok_iff.mp h
    obtain ⟨⟨names, tail⟩, hnames, h⟩ := bind_eq_ok_iff.mp h
    cases h
    obtain ⟨first, hfirst, rfl⟩ := readName_eq_ok_iff.mp hname
    obtain ⟨hcount, others, hothers, rfl⟩ := ih hnames
    refine ⟨by rw [List.length_cons, hcount], first ++ others, ?_, ?_⟩
    · exact ⟨first, others, hfirst, hothers, rfl⟩
    · rw [List.append_assoc]

theorem readNames_of_namesForm {names : List String} {form : Bytes} (h : NamesForm names form)
    (rest : Bytes) : readNames names.length (form ++ rest) = .ok (names, rest) := by
  induction names generalizing form with
  | nil =>
    cases h
    rfl
  | cons name names ih =>
    obtain ⟨first, others, hfirst, hothers, rfl⟩ := h
    have hname : readName (first ++ others ++ rest) = .ok (name, others ++ rest) :=
      readName_eq_ok_iff.mpr ⟨first, hfirst, List.append_assoc first others rest⟩
    refine bind_eq_ok_iff.mpr ⟨_, hname, ?_⟩
    exact bind_eq_ok_iff.mpr ⟨_, ih hothers, rfl⟩

/-! ## Headers -/

/-- **The reader of headers accepts the forms of a header and nothing else.** -/
theorem read_eq_ok_iff {header : Header} {bytes rest : Bytes} :
    read bytes = .ok (header, rest) ↔ ∃ form, header.Form form ∧ bytes = form ++ rest := by
  constructor
  · intro h
    obtain ⟨⟨version, afterVersion⟩, hversion, h⟩ := bind_eq_ok_iff.mp h
    obtain ⟨⟨count, afterCount⟩, hcount, h⟩ := bind_eq_ok_iff.mp h
    obtain ⟨⟨size, afterSize⟩, hsize, h⟩ := bind_eq_ok_iff.mp h
    obtain ⟨⟨names, afterNames⟩, hnames, h⟩ := bind_eq_ok_iff.mp h
    cases h
    obtain ⟨versionForm, hv, rfl⟩ := (readNumber_eq_ok_iff (by decide)).mp hversion
    obtain ⟨countForm, hc, rfl⟩ := (readNumber_eq_ok_iff (by decide)).mp hcount
    obtain ⟨sizeForm, hs, rfl⟩ := (readNumber_eq_ok_iff (by decide)).mp hsize
    obtain ⟨rfl, namesForm, hn, rfl⟩ := namesForm_of_readNames hnames
    refine ⟨versionForm ++ countForm ++ sizeForm ++ namesForm, ?_, ?_⟩
    · exact ⟨versionForm, countForm, sizeForm, namesForm, hv, hc, hs, hn, rfl⟩
    · simp only [List.append_assoc]
  · rintro ⟨-, ⟨version, count, size, names, hversion, hcount, hsize, hnames, rfl⟩, rfl⟩
    simp only [List.append_assoc]
    refine bind_eq_ok_iff.mpr
      ⟨_, (readNumber_eq_ok_iff (by decide)).mpr ⟨version, hversion, rfl⟩, ?_⟩
    refine bind_eq_ok_iff.mpr
      ⟨_, (readNumber_eq_ok_iff (by decide)).mpr ⟨count, hcount, rfl⟩, ?_⟩
    refine bind_eq_ok_iff.mpr
      ⟨_, (readNumber_eq_ok_iff (by decide)).mpr ⟨size, hsize, rfl⟩, ?_⟩
    exact bind_eq_ok_iff.mpr ⟨_, readNames_of_namesForm hnames rest, rfl⟩

theorem length_names_le (names : List String) :
    names.length ≤ (names.flatMap nameBytes).length := by
  induction names with
  | nil => exact Nat.le_refl 0
  | cons name names ih =>
    have hpos := (Varint.form_toBytes (Text.utf8 name).length).length_pos
    rw [List.flatMap_cons, List.length_append, nameBytes, List.length_append, List.length_cons]
    omega

theorem namesForm_flatMap {names : List String}
    (h : (names.flatMap nameBytes).length < UInt64.size) :
    NamesForm names (names.flatMap nameBytes) := by
  induction names with
  | nil => rfl
  | cons name names ih =>
    rw [List.flatMap_cons, List.length_append, nameBytes, List.length_append] at h
    have hname : (Text.utf8 name).length < Varint.Width.w64.limit := by
      show _ < UInt64.size
      omega
    refine ⟨nameBytes name, names.flatMap nameBytes, ?_, ih (by omega), List.flatMap_cons⟩
    exact ⟨_, Varint.admits_toBytes (by decide) hname, rfl⟩

/-- **The writer of headers produces a form of the header**, if the numbers fit their widths. -/
theorem form_toBytes {header : Header} (hversion : header.version < UInt16.size)
    (hcount : header.count < UInt32.size) (hlength : header.toBytes.length < UInt64.size) :
    header.Form header.toBytes := by
  have hnames : (header.names.flatMap nameBytes).length < UInt64.size := by
    rw [toBytes, List.length_append] at hlength
    omega
  have hsize := length_names_le header.names
  exact ⟨_, _, _, _, Varint.admits_toBytes (by decide) hversion,
    Varint.admits_toBytes (by decide) hcount,
    Varint.admits_toBytes (by decide) (Nat.lt_of_le_of_lt hsize hnames),
    namesForm_flatMap hnames, rfl⟩

end Header

/-! ## Long names -/

/-- Every character takes at least a byte. -/
theorem Text.length_le_utf8 (text : String) : text.length ≤ (utf8 text).length := by
  have hbytes : (utf8 text).length = (text.toList.flatMap String.utf8EncodeChar).length := by
    rw [utf8, String.toUTF8_eq_toByteArray, ← String.utf8Encode_toList, Array.length_toList]
    exact List.size_toByteArray
  rw [hbytes, ← String.length_toList]
  generalize text.toList = cs
  induction cs with
  | nil => exact Nat.le_refl _
  | cons c cs ih =>
    have hpos := c.utf8Size_pos
    rw [List.flatMap_cons, List.length_append, List.length_cons, String.length_utf8EncodeChar]
    omega

theorem Header.length_le_toBytes {header : Header} {name : String} (h : name ∈ header.names) :
    (Text.utf8 name).length ≤ header.toBytes.length := by
  obtain ⟨before, after, hnames⟩ := List.append_of_mem h
  simp only [toBytes, nameBytes, hnames, List.flatMap_append, List.flatMap_cons, List.length_append]
  omega

/-- A name of the given length. -/
def longName (length : Nat) : String := String.ofList (List.replicate length 'a')

theorem Header.length_le_of_longName {header : Header} {length : Nat}
    (h : longName length ∈ header.names) : length ≤ header.toBytes.length := by
  have hlength : (longName length).length = length := by
    rw [longName, ← String.length_toList, String.toList_ofList, List.length_replicate]
  have hutf8 := Text.length_le_utf8 (longName length)
  have hheader := length_le_toBytes h
  omega

end RegisterLang
