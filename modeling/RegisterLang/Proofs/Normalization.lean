import RegisterLang.Proofs.Container

/-!
# Writing an image that was read

More byte strings are read as an image than are ever written: the numbers of a header may have leading
zeros, and names may be repeated in it. Writing the image again leaves these out and changes nothing else.

* `Varint.Form.length_toBytes_le`: the written form of a number is its shortest one.
* `Header.Form.length_toBytes_le`: a header is not longer when it is written again without some of its
  names.
* `Image.toBytes_of_ofBytes`: an image that is read can be written, and what is written is read as the same
  image.
-/

namespace RegisterLang

/-! ## Numbers -/

namespace Varint

/-- **The written form of a number is its shortest one.** -/
theorem Form.length_toBytes_le {n : Nat} {form : Bytes} (h : Form n form) :
    (toBytes n).length ≤ form.length := by
  induction h with
  | last hbyte =>
    rw [toBytes_of_lt hbyte]
    exact Nat.le_refl 1
  | @more byte n form hbyte higher ih =>
    have hdiv : (byte.toNat % 128 + 128 * n) / 128 = n := by omega
    rw [toBytes]
    split
    · simp
    · rw [hdiv]
      exact Nat.succ_le_succ ih

theorem length_toBytes_mono {m n : Nat} (h : m ≤ n) : (toBytes m).length ≤ (toBytes n).length := by
  fun_induction toBytes n generalizing m with
  | case1 n hn =>
    rw [toBytes_of_lt (by omega)]
    exact Nat.le_refl 1
  | case2 n hn ih =>
    rw [toBytes]
    split
    · simp
    · exact Nat.succ_le_succ (ih (Nat.div_le_div_right h))

end Varint

/-! ## Headers -/

namespace Header

theorem NamesForm.length_flatMap_le {names : List String} {form : Bytes} (h : NamesForm names form) :
    (names.flatMap nameBytes).length ≤ form.length := by
  induction names generalizing form with
  | nil => exact Nat.zero_le _
  | cons name names ih =>
    obtain ⟨first, others, ⟨size, hsize, rfl⟩, hothers, rfl⟩ := h
    have hshort := hsize.isForm.length_toBytes_le
    have hrest := ih hothers
    simp only [List.flatMap_cons, nameBytes, List.length_append]
    omega

theorem length_flatMap_le_of_sublist {names more : List String} (h : names.Sublist more) :
    (names.flatMap nameBytes).length ≤ (more.flatMap nameBytes).length := by
  induction h with
  | slnil => exact Nat.le_refl _
  | cons name _ ih =>
    rw [List.flatMap_cons, List.length_append]
    omega
  | cons_cons name _ ih =>
    rw [List.flatMap_cons, List.flatMap_cons, List.length_append, List.length_append]
    omega

/-- **A header is not longer when it is written again**, also without some of its names. -/
theorem Form.length_toBytes_le {header : Header} {form : Bytes} (h : header.Form form)
    {names : List String} (hnames : names.Sublist header.names) :
    (toBytes ⟨header.version, header.count, names⟩).length ≤ form.length := by
  obtain ⟨version, count, size, others, hversion, hcount, hsize, hothers, rfl⟩ := h
  have hshort := hversion.isForm.length_toBytes_le
  have hshort' := hcount.isForm.length_toBytes_le
  have hfewer := Varint.length_toBytes_mono hnames.length_le
  have hshort'' := hsize.isForm.length_toBytes_le
  have hdropped := length_flatMap_le_of_sublist hnames
  have hnamesShort := hothers.length_flatMap_le
  simp only [toBytes, List.length_append]
  omega

theorem Form.count_lt {header : Header} {form : Bytes} (h : header.Form form) :
    header.count < UInt32.size := by
  obtain ⟨-, count, -, -, -, hcount, -⟩ := h
  exact hcount.lt_limit

end Header

/-! ## Images -/

namespace Image

/-- The container that is written for the image in a container: the same stream behind a header that is not
longer. -/
theorem exists_toBytes_of_container {program : Program} {header : Header} {form code : Bytes}
    (hform : header.Form form) (hlength : form.length < UInt32.size)
    (hversion : header.version = formatVersion) (hcount : program.length = header.count)
    (hcode : program.encode = .ok code) :
    ∃ shorter, shorter.length ≤ form.length
      ∧ toBytes ⟨program, some (SymbolTable.ofNames header.names)⟩
        = .ok (mark ++ Bytes.ofNat32 shorter.length ++ shorter ++ code) := by
  have hshort := hform.length_toBytes_le (SymbolTable.ofNames_sublist header.names)
  rw [hversion, ← hcount] at hshort
  refine ⟨_, hshort, ?_⟩
  have hheader : headerBytes program (SymbolTable.ofNames header.names) = .ok _ :=
    headerBytes_eq_ok_iff.mpr
      ⟨hcount ▸ hform.count_lt, Nat.lt_of_le_of_lt hshort hlength, rfl⟩
  have hstream : stream program = .ok code := mapError_eq_ok_iff.mpr hcode
  exact bind_eq_ok_iff.mpr ⟨_, hheader, bind_eq_ok_iff.mpr ⟨code, hstream, rfl⟩⟩

/-- **Writing an image that was read normalizes its bytes.** What is read can be written, and what is written
is read as the same image. A bare stream is written as it was. A container gets a header that is not
longer, in front of the same stream, and writing once more changes nothing. -/
theorem toBytes_of_ofBytes {bytes : Bytes} {image : Image} (h : ofBytes bytes = .ok image) :
    ∃ written, image.toBytes = .ok written ∧ ofBytes written = .ok image
      ∧ (image.symbols = none → written = bytes)
      ∧ (image.symbols.isSome →
          written.length ≤ bytes.length
            ∧ (∃ header shorter code, image.program.encode = .ok code
              ∧ header.length < UInt32.size ∧ shorter.length ≤ header.length
              ∧ bytes = mark ++ Bytes.ofNat32 header.length ++ header ++ code
              ∧ written = mark ++ Bytes.ofNat32 shorter.length ++ shorter ++ code)
            ∧ ∀ again, ofBytes written = .ok again → again.toBytes = .ok written) := by
  cases ofBytes_eq_ok_iff.mp h with
  | bare hcode =>
    have hwritten : toBytes ⟨_, none⟩ = .ok bytes := mapError_eq_ok_iff.mpr hcode
    refine ⟨bytes, hwritten, h, fun _ => rfl, ?_⟩
    intro hsymbols
    cases hsymbols
  | @container program header form code hform hlength hversion hcount hcode =>
    obtain ⟨shorter, hshorter, hwritten⟩ :=
      exists_toBytes_of_container hform hlength hversion hcount hcode
    have hread := ofBytes_of_layout (layout_of_toBytes hwritten)
    refine ⟨_, hwritten, hread, ?_, fun _ => ⟨?_, ?_, ?_⟩⟩
    · intro hsymbols
      cases hsymbols
    · simp only [List.length_append, Bytes.length_ofNat32]
      omega
    · exact ⟨form, shorter, code, hcode, hlength, hshorter, rfl, rfl⟩
    · intro again hagain
      rw [hread] at hagain
      cases hagain
      exact hwritten

/-- The shortest container for the image in `padded`. -/
def trimmed : Bytes := mark ++ [5, 0, 0, 0] ++ [1, 1, 1, 1, 120] ++ paddedCode

theorem toBytes_paddedImage : paddedImage.toBytes = .ok trimmed := by
  have hname : Text.utf8 "x" = [120] := by decide
  have hheader : Header.toBytes ⟨formatVersion, 1, ["x"]⟩ = [1, 1, 1, 1, 120] := by
    simp only [Header.toBytes, Header.nameBytes, List.flatMap_cons, List.flatMap_nil, hname]
    rw [Varint.toBytes_of_lt (by decide), Varint.toBytes_of_lt (by decide),
      Varint.toBytes_of_lt (by decide), Varint.toBytes_of_lt (by decide)]
    rfl
  refine bind_eq_ok_iff.mpr ⟨[1, 1, 1, 1, 120], ?_, rfl⟩
  exact headerBytes_eq_ok_iff.mpr ⟨by decide, by decide, hheader.symm⟩

theorem toBytes_of_ofBytes_padded :
    ofBytes padded = .ok paddedImage ∧ paddedImage.toBytes = .ok trimmed
      ∧ ofBytes trimmed = .ok paddedImage ∧ trimmed.length ≤ padded.length
      ∧ ∀ again, ofBytes trimmed = .ok again → again.toBytes = .ok trimmed := by
  obtain ⟨written, hwritten, hread, -, hcontainer⟩ := toBytes_of_ofBytes ofBytes_padded
  rw [toBytes_paddedImage] at hwritten
  cases hwritten
  obtain ⟨hlength, -, hagain⟩ := hcontainer rfl
  exact ⟨ofBytes_padded, toBytes_paddedImage, hread, hlength, hagain⟩

end Image

end RegisterLang
