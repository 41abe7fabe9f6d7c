import RegisterLang.Proofs.Framing
import RegisterLang.Proofs.Symbols

/-!
# Images and their bytes

An image that was written is read back: program, slot names, and whether it has any names at all.

* `Image.Layout`: the two layouts of an image, the bare stream and the container.
* `Image.layout_of_toBytes`: what is written has the layout that the image asks for.
* `Image.ofBytes_of_layout`: bytes in a layout of an image are read as that image.
* `Image.ofBytes_toBytes`: both together, and when an image can be written.
-/

namespace RegisterLang.Image

/-- The layouts of an image. Without names it is the stream of its program. With names it is a
container: the mark, the length of the header, the header and then the stream. -/
inductive Layout : Image → Bytes → Prop
  | bare {program : Program} {code : Bytes} (hcode : program.encode = .ok code) :
    Layout ⟨program, none⟩ code
  | container {program : Program} {symbols : SymbolTable} {header code : Bytes}
    (hheader : Header.Form ⟨formatVersion, program.length, symbols.names⟩ header)
    (hlength : header.length < UInt32.size) (hcode : program.encode = .ok code) :
    Layout ⟨program, some symbols⟩ (mark ++ Bytes.ofNat32 header.length ++ header ++ code)

/-! ## Writing -/

theorem headerBytes_eq_ok_iff {program : Program} {symbols : SymbolTable} {bytes : Bytes} :
    headerBytes program symbols = .ok bytes ↔
      program.length < UInt32.size ∧ bytes.length < UInt32.size ∧
        bytes = Header.toBytes ⟨formatVersion, program.length, symbols.names⟩ := by
  unfold headerBytes
  split
  · rename_i hcount
    constructor
    · intro h
      cases h
    · rintro ⟨hlt, -⟩
      omega
  · rename_i hcount
    simp only
    split
    · rename_i hlength
      constructor
      · intro h
        cases h
      · rintro ⟨-, hlt, rfl⟩
        omega
    · rename_i hlength
      constructor
      · intro h
        cases h
        exact ⟨by omega, by omega, rfl⟩
      · rintro ⟨-, -, rfl⟩
        rfl

theorem layout_of_toBytes {image : Image} {bytes : Bytes} (h : image.toBytes = .ok bytes) :
    Layout image bytes := by
  obtain ⟨program, symbols⟩ := image
  cases symbols with
  | none => exact .bare (mapError_eq_ok_iff.mp h)
  | some symbols =>
    obtain ⟨header, hheader, h⟩ := bind_eq_ok_iff.mp h
    obtain ⟨code, hcode, h⟩ := bind_eq_ok_iff.mp h
    cases h
    obtain ⟨hcount, hlength, rfl⟩ := headerBytes_eq_ok_iff.mp hheader
    have hversion : formatVersion < UInt16.size := by decide
    have hfits : UInt32.size < UInt64.size := by decide
    refine .container ?_ hlength (mapError_eq_ok_iff.mp hcode)
    exact Header.form_toBytes hversion hcount (Nat.lt_trans hlength hfits)

/-- An image whose program has a stream can be written, if it has no names or its header fits. -/
theorem exists_toBytes {image : Image} {code : Bytes} (hcode : image.program.encode = .ok code)
    (hheader : ∀ symbols, image.symbols = some symbols →
      ∃ header, headerBytes image.program symbols = .ok header) :
    ∃ bytes, image.toBytes = .ok bytes := by
  obtain ⟨program, symbols⟩ := image
  have hstream : stream program = .ok code := mapError_eq_ok_iff.mpr hcode
  cases symbols with
  | none => exact ⟨code, hstream⟩
  | some symbols =>
    obtain ⟨header, hheader⟩ := hheader symbols rfl
    refine ⟨mark ++ Bytes.ofNat32 header.length ++ header ++ code, ?_⟩
    exact bind_eq_ok_iff.mpr ⟨header, hheader, bind_eq_ok_iff.mpr ⟨code, hstream, rfl⟩⟩

/-! ## Reading -/

/-- A layout of an image is one of the byte strings that are read as it. -/
theorem Layout.accepts {image : Image} {bytes : Bytes} (h : Layout image bytes) :
    Accepts image bytes := by
  cases h with
  | bare hcode => exact .bare hcode
  | @container program symbols header code hheader hlength hcode =>
    have haccepts := Accepts.container hheader hlength rfl rfl hcode
    rwa [SymbolTable.ofNames_names] at haccepts

theorem ofBytes_of_layout {image : Image} {bytes : Bytes} (h : Layout image bytes) :
    ofBytes bytes = .ok image := ofBytes_eq_ok_iff.mpr h.accepts

theorem Layout.mark_isPrefix_iff {image : Image} {bytes : Bytes} (h : Layout image bytes) :
    mark <+: bytes ↔ image.symbols.isSome := by
  cases h with
  | bare hcode =>
    have hmark : ¬ mark <+: bytes := by
      intro hprefix
      exact take_ne_mark hcode (List.prefix_iff_eq_take.mp hprefix).symm
    simp [hmark]
  | container => simp

/-- **An image that is written is read back**, in both layouts, and the mark tells them apart. It can be
written if its program has a stream and, where it has names, the count of instructions and the header
fit their fields. The header is read and written in the one format `Header.Form`. -/
theorem ofBytes_toBytes (image : Image) :
    (∀ bytes, image.toBytes = .ok bytes →
      ofBytes bytes = .ok image ∧ Layout image bytes ∧ (mark <+: bytes ↔ image.symbols.isSome)) ∧
    (∀ code, image.program.encode = .ok code →
      (∀ symbols, image.symbols = some symbols → image.program.length < UInt32.size ∧
        (Header.toBytes ⟨formatVersion, image.program.length, symbols.names⟩).length < UInt32.size) →
      ∃ bytes, image.toBytes = .ok bytes) ∧
    (∀ header bytes rest, Header.read bytes = .ok (header, rest) ↔
      ∃ form, Header.Form header form ∧ bytes = form ++ rest) := by
  refine ⟨?_, ?_, ?_⟩
  · intro bytes h
    have hlayout := layout_of_toBytes h
    exact ⟨ofBytes_of_layout hlayout, hlayout, hlayout.mark_isPrefix_iff⟩
  · intro code hcode hsize
    apply exists_toBytes hcode
    intro symbols hsymbols
    obtain ⟨hcount, hlength⟩ := hsize symbols hsymbols
    exact ⟨_, headerBytes_eq_ok_iff.mpr ⟨hcount, hlength, rfl⟩⟩
  · intro header bytes rest
    exact Header.read_eq_ok_iff

/-- Two instructions, and a name that takes more bytes than it has letters. -/
def sample : Image := ⟨[.set 0 300, .ret 0], some ⟨["größe"], by decide⟩⟩

/-- The header of the sample. -/
def sampleHeader : Bytes := [1, 2, 1, 7, 103, 114, 195, 182, 195, 159, 101]

/-- The stream of the sample. -/
def sampleCode : Bytes := [0, 0, 0, 0, 0, 44, 1, 0, 0, 9, 0, 0, 0, 0]

theorem toBytes_sampleHeader :
    Header.toBytes ⟨formatVersion, sample.program.length, ["größe"]⟩ = sampleHeader := by
  have hname : Text.utf8 "größe" = [103, 114, 195, 182, 195, 159, 101] := by decide
  simp only [Header.toBytes, Header.nameBytes, List.flatMap_cons, List.flatMap_nil, hname]
  rw [Varint.toBytes_of_lt (by decide), Varint.toBytes_of_lt (by decide),
    Varint.toBytes_of_lt (by decide), Varint.toBytes_of_lt (by decide)]
  rfl

theorem ofBytes_toBytes_sample :
    (sample.toBytes = .ok (mark ++ [11, 0, 0, 0] ++ sampleHeader ++ sampleCode) ∧
      ofBytes (mark ++ [11, 0, 0, 0] ++ sampleHeader ++ sampleCode) = .ok sample) ∧
    (sample.program.encode = .ok sampleCode ∧ ∃ bytes, sample.toBytes = .ok bytes) := by
  have hcode : sample.program.encode = .ok sampleCode := rfl
  have hsize : ∀ symbols, sample.symbols = some symbols →
      sample.program.length < UInt32.size ∧
        (Header.toBytes ⟨formatVersion, sample.program.length, symbols.names⟩).length
          < UInt32.size := by
    intro symbols hsymbols
    cases hsymbols
    rw [toBytes_sampleHeader]
    decide
  have hbytes : sample.toBytes = .ok (mark ++ [11, 0, 0, 0] ++ sampleHeader ++ sampleCode) := by
    refine bind_eq_ok_iff.mpr ⟨sampleHeader, ?_, rfl⟩
    exact headerBytes_eq_ok_iff.mpr ⟨by decide, by decide, toBytes_sampleHeader.symm⟩
  obtain ⟨hread, hwrite, -⟩ := ofBytes_toBytes sample
  exact ⟨⟨hbytes, (hread _ hbytes).1⟩, hcode, hwrite sampleCode hcode hsize⟩

end RegisterLang.Image
