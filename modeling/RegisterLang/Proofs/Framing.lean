import RegisterLang.Image.Container
import RegisterLang.Proofs.Header
import RegisterLang.Proofs.Stream

/-!
# What is read as an image

The byte strings that are read as an image, and why no container can be mistaken for a longer or shorter
one: its header ends by itself, and counts the instructions that follow it.

* `Image.Accepts`: the bare streams and the containers that are read. More is read than is ever written,
  since a header may have numbers with leading zeros and names that are repeated.
* `Image.ofBytes_eq_ok_iff`: exactly these byte strings are read.
* `Header.Form.append_inj`, `Program.exists_append_of_encode`: a header ends by itself, and a stream that
  goes on holds further instructions.
* `Image.Accepts.of_form`: the header of a container fixes the length in front of it and the stream behind
  it.
* `Image.ofBytes_framed`: containers that are cut off, extended or framed anew are rejected.
-/

namespace RegisterLang

namespace Image

/-- The byte strings that are read as an image: the stream of its program, or a container with a header
that tells the right version and count. The names of the image are those in the header, without the
repeated ones. -/
inductive Accepts : Image → Bytes → Prop
  | bare {program : Program} {code : Bytes} (hcode : program.encode = .ok code) :
    Accepts ⟨program, none⟩ code
  | container {program : Program} {header : Header} {form code : Bytes} (hform : header.Form form)
    (hlength : form.length < UInt32.size) (hversion : header.version = formatVersion)
    (hcount : program.length = header.count) (hcode : program.encode = .ok code) :
    Accepts ⟨program, some (SymbolTable.ofNames header.names)⟩
      (mark ++ Bytes.ofNat32 form.length ++ form ++ code)

/-! ## The parts of an image -/

theorem ofStream_eq_ok_iff {program : Program} {code : Bytes} :
    ofStream code = .ok program ↔ program.encode = .ok code := by
  rw [ofStream, mapError_eq_ok_iff]
  constructor
  · intro h
    exact Program.encodeFrom_of_decodeFrom h 0
  · exact Program.decode_of_encode

theorem ofHeader_eq_ok_iff {header : Header} {bytes : Bytes} :
    ofHeader bytes = .ok header ↔ header.Form bytes ∧ header.version = formatVersion := by
  have hread : Header.read bytes = .ok (header, []) ↔ header.Form bytes := by
    rw [Header.read_eq_ok_iff]
    simp
  unfold ofHeader
  constructor
  · intro h
    split at h
    · cases h
    · rename_i found rest hfound
      split at h
      · cases h
      · rename_i hrest
        split at h
        · cases h
        · rename_i hversion
          cases h
          rw [Classical.not_not.mp hrest] at hfound
          exact ⟨hread.mp hfound, Classical.not_not.mp hversion⟩
  · rintro ⟨hform, hversion⟩
    rw [hread.mpr hform]
    simp [hversion]

theorem ofParts_eq_ok_iff {form code : Bytes} {image : Image} :
    ofParts form code = .ok image ↔
      ∃ (program : Program) (header : Header), header.Form form ∧ header.version = formatVersion
        ∧ program.length = header.count ∧ program.encode = .ok code
        ∧ image = ⟨program, some (SymbolTable.ofNames header.names)⟩ := by
  simp only [ofParts, bind_eq_ok_iff, ofHeader_eq_ok_iff, ofStream_eq_ok_iff]
  constructor
  · rintro ⟨header, ⟨hform, hversion⟩, program, hcode, h⟩
    split at h
    · cases h
    · rename_i hcount
      cases h
      exact ⟨program, header, hform, hversion, Classical.not_not.mp hcount, hcode, rfl⟩
  · rintro ⟨program, header, hform, hversion, hcount, hcode, rfl⟩
    exact ⟨header, ⟨hform, hversion⟩, program, hcode, if_neg (fun h => h hcount)⟩

theorem ofContainer_append {form : Bytes} (h : form.length < UInt32.size) (code : Bytes) :
    ofContainer (Bytes.ofNat32 form.length ++ form ++ code) = ofParts form code := by
  simp only [Bytes.ofNat32, List.cons_append, List.nil_append, ofContainer, Bytes.toNat32_ofNat h]
  rw [if_neg (by simp), List.take_left, List.drop_left]

/-- What follows the mark of a container that is read: the length of the header, and the parts. -/
theorem exists_parts_of_ofContainer {rest : Bytes} {image : Image}
    (h : ofContainer rest = .ok image) :
    ∃ form code, form.length < UInt32.size ∧ rest = Bytes.ofNat32 form.length ++ form ++ code
      ∧ ofParts form code = .ok image := by
  unfold ofContainer at h
  split at h
  · rename_i a b c d rest
    simp only at h
    split at h
    · cases h
    · rename_i hsize
      have hlength : (rest.take (Bytes.toNat32 a b c d)).length = Bytes.toNat32 a b c d := by
        rw [List.length_take]
        omega
      refine ⟨rest.take (Bytes.toNat32 a b c d), rest.drop (Bytes.toNat32 a b c d), ?_, ?_, h⟩
      · rw [hlength]
        exact Bytes.toNat32_lt a b c d
      · rw [hlength, Bytes.ofNat32_toNat32, List.append_assoc, List.take_append_drop]
        rfl
  · cases h

/-- No stream starts with the first byte of the mark. -/
theorem head?_ne_of_encode {program : Program} {code : Bytes} (h : program.encode = .ok code) :
    code.head? ≠ mark.head? := by
  cases program with
  | nil =>
    cases h
    decide
  | cons instr program =>
    obtain ⟨f, hf, h⟩ := bind_eq_ok_iff.mp h
    obtain ⟨rest, -, h⟩ := bind_eq_ok_iff.mp h
    cases h
    intro hmark
    have hbyte : f.tag.toByte = 0x41 := Option.some.inj hmark
    obtain ⟨hvalid, -, -⟩ := Instr.frame_wellFormed hf
    have htag := Tag.ofByte?_eq_some_iff.mpr ⟨hvalid, hbyte⟩
    have hnone : Tag.ofByte? 0x41 = none := by decide
    rw [hnone] at htag
    cases htag

theorem take_ne_mark {program : Program} {code : Bytes} (h : program.encode = .ok code) :
    code.take 4 ≠ mark := by
  intro hmark
  apply head?_ne_of_encode h
  rw [← hmark, List.head?_take]
  rfl

theorem ofBytes_mark_append (rest : Bytes) : ofBytes (mark ++ rest) = ofContainer rest := if_pos rfl

/-! ## What is read -/

theorem ofBytes_of_accepts {image : Image} {bytes : Bytes} (h : Accepts image bytes) :
    ofBytes bytes = .ok image := by
  cases h with
  | bare hcode =>
    rw [ofBytes, if_neg (take_ne_mark hcode)]
    exact bind_eq_ok_iff.mpr ⟨_, ofStream_eq_ok_iff.mpr hcode, rfl⟩
  | @container program header form code hform hlength hversion hcount hcode =>
    rw [List.append_assoc, List.append_assoc, ofBytes_mark_append, ← List.append_assoc,
      ofContainer_append hlength]
    exact ofParts_eq_ok_iff.mpr ⟨program, header, hform, hversion, hcount, hcode, rfl⟩

theorem accepts_of_ofBytes {image : Image} {bytes : Bytes} (h : ofBytes bytes = .ok image) :
    Accepts image bytes := by
  unfold ofBytes at h
  split at h
  · rename_i hmark
    obtain ⟨form, code, hlength, hrest, hparts⟩ := exists_parts_of_ofContainer h
    obtain ⟨program, header, hform, hversion, hcount, hcode, rfl⟩ := ofParts_eq_ok_iff.mp hparts
    have hbytes : bytes = mark ++ Bytes.ofNat32 form.length ++ form ++ code := by
      rw [List.append_assoc, List.append_assoc, ← List.append_assoc _ form, ← hrest, ← hmark,
        List.take_append_drop]
    rw [hbytes]
    exact .container hform hlength hversion hcount hcode
  · obtain ⟨program, hprogram, h⟩ := bind_eq_ok_iff.mp h
    cases h
    exact .bare (ofStream_eq_ok_iff.mp hprogram)

/-- The first byte tells containers from streams. -/
theorem Accepts.head?_eq_iff {image : Image} {bytes : Bytes} (h : Accepts image bytes) :
    bytes.head? = mark.head? ↔ image.symbols.isSome := by
  cases h with
  | bare hcode => simp [head?_ne_of_encode hcode]
  | container => simp [mark]

/-- **Exactly the accepted byte strings are read as an image.** -/
theorem ofBytes_eq_ok_iff {image : Image} {bytes : Bytes} :
    ofBytes bytes = .ok image ↔ Accepts image bytes :=
  ⟨accepts_of_ofBytes, ofBytes_of_accepts⟩

end Image

/-! ## Where the parts end -/

/-- **A header ends by itself**: of two headers at the start of the same bytes neither is longer. -/
theorem Header.Form.append_inj {header other : Header} {form form' rest rest' : Bytes}
    (h : header.Form form) (h' : other.Form form') (heq : form ++ rest = form' ++ rest') :
    header = other ∧ form = form' := by
  have hread : Header.read (form ++ rest) = .ok (header, rest) :=
    Header.read_eq_ok_iff.mpr ⟨form, h, rfl⟩
  have hread' : Header.read (form ++ rest) = .ok (other, rest') :=
    Header.read_eq_ok_iff.mpr ⟨form', h', heq⟩
  rw [hread] at hread'
  cases hread'
  exact ⟨rfl, List.append_cancel_right heq⟩

/-- **A stream that goes on holds further instructions.** -/
theorem Program.exists_append_of_encode {program longer : Program} {code more : Bytes}
    (h : program.encode = .ok code) (hlonger : longer.encode = .ok (code ++ more)) :
    ∃ rest, longer = program ++ rest ∧ (rest = [] → more = []) := by
  have hread := decode_of_encode hlonger
  rw [decode, decodeFrom_append h] at hread
  cases hmore : decodeFrom (0 + code.length) more with
  | error e =>
    rw [hmore] at hread
    cases hread
  | ok rest =>
    rw [hmore] at hread
    cases hread
    refine ⟨rest, rfl, ?_⟩
    rintro rfl
    have hcode := encodeFrom_of_decodeFrom hmore 0
    cases hcode
    rfl

namespace Image

/-- **What follows the mark is fixed by the header**: the length in front of it is its own, and behind it
stands the stream of as many instructions as it counts. -/
theorem Accepts.of_form {image : Image} {header : Header} {field form rest : Bytes}
    (h : Accepts image (mark ++ (field ++ (form ++ rest)))) (hfield : field.length = 4)
    (hform : header.Form form) :
    field = Bytes.ofNat32 form.length ∧ image.program.length = header.count
      ∧ image.program.encode = .ok rest := by
  generalize hbytes : mark ++ (field ++ (form ++ rest)) = bytes at h
  cases h with
  | bare hcode =>
    refine absurd ?_ (head?_ne_of_encode hcode)
    rw [← hbytes]
    rfl
  | @container program other form' code hform' _ _ hcount hcode =>
    simp only [List.append_assoc] at hbytes
    obtain ⟨rfl, hparts⟩ := List.append_inj (List.append_cancel_left hbytes) hfield
    obtain ⟨rfl, rfl⟩ := hform.append_inj hform' hparts
    obtain rfl := List.append_cancel_left hparts
    exact ⟨rfl, hcount, hcode⟩

/-- No longer image that is read starts with a container. -/
theorem Accepts.eq_nil_of_append {image longer : Image} {bytes more : Bytes}
    (h : Accepts image bytes) (hsymbols : image.symbols.isSome)
    (hlonger : Accepts longer (bytes ++ more)) : more = [] := by
  cases h with
  | bare _ => cases hsymbols
  | container hform _ _ hcount hcode =>
    simp only [List.append_assoc] at hlonger
    obtain ⟨-, hcount', hcode'⟩ := hlonger.of_form rfl hform
    obtain ⟨rest, hlongerProgram, hrest⟩ := Program.exists_append_of_encode hcode hcode'
    rw [hlongerProgram, List.length_append, hcount] at hcount'
    exact hrest (List.length_eq_zero_iff.mp (by omega))

/-- The length in front of the header of a container can be no other. -/
theorem Accepts.field_eq {image reframed : Image} {bytes field : Bytes} (h : Accepts image bytes)
    (hsymbols : image.symbols.isSome) (hfield : field.length = 4)
    (hreframed : Accepts reframed (bytes.take 4 ++ field ++ bytes.drop 8)) :
    field = (bytes.drop 4).take 4 := by
  cases h with
  | bare _ => cases hsymbols
  | @container program header form code hform _ _ _ _ =>
    simp only [List.append_assoc] at hreframed
    -- the mark and the length are eight bytes
    change Accepts reframed (mark ++ (field ++ (form ++ code))) at hreframed
    exact (hreframed.of_form hfield hform).1

/-- What is not read as any image is rejected. -/
theorem exists_error_of_not_accepts {bytes : Bytes} (h : ∀ image, ¬ Accepts image bytes) :
    ∃ error, ofBytes bytes = .error error := by
  cases hread : ofBytes bytes with
  | error error => exact ⟨error, rfl⟩
  | ok image => exact absurd (ofBytes_eq_ok_iff.mp hread) (h image)

/-- **Containers are framed without ambiguity.** A container that is cut off anywhere, that is extended, or
whose header is given another length, is rejected. -/
theorem ofBytes_framed {bytes : Bytes} {image : Image} (h : ofBytes bytes = .ok image)
    (hsymbols : image.symbols.isSome) :
    (∀ cut, cut <+: bytes → cut ≠ [] → cut ≠ bytes → ∃ error, ofBytes cut = .error error)
      ∧ (∀ more, more ≠ [] → ∃ error, ofBytes (bytes ++ more) = .error error)
      ∧ ∀ field, field.length = 4 → field ≠ (bytes.drop 4).take 4 →
          ∃ error, ofBytes (bytes.take 4 ++ field ++ bytes.drop 8) = .error error := by
  have haccepts := ofBytes_eq_ok_iff.mp h
  refine ⟨?_, ?_, ?_⟩
  · rintro cut ⟨more, rfl⟩ hnonempty hproper
    apply exists_error_of_not_accepts
    intro other hcut
    -- what is left starts like a container, so it would have to be one
    have hhead := haccepts.head?_eq_iff.mpr hsymbols
    obtain ⟨first, cut, rfl⟩ := List.exists_cons_of_ne_nil hnonempty
    rw [List.cons_append, List.head?_cons] at hhead
    have hmore := hcut.eq_nil_of_append (hcut.head?_eq_iff.mp hhead) haccepts
    exact hproper (by rw [hmore, List.append_nil])
  · intro more hmore
    apply exists_error_of_not_accepts
    intro longer hlonger
    exact hmore (haccepts.eq_nil_of_append hsymbols hlonger)
  · intro field hfield hne
    apply exists_error_of_not_accepts
    intro reframed hreframed
    exact hne (haccepts.field_eq hsymbols hfield hreframed)

/-- A header in which the version has a leading zero and the one name is repeated. -/
def paddedHeader : Bytes := [0x81, 0, 1, 2, 1, 120, 1, 120]

/-- The stream of a single instruction. -/
def paddedCode : Bytes := [9, 0, 0, 0, 0]

/-- A container that is read but is not the shortest one for its image. -/
def padded : Bytes := mark ++ [8, 0, 0, 0] ++ paddedHeader ++ paddedCode

/-- The image in `padded`. -/
def paddedImage : Image := ⟨[.ret 0], some ⟨["x"], by decide⟩⟩

theorem ofBytes_padded : ofBytes padded = .ok paddedImage := by
  have hread : Header.read paddedHeader = .ok (⟨1, 1, ["x", "x"]⟩, []) := rfl
  obtain ⟨form, hform, hheader⟩ := Header.read_eq_ok_iff.mp hread
  rw [List.append_nil] at hheader
  subst hheader
  exact ofBytes_eq_ok_iff.mpr (.container hform (by decide) rfl rfl rfl)

theorem ofBytes_framed_padded :
    ofBytes padded = .ok paddedImage ∧ paddedImage.symbols.isSome
      ∧ (∃ error, ofBytes (padded.take 3) = .error error)
      ∧ (∃ error, ofBytes (padded.take 16) = .error error)
      ∧ (∃ error, ofBytes (padded ++ paddedCode) = .error error)
      ∧ ∃ error, ofBytes (padded.take 4 ++ [4, 0, 0, 0] ++ padded.drop 8) = .error error := by
  obtain ⟨hcut, hextended, hreframed⟩ := ofBytes_framed ofBytes_padded rfl
  refine ⟨ofBytes_padded, rfl, ?_, ?_, ?_, ?_⟩
  · exact hcut _ (List.take_prefix 3 padded) (by decide) (by decide)
  · exact hcut _ (List.take_prefix 16 padded) (by decide) (by decide)
  · exact hextended paddedCode (by decide)
  · exact hreframed [4, 0, 0, 0] rfl (by decide)

end Image

end RegisterLang
