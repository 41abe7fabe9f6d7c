import RegisterLang.File.System
import RegisterLang.Proofs.Pipeline

/-!
# Builds on a disk

On every disk whose replacements are all or nothing, a build replaces the file at its output path as a
whole, or changes nothing. The file system in memory is such a disk.

* `Disk.Model`: what the computations of a disk do to its states, and what can be seen of a state.
* `Disk.Model.AllOrNothing`: what is assumed of a replacement.
* `FileSystem.follow_put`: a new file is in the way of no path that led somewhere before.
* `FileSystem.TakesFile`, `FileSystem.replace_eq_ok_iff`: when a file in memory can be replaced, and by what.
* `FileSystem.disk_allOrNothing`: replacements in memory are all or nothing.
* `Toolchain.assembleFile_cases`: what a build can do.
* `Toolchain.assembleFile_atomic`: what a build does to a disk, for every path and every source.
* `Toolchain.exists_assembleFile_ok_iff`: when a build in memory succeeds.
-/

namespace RegisterLang

/-! ## Disks -/

/-- A disk with its states: what its computations return and which state they leave, and what can be seen
of a state. A path leads to a place, and a place may hold a file or a directory. -/
structure Disk.Model (m : Type → Type) [Monad m] [Disk m] where
  State : Type
  Place : Type
  run : {α : Type} → m α → State → α × State
  run_pure : ∀ {α : Type} (a : α) (s : State), run (pure a) s = (a, s)
  run_bind : ∀ {α β : Type} (x : m α) (next : α → m β) (s : State),
    run (x >>= next) s = run (next (run x s).1) (run x s).2
  /-- Reading changes nothing. -/
  run_read : ∀ (path : String) (s : State), (run (Disk.read path) s).2 = s
  /-- The place that a path leads to, which may hold nothing. -/
  locate : State → String → Except FileFailure Place
  entry? : State → Place → Option Entry
  /-- The state with an entry at a place, in place of what is there. -/
  put : State → Place → Entry → State
  entry?_put : ∀ {s : State} {place other : Place} (entry : Entry), other ≠ place →
    entry? (put s place entry) other = entry? s other

namespace Disk.Model

variable {m : Type → Type} [Monad m] [Disk m] {disk : Disk.Model m}

/-- What is read at the end of a path. -/
def read (disk : Disk.Model m) (s : disk.State) (path : String) : Except FileFailure Bytes :=
  (disk.run (Disk.read path) s).1

/-- The second state is the first with a file of the given content at the place to which the path leads,
before and after. The file can be read there. -/
structure Replaced (disk : Disk.Model m) (s : disk.State) (path : String) (place : disk.Place)
    (content : Bytes) (s' : disk.State) : Prop where
  before : disk.locate s path = .ok place
  after : disk.locate s' path = .ok place
  entry : disk.entry? s' place = some (.file content)
  eq_put : s' = disk.put s place (.file content)
  read : disk.read s' path = .ok content

/-- **A replacement takes place completely, or fails and changes nothing.** -/
def AllOrNothing (disk : Disk.Model m) : Prop :=
  ∀ (s : disk.State) (path : String) (content : Bytes),
    (∃ failure, disk.run (Disk.replace path content) s = (.error failure, s))
      ∨ ∃ s' place, disk.run (Disk.replace path content) s = (.ok (), s')
        ∧ disk.Replaced s path place content s'

theorem Replaced.elsewhere {s s' : disk.State} {path : String} {place other : disk.Place} {content : Bytes}
    (h : disk.Replaced s path place content s') (hother : other ≠ place) :
    disk.entry? s' other = disk.entry? s other := by
  rw [h.eq_put, disk.entry?_put _ hother]

theorem run_read_eq (disk : Disk.Model m) (s : disk.State) (path : String) :
    disk.run (Disk.read path) s = (disk.read s path, s) :=
  Prod.ext rfl (disk.run_read path s)

end Disk.Model

/-! ## Paths -/

namespace Path

theorem partsOf_slash (rest : List Char) : partsOf ('/' :: rest) = "" :: partsOf rest := by
  rw [partsOf]

theorem partsOf_cons {c : Char} {rest : List Char} {part : String} {parts : List String} (hc : c ≠ '/')
    (h : partsOf rest = part :: parts) :
    partsOf (c :: rest) = (String.singleton c ++ part) :: parts := by
  simp [partsOf, h]

/-- The last part of a path is empty only if the path is, or ends in a slash. -/
theorem exists_partsOf (cs : List Char) :
    ∃ parts last, partsOf cs = parts ++ [last] ∧ (last = "" → cs = [] ∨ cs.getLast? = some '/') := by
  induction cs with
  | nil => exact ⟨[], "", rfl, fun _ => .inl rfl⟩
  | cons c rest ih =>
    obtain ⟨parts, last, hparts, hlast⟩ := ih
    by_cases hc : c = '/'
    · subst hc
      refine ⟨"" :: parts, last, by rw [partsOf_slash, hparts, List.cons_append], fun h => .inr ?_⟩
      rcases hlast h with rfl | hslash
      · rfl
      · rw [List.getLast?_cons, hslash, Option.getD_some]
    · cases parts with
      | nil =>
        refine ⟨[], String.singleton c ++ last, partsOf_cons hc hparts, fun h => ?_⟩
        simp at h
      | cons part parts =>
        refine ⟨(String.singleton c ++ part) :: parts, last, partsOf_cons hc hparts, fun h => .inr ?_⟩
        rcases hlast h with rfl | hslash
        · cases parts <;> cases hparts
        · rw [List.getLast?_cons, hslash, Option.getD_some]

/-- A path that does not end in a slash ends in a name, and its steps do too. -/
theorem exists_parts {path : String} (hcheck : check path = .ok ()) (hslash : endsInSlash path = false) :
    ∃ front name, name ≠ "" ∧ parts path = front ++ [name]
      ∧ steps path = front.filter (· ≠ "") ++ [name] := by
  obtain ⟨front, name, hparts, hlast⟩ := exists_partsOf path.toList
  have hname : name ≠ "" := by
    intro hempty
    rcases hlast hempty with hnil | hlast
    · rw [String.toList_eq_nil_iff.mp hnil] at hcheck
      cases hcheck
    · simp [endsInSlash, hlast] at hslash
  refine ⟨front, name, hname, hparts, ?_⟩
  rw [steps, parts, hparts, List.filter_append]
  simp [hname]

end Path

/-! ## Following paths -/

namespace FileSystem

variable {fs : FileSystem}

theorem lookup_filter_ne {entries : List (Location × Entry)} {location other : Location}
    (h : other ≠ location) :
    (entries.filter (·.1 ≠ location)).lookup other = entries.lookup other := by
  induction entries with
  | nil => rfl
  | cons head entries ih =>
    obtain ⟨place, entry⟩ := head
    by_cases hplace : place = location
    · subst hplace
      rw [List.filter_cons_of_neg (by simp), List.lookup_cons, beq_false_of_ne h]
      exact ih
    · rw [List.filter_cons_of_pos (by simpa using hplace), List.lookup_cons, List.lookup_cons, ih]

theorem entry?_put_self {location : Location} (h : location ≠ []) (entry : Entry) :
    FileSystem.entry? (fs.put location entry) location = some entry := by
  cases location with
  | nil => exact absurd rfl h
  | cons name names => simp [put, FileSystem.entry?]

theorem entry?_put_of_ne {location other : Location} (h : other ≠ location) (entry : Entry) :
    FileSystem.entry? (fs.put location entry) other = fs.entry? other := by
  cases other with
  | nil => rfl
  | cons name names =>
    have hother : (name :: names == location) = false := beq_false_of_ne h
    simp only [put, FileSystem.entry?, List.lookup_cons, hother]
    exact lookup_filter_ne h

/-- Where one part of a path leads from a directory. -/
def enter (location : Location) (part : String) : Except FileFailure Location :=
  if part = "" ∨ part = "." then .ok location
  else if part = ".." then .ok location.dropLast
  else do
    Path.checkName part
    .ok (location ++ [part])

/-- **A path is followed part by part**, each from a directory. -/
theorem follow_cons_eq_ok_iff {location final : Location} {part : String} {parts : List String} :
    fs.follow location (part :: parts) = .ok final ↔ fs.entry? location = some .directory
      ∧ ∃ next, enter location part = .ok next ∧ fs.follow next parts = .ok final := by
  rw [follow, enter]
  split
  · rename_i hentry
    simp [hentry]
  · rename_i hentry
    simp [hentry]
  · rename_i hentry
    split
    · simp [hentry]
    · split
      · simp [hentry]
      · cases Path.checkName part <;> simp [hentry, bind, Except.bind]

theorem follow_append_eq_ok_iff {location final : Location} {parts more : List String} :
    fs.follow location (parts ++ more) = .ok final
      ↔ ∃ middle, fs.follow location parts = .ok middle ∧ fs.follow middle more = .ok final := by
  induction parts generalizing location with
  | nil => simp [follow]
  | cons part parts ih =>
    simp only [List.cons_append, follow_cons_eq_ok_iff, ih]
    constructor
    · rintro ⟨hentry, next, hnext, middle, hmiddle, hfinal⟩
      exact ⟨middle, ⟨hentry, next, hnext, hmiddle⟩, hfinal⟩
    · rintro ⟨middle, ⟨hentry, next, hnext, hmiddle⟩, hfinal⟩
      exact ⟨hentry, next, hnext, middle, hmiddle, hfinal⟩

/-- Empty parts make no difference to a path that leads to a directory. -/
theorem follow_of_follow_filter {location final : Location} {parts : List String}
    (h : fs.follow location (parts.filter (· ≠ "")) = .ok final)
    (hfinal : fs.entry? final = some .directory) : fs.follow location parts = .ok final := by
  induction parts generalizing location with
  | nil => exact h
  | cons part parts ih =>
    by_cases hpart : part = ""
    · subst hpart
      rw [List.filter_cons_of_neg (by simp)] at h
      have hrest := ih h
      refine follow_cons_eq_ok_iff.mpr ⟨?_, location, if_pos (.inl rfl), hrest⟩
      cases parts with
      | nil =>
        cases hrest
        exact hfinal
      | cons => exact (follow_cons_eq_ok_iff.mp hrest).1
    · rw [List.filter_cons_of_pos (by simpa using hpart)] at h
      obtain ⟨hentry, next, hnext, h⟩ := follow_cons_eq_ok_iff.mp h
      exact follow_cons_eq_ok_iff.mpr ⟨hentry, next, hnext, ih h⟩

/-- **A new entry is in the way of no path that led somewhere before**, if it takes the place of no
directory. -/
theorem follow_put {location final target : Location} {parts : List String}
    (h : fs.follow location parts = .ok final) (htarget : fs.entry? target ≠ some .directory)
    (entry : Entry) : (fs.put target entry).follow location parts = .ok final := by
  induction parts generalizing location with
  | nil => exact h
  | cons part parts ih =>
    obtain ⟨hentry, next, hnext, h⟩ := follow_cons_eq_ok_iff.mp h
    refine follow_cons_eq_ok_iff.mpr ⟨?_, next, hnext, ih h⟩
    rw [entry?_put_of_ne]
    · exact hentry
    · rintro rfl
      exact htarget hentry

/-! ## Replacing files -/

/-- A file can stand at the end of the path: the path ends in the name, the steps before it lead to a
directory, and in this directory the name is not that of a directory. -/
structure TakesFile (fs : FileSystem) (path : String) (parent : Location) (name : String) : Prop where
  check : Path.check path = .ok ()
  follow : fs.follow (fs.origin path) (Path.steps path).dropLast = .ok parent
  directory : fs.entry? parent = some .directory
  last : (Path.steps path).getLast? = some name
  ne_dot : name ≠ "."
  ne_dots : name ≠ ".."
  checkName : Path.checkName name = .ok ()
  endsInSlash : Path.endsInSlash path = false
  free : fs.entry? (parent ++ [name]) ≠ some .directory

/-- **A file is replaced exactly if one can stand there**, whatever its content. -/
theorem replace_eq_ok_iff {fs' : FileSystem} {path : String} {content : Bytes} :
    fs.replace path content = .ok fs' ↔ ∃ parent name, fs.TakesFile path parent name
      ∧ fs' = fs.put (parent ++ [name]) (.file content) := by
  constructor
  · intro h
    obtain ⟨⟨⟩, hcheck, h⟩ := bind_eq_ok_iff.mp h
    obtain ⟨parent, hfollow, h⟩ := bind_eq_ok_iff.mp h
    split at h
    case h_1 | h_2 | h_3 => cases h
    rename_i name hdirectory hlast
    split at h
    · cases h
    · rename_i hdots
      obtain ⟨⟨⟩, hname, h⟩ := bind_eq_ok_iff.mp h
      split at h
      · cases h
      · rename_i hslash
        split at h
        · cases h
        · rename_i hfree
          cases h
          exact ⟨parent, name, ⟨hcheck, hfollow, hdirectory, hlast, fun h => hdots (.inl h),
            fun h => hdots (.inr h), hname, eq_false_of_ne_true hslash, hfree⟩, rfl⟩
  · rintro ⟨parent, name, h, rfl⟩
    refine bind_eq_ok_iff.mpr ⟨(), h.check, bind_eq_ok_iff.mpr ⟨parent, h.follow, ?_⟩⟩
    simp only [h.directory, h.last, h.ne_dot, h.ne_dots, or_self, if_false]
    refine bind_eq_ok_iff.mpr ⟨(), h.checkName, ?_⟩
    rw [if_neg (ne_true_of_eq_false h.endsInSlash)]
    split
    · exact absurd ‹_› h.free
    · rfl

/-- A path that can end in a file leads to the place for it, whether there is a file or not. -/
theorem TakesFile.locate {path : String} {parent : Location} {name : String}
    (h : fs.TakesFile path parent name) : fs.locate path = .ok (parent ++ [name]) := by
  obtain ⟨front, last, hlast, hparts, hsteps⟩ := Path.exists_parts h.check h.endsInSlash
  have hname : last = name := by simpa [hsteps] using h.last
  subst hname
  have hfront : fs.follow (fs.origin path) (front.filter (· ≠ "")) = .ok parent := by
    simpa [hsteps] using h.follow
  have henter : enter parent last = .ok (parent ++ [last]) := by
    simp [enter, hlast, h.ne_dot, h.ne_dots, h.checkName, bind, Except.bind]
  refine bind_eq_ok_iff.mpr ⟨(), h.check, ?_⟩
  rw [hparts, follow_append_eq_ok_iff]
  refine ⟨parent, follow_of_follow_filter hfront h.directory, ?_⟩
  exact follow_cons_eq_ok_iff.mpr ⟨h.directory, _, henter, rfl⟩

/-- The file system in memory as a disk. -/
def disk : Disk.Model (StateM FileSystem) where
  State := FileSystem
  Place := Location
  run x fs := x.run fs
  run_pure _ _ := rfl
  run_bind _ _ _ := rfl
  run_read _ _ := rfl
  locate := locate
  entry? := FileSystem.entry?
  put := put
  entry?_put entry hother := entry?_put_of_ne hother entry

theorem read_of_entry? {path : String} {location : Location} {content : Bytes}
    (hlocate : fs.locate path = .ok location) (hentry : fs.entry? location = some (.file content)) :
    fs.read path = .ok content := by
  refine bind_eq_ok_iff.mpr ⟨location, hlocate, ?_⟩
  rw [hentry]

theorem run_replace_cases (fs : FileSystem) (path : String) (content : Bytes) :
    (∃ failure, fs.replace path content = .error failure
      ∧ disk.run (Disk.replace path content) fs = (.error failure, fs))
    ∨ ∃ fs', fs.replace path content = .ok fs' ∧ disk.run (Disk.replace path content) fs = (.ok (), fs') := by
  cases hreplace : fs.replace path content with
  | error failure => exact .inl ⟨failure, rfl, by simp only [disk, Disk.replace, StateT.run, hreplace]⟩
  | ok fs' => exact .inr ⟨fs', rfl, by simp only [disk, Disk.replace, StateT.run, hreplace]⟩

theorem run_replace_eq_ok_iff {path : String} {content : Bytes} {fs' : FileSystem} :
    disk.run (Disk.replace path content) fs = (.ok (), fs') ↔ fs.replace path content = .ok fs' := by
  rcases run_replace_cases fs path content with ⟨failure, hreplace, hrun⟩ | ⟨fs'', hreplace, hrun⟩
  · rw [hreplace, hrun]
    constructor <;> (intro h; cases h)
  · rw [hreplace, hrun]
    constructor
    · intro h
      cases h
      rfl
    · intro h
      cases h
      rfl

/-- **Replacements in memory are all or nothing.** -/
theorem disk_allOrNothing : disk.AllOrNothing := by
  intro fs path content
  rcases run_replace_cases fs path content with ⟨failure, -, hrun⟩ | ⟨fs', hreplace, hrun⟩
  · exact .inl ⟨failure, hrun⟩
  · obtain ⟨parent, name, hplace, rfl⟩ := replace_eq_ok_iff.mp hreplace
    have hlocate := hplace.locate
    obtain ⟨⟨⟩, hcheck, hfollow⟩ := bind_eq_ok_iff.mp hlocate
    have hafter : (fs.put (parent ++ [name]) (.file content)).locate path = .ok (parent ++ [name]) :=
      bind_eq_ok_iff.mpr ⟨(), hcheck, follow_put hfollow hplace.free _⟩
    have hentry : FileSystem.entry? (fs.put (parent ++ [name]) (.file content)) (parent ++ [name])
        = some (.file content) := entry?_put_self (by simp) _
    exact .inr ⟨_, parent ++ [name], hrun, hlocate, hafter, hentry, rfl, read_of_entry? hafter hentry⟩

end FileSystem

/-! ## Builds -/

namespace Toolchain

variable {m : Type → Type} [Monad m] [Disk m] {disk : Disk.Model m} {s s' : disk.State}
  {source output : String} {raw : Bool}

/-- What a build is about to write: the code unit of its source file and the bytes of the image. -/
def imageOf (disk : Disk.Model m) (s : disk.State) (source : String) (raw : Bool) :
    Except Error (CodeUnit × Bytes) := do
  let text ← (disk.read s source).mapError (.read source) >>= decodeSource source
  assembleUnit text raw

theorem decodeSource_eq_ok_iff {content : Bytes} {text : String} :
    decodeSource source content = .ok text ↔ Text.ofUtf8? content = some text := by
  unfold decodeSource
  cases Text.ofUtf8? content <;> simp

theorem imageOf_eq_ok_iff {unit : CodeUnit} {bytes : Bytes} :
    imageOf disk s source raw = .ok (unit, bytes) ↔ ∃ content text, disk.read s source = .ok content
      ∧ Text.ofUtf8? content = some text ∧ compile text = .ok unit
      ∧ write (unit.image raw) = .ok bytes := by
  constructor
  · intro h
    obtain ⟨text, htext, h⟩ := bind_eq_ok_iff.mp h
    obtain ⟨content, hread, htext⟩ := bind_eq_ok_iff.mp htext
    obtain ⟨unit, hunit, h⟩ := bind_eq_ok_iff.mp h
    obtain ⟨bytes, hbytes, h⟩ := bind_eq_ok_iff.mp h
    cases h
    exact ⟨content, text, mapError_eq_ok_iff.mp hread, decodeSource_eq_ok_iff.mp htext, hunit, hbytes⟩
  · rintro ⟨content, text, hread, htext, hunit, hbytes⟩
    have hsource : (disk.read s source).mapError (.read source) >>= decodeSource source = .ok text :=
      bind_eq_ok_iff.mpr ⟨content, mapError_eq_ok_iff.mpr hread, decodeSource_eq_ok_iff.mpr htext⟩
    refine bind_eq_ok_iff.mpr ⟨text, hsource, ?_⟩
    exact bind_eq_ok_iff.mpr ⟨unit, hunit, bind_eq_ok_iff.mpr ⟨bytes, hbytes, rfl⟩⟩

theorem run_readFile (disk : Disk.Model m) (s : disk.State) (path : String) :
    disk.run (readFile path) s = ((disk.read s path).mapError (.read path), s) := by
  rw [readFile, disk.run_bind, disk.run_read_eq, disk.run_pure]

theorem run_readSource (disk : Disk.Model m) (s : disk.State) (source : String) :
    disk.run (readSource source) s
      = ((disk.read s source).mapError (.read source) >>= decodeSource source, s) := by
  rw [readSource, disk.run_bind, run_readFile, disk.run_pure]
  rfl

/-- **A build writes last.** It fails without an image, and with an image it does nothing but replace the
output. -/
theorem assembleFile_cases (disk : Disk.Model m) (s : disk.State) (source output : String) (raw : Bool) :
    (∃ error, imageOf disk s source raw = .error error
      ∧ disk.run (assembleFile source output raw) s = (.error error, s))
    ∨ ∃ unit bytes, imageOf disk s source raw = .ok (unit, bytes)
      ∧ ((∃ failure s', disk.run (Disk.replace output bytes) s = (.error failure, s')
          ∧ disk.run (assembleFile source output raw) s = (.error (.write output failure), s'))
        ∨ ∃ s', disk.run (Disk.replace output bytes) s = (.ok (), s')
          ∧ disk.run (assembleFile source output raw) s
            = (.ok ⟨output, unit.program.length, bytes.length⟩, s')) := by
  have himage : imageOf disk s source raw
      = ((disk.read s source).mapError (.read source) >>= decodeSource source).bind (assembleUnit · raw) :=
    rfl
  rw [assembleFile, disk.run_bind, run_readSource, ← himage]
  cases imageOf disk s source raw with
  | error error => exact .inl ⟨error, rfl, disk.run_pure _ _⟩
  | ok image =>
    obtain ⟨unit, bytes⟩ := image
    refine .inr ⟨unit, bytes, rfl, ?_⟩
    simp only [disk.run_bind]
    generalize disk.run (Disk.replace output bytes) s = replaced
    obtain ⟨answer, s'⟩ := replaced
    cases answer with
    | error failure => exact .inl ⟨failure, s', rfl, disk.run_pure _ _⟩
    | ok done => exact .inr ⟨s', rfl, disk.run_pure _ _⟩

/-- A build that fails leaves the disk alone, wherever it stops. -/
theorem eq_of_assembleFile_error (hdisk : disk.AllOrNothing) {error : Error}
    (h : disk.run (assembleFile source output raw) s = (.error error, s')) : s' = s := by
  rcases assembleFile_cases disk s source output raw
    with ⟨_, -, hrun⟩ | ⟨_, bytes, -, ⟨_, _, hreplace, hrun⟩ | ⟨_, -, hrun⟩⟩
  all_goals
    rw [hrun] at h
    cases h
  · rfl
  · rcases hdisk s output bytes with ⟨_, hfailed⟩ | ⟨_, _, hdone, -⟩
    · rw [hfailed] at hreplace
      cases hreplace
      rfl
    · rw [hdone] at hreplace
      cases hreplace

theorem assembleFile_eq_ok_iff {summary : Summary} :
    disk.run (assembleFile source output raw) s = (.ok summary, s') ↔
      ∃ unit bytes, imageOf disk s source raw = .ok (unit, bytes)
        ∧ disk.run (Disk.replace output bytes) s = (.ok (), s')
        ∧ summary = ⟨output, unit.program.length, bytes.length⟩ := by
  constructor
  · intro h
    rcases assembleFile_cases disk s source output raw
      with ⟨_, -, hrun⟩ | ⟨unit, bytes, himage, ⟨_, _, -, hrun⟩ | ⟨_, hreplace, hrun⟩⟩
    all_goals
      rw [hrun] at h
      cases h
    exact ⟨unit, bytes, himage, hreplace, rfl⟩
  · rintro ⟨unit, bytes, himage, hreplace, rfl⟩
    rcases assembleFile_cases disk s source output raw
      with ⟨_, himage', -⟩ | ⟨_, _, himage', ⟨_, _, hreplace', -⟩ | ⟨_, hreplace', hrun⟩⟩
    all_goals cases himage.symm.trans himage'
    · cases hreplace.symm.trans hreplace'
    · cases hreplace.symm.trans hreplace'
      exact hrun

/-- A file that holds a written image is loaded as that image. -/
theorem run_load {path : String} {image : Image} {bytes : Bytes} (hread : disk.read s path = .ok bytes)
    (hbytes : write image = .ok bytes) : disk.run (load path) s = (.ok image, s) := by
  rw [load, disk.run_bind, run_readFile, disk.run_pure, hread, ← read_of_write hbytes]
  rfl

/-- **A build replaces its output as a whole, or changes nothing**, on every disk whose replacements are all
or nothing. If it fails, for whatever reason, the disk is what it was. If it succeeds, the one difference is
that the output path leads to a file with the image of the text that the source path led to, and no other
place holds anything else than before; the summary counts the instructions and bytes of the image, and it is
loaded as the program that was compiled. It succeeds exactly if there is such an image and the disk replaces
the output by it. The two paths may be the same, and the output may be there already. -/
theorem assembleFile_atomic (hdisk : disk.AllOrNothing) {result : Except Error Summary}
    (h : disk.run (assembleFile source output raw) s = (result, s')) :
    (∀ error, result = .error error → s' = s)
    ∧ (∀ summary, result = .ok summary → ∃ content text unit bytes place,
        disk.read s source = .ok content ∧ Text.ofUtf8? content = some text ∧ compile text = .ok unit
          ∧ assemble text raw = .ok bytes ∧ disk.Replaced s output place bytes s'
          ∧ (∀ other, other ≠ place → disk.entry? s' other = disk.entry? s other)
          ∧ summary = ⟨output, unit.program.length, bytes.length⟩
          ∧ disk.run (load output) s' = (.ok (unit.image raw), s'))
    ∧ ((∃ summary, result = .ok summary) ↔
        ∃ content text bytes, disk.read s source = .ok content ∧ Text.ofUtf8? content = some text
          ∧ assemble text raw = .ok bytes ∧ (disk.run (Disk.replace output bytes) s).1 = .ok ()) := by
  refine ⟨?_, ?_, ?_, ?_⟩
  · rintro error rfl
    exact eq_of_assembleFile_error hdisk h
  · rintro summary rfl
    obtain ⟨unit, bytes, himage, hreplace, hsummary⟩ := assembleFile_eq_ok_iff.mp h
    obtain ⟨content, text, hread, htext, hunit, hbytes⟩ := imageOf_eq_ok_iff.mp himage
    rcases hdisk s output bytes with ⟨_, hfailed⟩ | ⟨_, place, hdone, hreplaced⟩
    · cases hreplace.symm.trans hfailed
    · cases hreplace.symm.trans hdone
      exact ⟨content, text, unit, bytes, place, hread, htext, hunit,
        bind_eq_ok_iff.mpr ⟨unit, hunit, hbytes⟩, hreplaced, fun _ => hreplaced.elsewhere, hsummary,
        run_load hreplaced.read hbytes⟩
  · rintro ⟨summary, rfl⟩
    obtain ⟨unit, bytes, himage, hreplace, -⟩ := assembleFile_eq_ok_iff.mp h
    obtain ⟨content, text, hread, htext, hunit, hbytes⟩ := imageOf_eq_ok_iff.mp himage
    exact ⟨content, text, bytes, hread, htext, bind_eq_ok_iff.mpr ⟨unit, hunit, hbytes⟩, by rw [hreplace]⟩
  · rintro ⟨content, text, bytes, hread, htext, hassemble, hreplace⟩
    obtain ⟨unit, hunit, hbytes⟩ := bind_eq_ok_iff.mp hassemble
    have himage := imageOf_eq_ok_iff.mpr ⟨content, text, hread, htext, hunit, hbytes⟩
    rw [assembleFile_eq_ok_iff.mpr ⟨unit, bytes, himage, Prod.ext hreplace rfl, rfl⟩] at h
    cases h
    exact ⟨_, rfl⟩

/-- In memory a build succeeds exactly if there is an image and the output path takes a file. -/
theorem exists_assembleFile_ok_iff {fs : FileSystem} :
    (∃ summary fs', (assembleFile (m := StateM FileSystem) source output raw).run fs = (.ok summary, fs')) ↔
      (∃ content text bytes, fs.read source = .ok content ∧ Text.ofUtf8? content = some text
        ∧ assemble text raw = .ok bytes)
      ∧ ∃ parent name, fs.TakesFile output parent name := by
  constructor
  · rintro ⟨summary, fs', h⟩
    have hok : FileSystem.disk.run (assembleFile source output raw) fs = (.ok summary, fs') := h
    obtain ⟨unit, bytes, himage, hrun, -⟩ := assembleFile_eq_ok_iff.mp hok
    obtain ⟨content, text, hread, htext, hunit, hbytes⟩ := imageOf_eq_ok_iff.mp himage
    have hreplace := FileSystem.run_replace_eq_ok_iff.mp hrun
    obtain ⟨parent, name, htakes, -⟩ := FileSystem.replace_eq_ok_iff.mp hreplace
    have hassemble : assemble text raw = .ok bytes := bind_eq_ok_iff.mpr ⟨unit, hunit, hbytes⟩
    exact ⟨⟨content, text, bytes, hread, htext, hassemble⟩, parent, name, htakes⟩
  · rintro ⟨⟨content, text, bytes, hread, htext, hassemble⟩, parent, name, htakes⟩
    obtain ⟨unit, hunit, hbytes⟩ := bind_eq_ok_iff.mp hassemble
    have himage : imageOf FileSystem.disk fs source raw = .ok (unit, bytes) :=
      imageOf_eq_ok_iff.mpr ⟨content, text, hread, htext, hunit, hbytes⟩
    have hreplace : fs.replace output bytes = .ok (fs.put (parent ++ [name]) (.file bytes)) :=
      FileSystem.replace_eq_ok_iff.mpr ⟨parent, name, htakes, rfl⟩
    have hrun := FileSystem.run_replace_eq_ok_iff.mpr hreplace
    exact ⟨_, _, assembleFile_eq_ok_iff.mpr ⟨unit, bytes, himage, hrun, rfl⟩⟩

/-- A working directory with one source file. -/
def bench : FileSystem :=
  ⟨[(["work"], .directory), (["work", "a"], .file (Text.utf8 "return x"))], ["work"]⟩

theorem assemble_return : assemble "return x" true = .ok [9, 0, 0, 0, 0] := by
  have htext : (Lexeme.give "x").text = "return x" := by decide
  have hcompile : compile (Lexeme.give "x").text = .ok (CodeUnit.giving "x") :=
    compile_give (by decide) (by decide)
  rw [htext] at hcompile
  exact bind_eq_ok_iff.mpr ⟨_, hcompile, rfl⟩

/-- The source is replaced by its own image; where no directory is, nothing is written. -/
theorem assembleFile_atomic_inPlace :
    FileSystem.disk.AllOrNothing
      ∧ (∃ summary fs',
        (assembleFile (m := StateM FileSystem) "a" ".//a" true).run bench = (.ok summary, fs')
          ∧ summary.size = 5 ∧ fs'.read ".//a" = .ok [9, 0, 0, 0, 0])
      ∧ ∃ error,
        (assembleFile (m := StateM FileSystem) "a" "b/a" true).run bench = (.error error, bench) := by
  have hread : FileSystem.disk.read bench "a" = .ok (Text.utf8 "return x") := rfl
  have htext := Text.ofUtf8?_utf8 "return x"
  refine ⟨FileSystem.disk_allOrNothing, ?_, ?_⟩
  · obtain ⟨-, hok, hiff⟩ := assembleFile_atomic FileSystem.disk_allOrNothing
      (Prod.eta (FileSystem.disk.run (assembleFile "a" ".//a" true) bench)).symm
    obtain ⟨summary, hsummary⟩ := hiff.mpr ⟨_, _, _, hread, htext, assemble_return, rfl⟩
    obtain ⟨content, text, unit, bytes, place, hread', htext', -, hbytes, hreplaced, -, rfl, -⟩ :=
      hok summary hsummary
    cases hread.symm.trans hread'
    cases htext.symm.trans htext'
    cases assemble_return.symm.trans hbytes
    exact ⟨_, _, Prod.ext hsummary rfl, rfl, hreplaced.read⟩
  · obtain ⟨herror, -, hiff⟩ := assembleFile_atomic FileSystem.disk_allOrNothing
      (Prod.eta (FileSystem.disk.run (assembleFile "a" "b/a" true) bench)).symm
    cases hresult : (FileSystem.disk.run (assembleFile "a" "b/a" true) bench).1 with
    | error error => exact ⟨error, Prod.ext hresult (herror error hresult)⟩
    | ok summary =>
      obtain ⟨_, _, bytes, -, -, -, hreplace⟩ := hiff.mp ⟨summary, hresult⟩
      have hfails : (FileSystem.disk.run (Disk.replace "b/a" bytes) bench).1 = .error .notFound := rfl
      cases hreplace.symm.trans hfails

end Toolchain

end RegisterLang
