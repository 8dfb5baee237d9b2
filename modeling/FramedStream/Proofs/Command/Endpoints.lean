import FramedStream.Command.Endpoint

/-!
# What the paths of a command name

A path is resolved through directories and links, and a file is put where no directory stands. So
what a path leads through is not changed by making files:

* `Disk.walk_put`, `Disk.Names.put`: what could be reached or made can still be, at the same place;
* `Disk.lookup_put`: a path at which a file was made finds that file.

The input and the output of a command are each a file or a standard stream (`Input.ofName_eq_ok`,
`Target.create_eq_ok`). `held` is what an input holds, and `SameFile` says that an input and an
output are one file, be it under two names. What was delivered to an output is found under the same
name (`ofName_deliver`).
-/

namespace FramedStream

namespace Disk

variable {d : Disk} {start parent location place : Location} {name path : String}
  {steps : List String} {contents : Bytes}

theorem entryAt_nil (d : Disk) : d.entryAt [] = some .directory := rfl

/-- Where a file may be put, it is found afterwards. -/
theorem entryAt_put_self (hfree : d.entryAt location ≠ some .directory) (contents : Bytes) :
    (d.put location contents).entryAt location = some (.file contents) := by
  have hne : location ≠ [] := by
    rintro rfl
    exact hfree (entryAt_nil d)
  rw [entryAt, if_neg (by simpa using hne), entry_put_self]

/-- Directories stay when a file is put where there is none of them. -/
theorem directory_put (hfree : d.entryAt location ≠ some .directory)
    (h : d.entryAt place = some .directory) :
    (d.put location contents).entryAt place = some .directory := by
  have hne : place ≠ location := fun heq => hfree (heq ▸ h)
  unfold entryAt at h ⊢
  split
  · rfl
  · next hroot =>
    rw [if_neg hroot] at h
    rw [entry_put_of_ne d contents hne, h]

/-! ### Steps -/

/-- A step starts from a directory. -/
theorem step_eq_ok : d.step start name = .ok place ↔
    d.entryAt start = some .directory ∧ ¬maxName < name.utf8ByteSize ∧
      d.target start name = .ok place := by
  unfold step
  split
  · next h => simp [h]
  · next h => simp [h]
  · next h =>
    split
    · next hlong => simp [hlong]
    · next hlong => simp [h, hlong]

theorem enter_eq_ok : d.enter start name = .ok place ↔
    d.step start name = .ok place ∧ (d.entryAt place).isSome := by
  unfold enter
  cases d.step start name with
  | error f => simp
  | ok there =>
    by_cases hnone : (d.entryAt there).isNone
    · simp only [if_pos hnone, reduceCtorEq, false_iff, Except.ok.injEq, not_and]
      rintro rfl
      simpa using hnone
    · simp only [if_neg hnone, Except.ok.injEq, iff_self_and]
      rintro rfl
      simpa [Option.isSome_iff_ne_none] using hnone

theorem walk_cons : d.walk start (name :: steps) = .ok place ↔
    ∃ there, d.enter start name = .ok there ∧ d.walk there steps = .ok place := by
  rw [walk, List.foldlM_cons]
  cases d.enter start name with
  | error f => exact ⟨nofun, nofun⟩
  | ok there =>
    constructor
    · exact fun h => ⟨there, rfl, h⟩
    · rintro ⟨_, ⟨⟩, h⟩
      exact h

theorem walk_concat : d.walk start (steps ++ [name]) = .ok place ↔
    ∃ there, d.walk start steps = .ok there ∧ d.enter there name = .ok place := by
  induction steps generalizing start with
  | nil =>
    rw [List.nil_append, walk_cons]
    constructor
    · rintro ⟨there, henter, ⟨⟩⟩
      exact ⟨start, rfl, henter⟩
    · rintro ⟨_, ⟨⟩, henter⟩
      exact ⟨place, henter, rfl⟩
  | cons first steps ih =>
    rw [List.cons_append, walk_cons]
    constructor
    · rintro ⟨there, henter, hwalk⟩
      obtain ⟨before, hbefore, hlast⟩ := ih.1 hwalk
      exact ⟨before, walk_cons.2 ⟨there, henter, hbefore⟩, hlast⟩
    · rintro ⟨before, hbefore, hlast⟩
      obtain ⟨there, henter, hwalk⟩ := walk_cons.1 hbefore
      exact ⟨there, henter, ih.2 ⟨before, hwalk, hlast⟩⟩

/-- A walk to a directory goes from one directory to the next, so a new file is not in its way. -/
theorem walk_put (hfree : d.entryAt location ≠ some .directory)
    (hwalk : d.walk start steps = .ok parent) (hparent : d.entryAt parent = some .directory) :
    (d.put location contents).walk start steps = .ok parent := by
  induction steps generalizing start with
  | nil => exact hwalk
  | cons name steps ih =>
    obtain ⟨there, henter, hrest⟩ := walk_cons.1 hwalk
    obtain ⟨hstep, -⟩ := enter_eq_ok.1 henter
    obtain ⟨hstart, hshort, hthere⟩ := step_eq_ok.1 hstep
    -- what is entered on the way is a directory, either as the last one or because of the next step
    have hdirectory : d.entryAt there = some .directory := by
      cases steps with
      | nil =>
        cases hrest
        exact hparent
      | cons next steps =>
        obtain ⟨_, hnext, -⟩ := walk_cons.1 hrest
        exact (step_eq_ok.1 (enter_eq_ok.1 hnext).1).1
    refine walk_cons.2 ⟨there, enter_eq_ok.2 ⟨?_, ?_⟩, ih hrest⟩
    · exact step_eq_ok.2 ⟨directory_put hfree hstart, hshort, hthere⟩
    · rw [directory_put hfree hdirectory]
      rfl

/-! ### Files -/

/-- The place of a file is one step from a directory, and no directory stands there. -/
structure Names (d : Disk) (path : String) (steps : List String) (name : String)
    (parent location : Location) : Prop where
  sound : refuse? path = none
  spelled : stepsOf path = steps ++ [name]
  walk : d.walk (d.startOf path) steps = .ok parent
  noDot : isDot name = false
  noSlash : endsInSlash path = false
  step : d.step parent name = .ok location
  free : d.entryAt location ≠ some .directory

theorem names_of_fileAt (h : d.fileAt path = .ok location) :
    ∃ steps name parent, d.Names path steps name parent location := by
  unfold fileAt at h
  split at h
  · cases h
  next hsound =>
  split at h
  · cases h
  next name hlast =>
  split at h
  · cases h
  next parent hwalk =>
  split at h
  · cases h
  · cases h
  split at h
  · cases h
  next hplain =>
  split at h
  · cases h
  next hstep =>
  split at h
  · cases h
  next hfree =>
  cases h
  obtain ⟨hdot, hslash⟩ : isDot name = false ∧ endsInSlash path = false := by simpa using hplain
  obtain ⟨steps, hsteps⟩ := List.getLast?_eq_some_iff.1 hlast
  rw [hsteps, List.dropLast_concat] at hwalk
  exact ⟨steps, name, parent, hsound, hsteps, hwalk, hdot, hslash, hstep,
    hfree⟩

theorem Names.parent_directory {parent : Location} (h : d.Names path steps name parent location) :
    d.entryAt parent = some .directory :=
  (step_eq_ok.1 h.step).1

/-- A new file is not in the way to another one, nor to itself. -/
theorem Names.put {parent : Location} (h : d.Names path steps name parent place)
    (hfree : d.entryAt location ≠ some .directory) (contents : Bytes) :
    (d.put location contents).Names path steps name parent place where
  sound := h.sound
  spelled := h.spelled
  walk := walk_put hfree h.walk h.parent_directory
  noDot := h.noDot
  noSlash := h.noSlash
  step := by
    obtain ⟨hparent, hshort, hplace⟩ := step_eq_ok.1 h.step
    exact step_eq_ok.2 ⟨directory_put hfree hparent, hshort, hplace⟩
  free := by
    by_cases hsame : place = location
    · rw [hsame, entryAt_put_self hfree]
      simp
    · have hfree' := h.free
      unfold entryAt at hfree' ⊢
      split
      · next hroot => exact absurd (if_pos hroot) hfree'
      · next hroot =>
        rw [if_neg hroot] at hfree'
        rwa [entry_put_of_ne d contents hsame]

/-- A path at which a file was made finds that file. -/
theorem lookup_put (h : d.fileAt path = .ok location) (contents : Bytes) :
    (d.put location contents).lookup path = .ok (location, .file contents) := by
  obtain ⟨steps, name, parent, hnames⟩ := names_of_fileAt h
  have hentry := entryAt_put_self hnames.free contents
  have hthere := hnames.put hnames.free contents
  have hwalk : (d.put location contents).walk ((d.put location contents).startOf path)
      (stepsOf path) = .ok location := by
    rw [hthere.spelled]
    exact walk_concat.2 ⟨parent, hthere.walk, enter_eq_ok.2 ⟨hthere.step, by rw [hentry]; rfl⟩⟩
  simp only [lookup, hthere.sound, hwalk, hentry, hthere.noSlash, Bool.false_eq_true, if_false]

/-- What a path is found to name stands at its place. -/
theorem entryAt_lookup {entry : Entry} (h : d.lookup path = .ok (location, entry)) :
    d.entryAt location = some entry := by
  unfold lookup at h
  split at h
  · cases h
  split at h
  · cases h
  split at h
  · cases h
  · next hentry =>
    cases h
    exact hentry
  · next hentry =>
    split at h
    · cases h
    · cases h
      exact hentry

end Disk

namespace Command

variable {disk disk' : Disk} {stdin : Bytes} {path input output : String} {source : Input}
  {target : Target}

/-- What is read from an entry. -/
def contentsOf : Entry → Except PathFailure Bytes
  | .file contents => .ok contents
  | .directory => .error .isDirectory

theorem not_isStandard (hname : path ≠ "-") : ¬isStandard path = true := by
  simpa [isStandard] using hname

/-- An input is the standard input, or something that is found on the disk. -/
theorem Input.ofName_eq_ok : Input.ofName disk stdin path = .ok source ↔
    path = "-" ∧ source = ⟨none, .ok stdin⟩ ∨
      path ≠ "-" ∧ ∃ location entry, disk.lookup path = .ok (location, entry) ∧
        source = ⟨some location, contentsOf entry⟩ := by
  unfold Input.ofName
  by_cases hname : path = "-"
  · simp [isStandard, hname, eq_comm]
  · have hopened : Input.ofPath disk path =
        (disk.lookup path).map fun found => ⟨some found.1, contentsOf found.2⟩ := rfl
    rw [if_neg (not_isStandard hname), hopened]
    rcases disk.lookup path with f | ⟨location, entry⟩
    · simp [hname, Except.map]
    · simp only [Except.map, Except.ok.injEq, Prod.mk.injEq]
      constructor
      · rintro rfl
        exact .inr ⟨hname, location, entry, ⟨rfl, rfl⟩, rfl⟩
      · rintro (⟨hstandard, -⟩ | ⟨-, _, _, ⟨rfl, rfl⟩, rfl⟩)
        · exact absurd hstandard hname
        · rfl

/-- An output is the standard output, or a file that is made or emptied. -/
theorem Target.create_eq_ok : Target.create disk path = .ok (target, disk') ↔
    path = "-" ∧ target = ⟨none⟩ ∧ disk' = disk ∨
      path ≠ "-" ∧ ∃ location, disk.fileAt path = .ok location ∧ target = ⟨some location⟩ ∧
        disk' = disk.put location [] := by
  unfold Target.create
  by_cases hname : path = "-"
  · simp [isStandard, hname, eq_comm]
  · rw [if_neg (not_isStandard hname), Disk.create]
    cases disk.fileAt path with
    | error f => simp [hname, Except.map]
    | ok location => simp [hname, Except.map, eq_comm]

theorem input_ofName {location : Location} {contents : Bytes} (hname : path ≠ "-")
    (hfile : disk.lookup path = .ok (location, .file contents)) :
    Input.ofName disk stdin path = .ok ⟨some location, .ok contents⟩ :=
  Input.ofName_eq_ok.2 (.inr ⟨hname, location, .file contents, hfile, rfl⟩)

theorem target_create {location : Location} (hname : path ≠ "-")
    (hfile : disk.fileAt path = .ok location) :
    Target.create disk path = .ok (⟨some location⟩, disk.put location []) :=
  Target.create_eq_ok.2 (.inr ⟨hname, location, hfile, rfl, rfl⟩)

/-- An output can be made if it is no file or there is a place for it. -/
theorem Target.exists_create : (∃ target disk', Target.create disk path = .ok (target, disk')) ↔
    path = "-" ∨ ∃ location, disk.fileAt path = .ok location := by
  constructor
  · rintro ⟨target, disk', h⟩
    exact (Target.create_eq_ok.1 h).imp And.left fun ⟨_, location, hfile, _⟩ => ⟨location, hfile⟩
  · rintro (hname | ⟨location, hfile⟩)
    · exact ⟨_, _, Target.create_eq_ok.2 (.inl ⟨hname, rfl, rfl⟩)⟩
    · by_cases hname : path = "-"
      · exact ⟨_, _, Target.create_eq_ok.2 (.inl ⟨hname, rfl, rfl⟩)⟩
      · exact ⟨_, _, Target.create_eq_ok.2 (.inr ⟨hname, location, hfile, rfl, rfl⟩)⟩

@[simp] theorem Target.result_deliver (t : Target) (disk : Disk) (bytes : Bytes)
    (result : Except Complaint (Option Summary)) :
    (t.deliver disk bytes result).result = result := by
  unfold deliver
  split <;> rfl

/-- What was delivered to an output is found where the output is named as an input. -/
theorem ofName_deliver (houtput : Target.create disk output = .ok (target, disk')) (bytes : Bytes)
    (result : Except Complaint (Option Summary))
    (hstdin : output = "-" → stdin = (target.deliver disk' bytes result).output) :
    ∃ source, Input.ofName (target.deliver disk' bytes result).disk stdin output = .ok source ∧
      source.contents = .ok bytes := by
  rcases Target.create_eq_ok.1 houtput with ⟨hname, rfl, rfl⟩ | ⟨hname, place, hfile, rfl, rfl⟩
  · exact ⟨_, Input.ofName_eq_ok.2 (.inl ⟨hname, rfl⟩), congrArg Except.ok (hstdin hname)⟩
  · refine ⟨_, Input.ofName_eq_ok.2 (.inr ⟨hname, place, .file bytes, ?_, rfl⟩), rfl⟩
    simp only [Target.deliver, Disk.put_put]
    exact Disk.lookup_put hfile bytes

/-- What a command finds in its input, if it can be opened and read. -/
def held (disk : Disk) (stdin : Bytes) (path : String) : Option Bytes :=
  match Input.ofName disk stdin path with
  | .ok source => source.contents.toOption
  | .error _ => none

/-- Whether an input and an output are one file: their paths lead to the same place, whatever the
links on the way. -/
def SameFile (disk : Disk) (input output : String) : Prop :=
  input ≠ "-" ∧ output ≠ "-" ∧ ∃ location entry,
    disk.lookup input = .ok (location, entry) ∧ disk.fileAt output = .ok location

/-- A link to a file is that file. -/
example : SameFile { (Disk.empty []).put ["f"] [1, 2, 3] with
    leads := fun location => .ok (if location = ["g"] then ["f"] else location) } "f" "g" :=
  ⟨by decide, by decide, ["f"], .file [1, 2, 3], by cbv, by cbv⟩

theorem ofName_of_held {contents : Bytes} (h : held disk stdin path = some contents) :
    ∃ source, Input.ofName disk stdin path = .ok source := by
  unfold held at h
  split at h
  · next hsource => exact ⟨_, hsource⟩
  · cases h

theorem held_eq (h : Input.ofName disk stdin path = .ok source) :
    held disk stdin path = source.contents.toOption := by
  rw [held, h]

theorem sameFile_iff (hinput : Input.ofName disk stdin input = .ok source)
    (houtput : Target.create disk output = .ok (target, disk')) :
    SameFile disk input output ↔ source.location.isSome ∧ source.location = target.location := by
  rcases Input.ofName_eq_ok.1 hinput with ⟨hname, rfl⟩ | ⟨hname, location, entry, hlookup, rfl⟩
  · simp [SameFile, hname]
  rcases Target.create_eq_ok.1 houtput with ⟨hout, rfl, -⟩ | ⟨hout, place, hfile, rfl, -⟩
  · simp [SameFile, hout]
  · simp [SameFile, hname, hout, hlookup, hfile, eq_comm]

/-- No directory is input and output at once. -/
theorem SameFile.held (h : SameFile disk input output) (stdin : Bytes) :
    ∃ contents, held disk stdin input = some contents := by
  obtain ⟨hname, -, location, entry, hlookup, hfile⟩ := h
  have hinput : Input.ofName disk stdin input = .ok ⟨some location, contentsOf entry⟩ :=
    Input.ofName_eq_ok.2 (.inr ⟨hname, location, entry, hlookup, rfl⟩)
  obtain ⟨_, _, _, hnames⟩ := Disk.names_of_fileAt hfile
  cases entry with
  | file contents => exact ⟨contents, held_eq hinput⟩
  | directory => exact absurd (Disk.entryAt_lookup hlookup) hnames.free

end Command

end FramedStream
