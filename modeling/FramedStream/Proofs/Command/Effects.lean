import FramedStream.Proofs.Command.Compression

/-!
# What commands change

A command changes no place on the disk but that of its output (`entry_run_of_ne`), and what it does
there depends on when it is refused.

* A `Refusal` is a reason to refuse a command that can be told before anything is done; `Refuses`
  says when a command gives that reason.
* `run_refused`: all reasons but one are found before the output is made, so the disk stays as it
  was.
* `run_badBlockSize`: the block size is looked at only when the stream is started. By then the
  output has been made, and a file that was there is empty.
-/

namespace FramedStream

namespace Command

variable {libs : Libraries} {disk disk' : Disk} {stdin : Bytes} {input output name : String}
  {level : Int} {blockSize : Nat} {codec : Codec} {source : Input} {target : Target}
  {command : Command}

/-- The output of a command, if it has one. -/
def output? : Command → Option String
  | compress _ output _ _ _ | decompress _ output => some output
  | inspect _ _ _ => none

/-! ### One place at most -/

/-- Nothing but its place changes when an output is made and bytes are delivered to it. -/
theorem entry_deliver_of_ne (houtput : Target.create disk output = .ok (target, disk'))
    (bytes : Bytes) (result : Except Complaint (Option Summary)) {place : Location}
    (hplace : output ≠ "-" → disk.fileAt output ≠ .ok place) :
    (target.deliver disk' bytes result).disk.entry place = disk.entry place := by
  rcases Target.create_eq_ok.1 houtput with ⟨-, rfl, rfl⟩ | ⟨hname, location, hfile, rfl, rfl⟩
  · rfl
  · have hne : place ≠ location := fun heq => hplace hname (heq ▸ hfile)
    simp only [Target.deliver, Disk.put_put]
    exact Disk.entry_put_of_ne disk bytes hne

/-- A command leaves alone whatever is not its output. -/
theorem entry_run_of_ne {place : Location}
    (hplace : ∀ output, command.output? = some output → output ≠ "-" →
      disk.fileAt output ≠ .ok place) :
    (run libs disk stdin command).disk.entry place = disk.entry place := by
  cases command with
  | inspect file blocks json => rw [run, disk_runInspect]
  | compress input output codec level blockSize =>
    have hplace := hplace output rfl
    simp only [run, runCompress]
    split
    · rfl
    split
    · rfl
    split
    · rfl
    next houtput =>
    split <;> exact entry_deliver_of_ne houtput _ _ hplace
  | decompress input output =>
    have hplace := hplace output rfl
    simp only [run, runDecompress]
    split
    · rfl
    split
    · rfl
    split
    · rfl
    next houtput => exact entry_deliver_of_ne houtput _ _ hplace

/-! ### Refusals -/

/-- A reason to refuse a command. -/
inductive Refusal
  | codec
  | blockSize
  | input
  | header
  deriving DecidableEq, Repr

/-- Whether there is a reason to refuse a command: a name that is no codec's, a block size out of
bounds, an input that cannot be opened, or one that does not start with the header of a stream. -/
def Refuses (libs : Libraries) (disk : Disk) (stdin : Bytes) : Command → Refusal → Prop
  | compress _ _ name level _, .codec => Codec.ofName? name level libs = none
  | compress _ _ _ _ blockSize, .blockSize => blockSize = 0 ∨ maxBlockSize < blockSize
  | compress input _ _ _ _, .input | decompress input _, .input =>
      ∀ source, Input.ofName disk stdin input ≠ .ok source
  | decompress input _, .header => ∃ source, Input.ofName disk stdin input = .ok source ∧
      ∀ contents, source.contents = .ok contents → ¬Reader.Opens contents
  | _, _ => False

/-- The disk after an output was made, or as it was if none can be. -/
def made (disk : Disk) (output : String) : Disk :=
  match Target.create disk output with
  | .ok (_, disk') => disk'
  | .error _ => disk

theorem made_of_fileAt {location : Location} (hname : output ≠ "-")
    (hfile : disk.fileAt output = .ok location) : made disk output = disk.put location [] := by
  rw [made, target_create hname hfile]

/-- An input without a header is not opened as a stream. -/
theorem openBundled_refused
    (h : ∀ contents, source.contents = .ok contents → ¬Reader.Opens contents) :
    ∃ e, Reader.openBundled source.toSource libs = .error e := by
  unfold Input.toSource
  cases hcontents : source.contents with
  | ok contents =>
    obtain ⟨damage, hopen⟩ := Reader.openBundled_of_not_opens libs (h contents hcontents)
    exact ⟨_, hopen⟩
  | error f => exact ⟨.io f.toIo, rfl⟩

theorem run_unknownCodec (h : Codec.ofName? name level libs = none) :
    run libs disk stdin (.compress input output name level blockSize) =
      { disk, result := .error (unknownCodec name) } := by
  simp only [run, runCompress, codecOf, h]

theorem run_compress_unopened {c : Complaint} (hcodec : Codec.ofName? name level libs = some codec)
    (hinput : Input.ofName disk stdin input = .error c) :
    run libs disk stdin (.compress input output name level blockSize) =
      { disk, result := .error c } := by
  simp only [run, runCompress, codecOf_eq_ok.2 hcodec, hinput]

theorem run_decompress_unopened {c : Complaint}
    (hinput : Input.ofName disk stdin input = .error c) :
    run libs disk stdin (.decompress input output) = { disk, result := .error c } := by
  simp only [run, runDecompress, hinput]

/-- The output has been made by the time that the block size is looked at. -/
theorem run_badBlockSize (hcodec : Codec.ofName? name level libs = some codec)
    (hinput : Input.ofName disk stdin input = .ok source)
    (hsize : blockSize = 0 ∨ maxBlockSize < blockSize) (output : String) :
    ∃ c, run libs disk stdin (.compress input output name level blockSize) =
      { disk := made disk output, result := .error c } := by
  have hcreate : Writer.create .unlimited codec blockSize =
      (.error (.config (.blockSize blockSize)), .unlimited) := if_pos hsize
  simp only [run, runCompress, codecOf_eq_ok.2 hcodec, hinput, hcreate, made]
  cases houtput : Target.create disk output with
  | error c => exact ⟨c, rfl⟩
  | ok opened =>
    obtain ⟨target, disk'⟩ := opened
    refine ⟨.about "starting stream on" output
      (Complaint.reasons (.config (.blockSize blockSize))), ?_⟩
    rcases Target.create_eq_ok.1 houtput with ⟨-, rfl, rfl⟩ | ⟨-, location, -, rfl, rfl⟩
    · rfl
    · simp only [Target.deliver, Disk.put_put]
      rfl

/-- Every reason but the block size is found before anything is done. -/
theorem run_refused {reason : Refusal} (h : Refuses libs disk stdin command reason)
    (hreason : reason ≠ .blockSize) :
    ∃ c, run libs disk stdin command = { disk, result := .error c } := by
  cases command with
  | inspect => cases reason <;> cases h
  | compress input output name level blockSize =>
    cases hcodec : Codec.ofName? name level libs with
    | none => exact ⟨_, run_unknownCodec hcodec⟩
    | some codec =>
      cases reason with
      | blockSize => exact absurd rfl hreason
      | header => cases h
      | codec => cases hcodec.symm.trans h
      | input =>
        cases hinput : Input.ofName disk stdin input with
        | error c => exact ⟨_, run_compress_unopened hcodec hinput⟩
        | ok source => exact absurd hinput (h source)
  | decompress input output =>
    cases hinput : Input.ofName disk stdin input with
    | error c => exact ⟨_, run_decompress_unopened hinput⟩
    | ok source =>
      cases reason with
      | codec | blockSize => cases h
      | input => exact absurd hinput (h source)
      | header =>
        obtain ⟨_, hsame, hheadless⟩ := h
        cases hsame.symm.trans hinput
        obtain ⟨e, hopen⟩ := openBundled_refused hheadless
        exact ⟨_, run_decompress_headless hinput hopen⟩

/-- A command that is refused fails and puts nothing on the standard output. If there is any reason
but its block size, alone or together with others, the disk is as it was before. If the block size
is the only one, the output has been made or emptied. -/
theorem refused_commands_leave_the_disk (libs : Libraries) (disk : Disk) (stdin : Bytes)
    (command : Command) {reason : Refusal} (h : Refuses libs disk stdin command reason) :
    ∃ refused complaint, run libs disk stdin command = refused ∧ refused.result = .error complaint ∧
      refused.output = [] ∧
      ((∃ other, other ≠ .blockSize ∧ Refuses libs disk stdin command other) →
        refused.disk = disk) ∧
      ((∀ other, Refuses libs disk stdin command other → other = .blockSize) →
        ∃ output, command.output? = some output ∧ refused.disk = made disk output) := by
  by_cases hother : ∃ other, other ≠ .blockSize ∧ Refuses libs disk stdin command other
  · obtain ⟨other, hne, hrefuses⟩ := hother
    obtain ⟨c, hrun⟩ := run_refused hrefuses hne
    exact ⟨_, c, hrun, rfl, rfl, fun _ => rfl, fun halone => absurd (halone other hrefuses) hne⟩
  have halone : ∀ other, Refuses libs disk stdin command other → other = .blockSize := by
    intro other hrefuses
    by_contra hne
    exact hother ⟨other, hne, hrefuses⟩
  cases halone reason h
  -- only a compression has a block size, and nothing else is wrong with it
  match command, h with
  | .compress input output name level blockSize, hsize =>
    obtain ⟨codec, hcodec⟩ : ∃ codec, Codec.ofName? name level libs = some codec :=
      Option.ne_none_iff_exists'.1 fun hnone => nomatch halone .codec hnone
    obtain ⟨source, hinput⟩ : ∃ source, Input.ofName disk stdin input = .ok source := by
      by_contra hnone
      cases halone .input (not_exists.1 hnone)
    obtain ⟨c, hrun⟩ := run_badBlockSize hcodec hinput hsize output
    exact ⟨_, c, hrun, rfl, rfl, fun h => absurd h hother, fun _ => ⟨output, rfl, rfl⟩⟩

/-- A name that is no codec's and a block size of zero at once. The output is there already and
keeps its byte. -/
theorem refused_commands_leave_the_disk_unknown_codec :
    let disk := ((Disk.empty []).put ["in"] [1, 2]).put ["out"] [9]
    ∃ refused, run .plain disk [] (.compress "in" "out" "gzip" 3 0) = refused ∧
      exitCode refused.result = 1 ∧ refused.disk.entry ["out"] = some (.file [9]) := by
  intro disk
  have hcodec : Refuses .plain disk [] (.compress "in" "out" "gzip" 3 0) .codec := rfl
  obtain ⟨refused, complaint, hrun, hresult, -, hunchanged, -⟩ :=
    refused_commands_leave_the_disk .plain disk [] _ hcodec
  refine ⟨refused, hrun, by rw [hresult]; rfl, ?_⟩
  rw [hunchanged ⟨.codec, by decide, hcodec⟩]
  rfl

/-- A block size of zero by itself empties a file that is there. -/
theorem refused_blockSize_empties_the_output :
    let disk := ((Disk.empty []).put ["in"] [1, 2]).put ["out"] [9]
    ∃ refused, Refuses .plain disk [] (.compress "in" "out" "passthrough" 3 0) .blockSize ∧
      run .plain disk [] (.compress "in" "out" "passthrough" 3 0) = refused ∧
      exitCode refused.result = 1 ∧ disk.entry ["out"] = some (.file [9]) ∧
      refused.disk.entry ["out"] = some (.file []) := by
  intro disk
  have hcodec : Codec.ofName? "passthrough" 3 .plain = some .passthrough := rfl
  have hlookup : disk.lookup "in" = .ok (["in"], .file [1, 2]) := by cbv
  have hinput : Input.ofName disk [] "in" = .ok ⟨some ["in"], .ok [1, 2]⟩ :=
    input_ofName (by decide) hlookup
  have hfile : disk.fileAt "out" = .ok ["out"] := by cbv
  have hsize : 0 = 0 ∨ maxBlockSize < 0 := .inl rfl
  obtain ⟨c, hrun⟩ := run_badBlockSize hcodec hinput hsize "out"
  refine ⟨_, hsize, hrun, rfl, rfl, ?_⟩
  rw [made_of_fileAt (by decide) hfile]
  exact Disk.entry_put_self _ _ _

end Command

end FramedStream
