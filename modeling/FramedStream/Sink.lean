import FramedStream.Error

/-!
# Sinks

A sink takes bytes a piece at a time. What it does with each piece is part of the value: first
`script` says, one entry for each piece offered, then it takes pieces of at most `pieceLimit`
bytes until `capacity` is used up. So every way in which a sink can behave during a finite run is
one of these values, and a sink without script or limits takes everything.

* `writeAll` offers the rest again and again until all is taken or the sink fails; a piece that is
  interrupted is offered again, and one of which nothing is taken is a failure;
* `flush` passes on to the sink that all is out;
* `failures` counts the calls that failed, so whoever looks at a sink can tell whether one did.

`wrote_writeAll` and `flushed_flush` say what arrives, `NeverFails.writeAll` and `NeverFails.flush`
what a sink does that never fails.
-/

namespace FramedStream

/-- What a sink does with a piece that it is offered. -/
inductive WriteStep
  | takeAtMost (count : Nat)
  | takeAll
  | fail (failure : IoFailure)
  deriving DecidableEq, Repr

/-- A sink, with all it has taken and all it is going to do. -/
structure Sink where
  contents : Array UInt8 := #[]
  script : List WriteStep := []
  pieceLimit : Option Nat := none
  capacity : Option Nat := none
  /-- How the next flushes end; after these every flush succeeds. -/
  flushScript : List (Option IoFailure) := []
  /-- The flushes that succeeded. -/
  flushes : Nat := 0
  /-- The writes and flushes that failed. One that is interrupted has not. -/
  failures : Nat := 0
  deriving Repr

namespace Sink

/-- A sink that takes everything. -/
def unlimited : Sink := {}

/-- The failure of a sink whose capacity is used up. -/
def full : IoFailure := ⟨.brokenPipe, "sink gone"⟩

/-- The failure of a sink that takes nothing of a piece. -/
def stuck : IoFailure := ⟨.writeZero, "failed to write whole buffer"⟩

/-- The sink after it took some bytes. -/
def take (s : Sink) (bytes : Bytes) : Sink :=
  { s with contents := s.contents ++ bytes }

/-- A call that fails. -/
def fail {α : Type} (s : Sink) (failure : IoFailure) : Except IoFailure α × Sink :=
  (.error failure, { s with failures := s.failures + 1 })

/-- `writeAll` once the script is over. -/
def pour (s : Sink) (bytes : Bytes) : Except IoFailure Unit × Sink :=
  if bytes.isEmpty then (.ok (), s)
  else if s.capacity = some 0 then s.fail full
  else if s.pieceLimit = some 0 then s.fail stuck
  else
    match s.capacity with
    | none => (.ok (), s.take bytes)
    | some room =>
        let taken := { s.take (bytes.take room) with capacity := some (room - bytes.length) }
        if bytes.length ≤ room then (.ok (), taken) else taken.fail full

/-- `writeAll` along a script. -/
def writeAlong : List WriteStep → Sink → Bytes → Except IoFailure Unit × Sink
  | [], s, bytes => { s with script := [] }.pour bytes
  | step :: script, s, bytes =>
      if bytes.isEmpty then (.ok (), { s with script := step :: script })
      else
        match step with
        | .takeAtMost 0 => { s with script }.fail stuck
        | .takeAtMost (count + 1) =>
            writeAlong script (s.take (bytes.take (count + 1))) (bytes.drop (count + 1))
        | .takeAll => (.ok (), { s.take bytes with script })
        | .fail failure =>
            if failure.kind = .interrupted then writeAlong script s bytes
            else { s with script }.fail failure

/-- Offer the bytes until all are taken. An empty sequence is not offered at all. -/
def writeAll (s : Sink) (bytes : Bytes) : Except IoFailure Unit × Sink :=
  writeAlong s.script s bytes

/-- Write a record: the length of the payload, then the payload. -/
def writeRecord (s : Sink) (payload : Bytes) : Except IoFailure Unit × Sink :=
  match s.writeAll (Bytes.ofNatBE blockLengthSize payload.length) with
  | (.error failure, s) => (.error failure, s)
  | (.ok (), s) => s.writeAll payload

/-- Flush the sink. -/
def flush (s : Sink) : Except IoFailure Unit × Sink :=
  match s.flushScript with
  | some failure :: rest => { s with flushScript := rest }.fail failure
  | none :: rest => (.ok (), { s with flushScript := rest, flushes := s.flushes + 1 })
  | [] => (.ok (), { s with flushes := s.flushes + 1 })

/-- The bytes that a sink has taken. -/
def toList (s : Sink) : Bytes :=
  s.contents.toList

@[simp] theorem toList_take (s : Sink) (bytes : Bytes) :
    (s.take bytes).toList = s.toList ++ bytes := by
  simp [take, toList]

/-! ### What arrives -/

/-- How a write of `bytes` ends: all of them arrive, or the sink fails while some are left. -/
inductive Wrote (s : Sink) (bytes : Bytes) : Except IoFailure Unit × Sink → Prop
  | whole {s' : Sink} (contents : s'.toList = s.toList ++ bytes)
      (failures : s'.failures = s.failures) (flushes : s'.flushes = s.flushes)
      (flushScript : s'.flushScript = s.flushScript) : Wrote s bytes (.ok (), s')
  | torn {s' : Sink} {failure : IoFailure} {taken : Bytes} (part : taken <+: bytes)
      (short : taken.length < bytes.length) (contents : s'.toList = s.toList ++ taken)
      (failures : s'.failures = s.failures + 1) (flushes : s'.flushes = s.flushes) :
      Wrote s bytes (.error failure, s')

theorem wrote_pour (s : Sink) (bytes : Bytes) : s.Wrote bytes (s.pour bytes) := by
  unfold pour
  split
  · next h => exact .whole (by simp_all) rfl rfl rfl
  next h =>
  have hpos : 0 < bytes.length := List.length_pos_iff.2 (by simpa using h)
  split
  · exact .torn List.nil_prefix hpos (by simp [toList]) rfl rfl
  split
  · exact .torn List.nil_prefix hpos (by simp [toList]) rfl rfl
  split
  · exact .whole (by simp) rfl rfl rfl
  next room _ =>
  simp only
  split
  · next hle => exact .whole (by simp [take, toList, List.take_of_length_le hle]) rfl rfl rfl
  · next hlt =>
    refine .torn (List.take_prefix room bytes) ?_ (by simp [take, toList]) rfl rfl
    rw [List.length_take]
    omega

/-- Bytes that arrived before a write count as written with it. -/
theorem Wrote.after (s : Sink) {s₁ : Sink} (front : Bytes) {back : Bytes}
    {outcome : Except IoFailure Unit × Sink} (hcontents : s₁.toList = s.toList ++ front)
    (hfailures : s₁.failures = s.failures) (hflushes : s₁.flushes = s.flushes)
    (hscript : s₁.flushScript = s.flushScript) (h : s₁.Wrote back outcome) :
    s.Wrote (front ++ back) outcome := by
  cases h with
  | whole contents failures flushes flushScript =>
    exact .whole (by rw [contents, hcontents, List.append_assoc]) (failures.trans hfailures)
      (flushes.trans hflushes) (flushScript.trans hscript)
  | torn part short contents failures flushes =>
    exact .torn ((List.prefix_append_right_inj front).2 part) (by simpa using short)
      (by rw [contents, hcontents, List.append_assoc]) (by rw [failures, hfailures])
      (flushes.trans hflushes)

theorem wrote_writeAlong (script : List WriteStep) (s : Sink) (bytes : Bytes) :
    s.Wrote bytes (writeAlong script s bytes) := by
  induction script generalizing s bytes with
  | nil =>
    have hlist : { s with script := [] }.toList = s.toList ++ [] := by simp [toList]
    exact .after s [] hlist rfl rfl rfl (wrote_pour { s with script := [] } bytes)
  | cons step script ih =>
    simp only [writeAlong]
    split
    · next h => exact .whole (by simp_all [toList]) rfl rfl rfl
    next h =>
    have hpos : 0 < bytes.length := List.length_pos_iff.2 (by simpa using h)
    cases step with
    | takeAtMost count =>
      cases count with
      | zero => exact .torn List.nil_prefix hpos (by simp [toList]) rfl rfl
      | succ count =>
        have h := Wrote.after s (bytes.take (count + 1)) (toList_take _ _) rfl rfl rfl
          (ih (s.take (bytes.take (count + 1))) (bytes.drop (count + 1)))
        rwa [List.take_append_drop] at h
    | takeAll => exact .whole (by simp [take, toList]) rfl rfl rfl
    | fail failure =>
      simp only
      split
      · exact ih s bytes
      · exact .torn List.nil_prefix hpos (by simp [toList]) rfl rfl

/-- What arrives is an initial part of what was written, and all of it unless the call fails. -/
theorem wrote_writeAll (s : Sink) (bytes : Bytes) : s.Wrote bytes (s.writeAll bytes) :=
  wrote_writeAlong s.script s bytes

/-- A record arrives as one sequence of bytes would. -/
theorem wrote_writeRecord (s : Sink) (payload : Bytes) :
    s.Wrote (record payload) (s.writeRecord payload) := by
  have hlength := s.wrote_writeAll (Bytes.ofNatBE blockLengthSize payload.length)
  unfold writeRecord record
  split
  · next s₁ heq =>
    rw [heq] at hlength
    cases hlength with
    | torn part short contents failures flushes =>
      refine .torn (part.trans (List.prefix_append _ _)) ?_ contents failures flushes
      rw [List.length_append]
      omega
  · next s₁ heq =>
    rw [heq] at hlength
    cases hlength with
    | whole contents failures flushes flushScript =>
      exact .after s _ contents failures flushes flushScript (s₁.wrote_writeAll payload)

theorem writeRecord_ok {s s' : Sink} {payload : Bytes} (h : s.writeRecord payload = (.ok (), s')) :
    s'.toList = s.toList ++ record payload ∧ s'.failures = s.failures := by
  have hwrote := s.wrote_writeRecord payload
  rw [h] at hwrote
  cases hwrote with
  | whole contents failures => exact ⟨contents, failures⟩

theorem writeRecord_error {s s' : Sink} {payload : Bytes} {failure : IoFailure}
    (h : s.writeRecord payload = (.error failure, s')) :
    ∃ taken, taken <+: record payload ∧ taken.length < (record payload).length ∧
      s'.toList = s.toList ++ taken ∧ s'.failures = s.failures + 1 := by
  have hwrote := s.wrote_writeRecord payload
  rw [h] at hwrote
  cases hwrote with
  | torn part short contents failures => exact ⟨_, part, short, contents, failures⟩

/-- How a flush ends. -/
inductive Flushed (s : Sink) : Except IoFailure Unit × Sink → Prop
  | done {s' : Sink} (contents : s'.toList = s.toList) (failures : s'.failures = s.failures)
      (flushes : s'.flushes = s.flushes + 1) : Flushed s (.ok (), s')
  | failed {s' : Sink} {failure : IoFailure} (contents : s'.toList = s.toList)
      (failures : s'.failures = s.failures + 1) (flushes : s'.flushes = s.flushes) :
      Flushed s (.error failure, s')

/-- A flush moves no bytes. -/
theorem flushed_flush (s : Sink) : s.Flushed s.flush := by
  unfold flush
  split
  · exact .failed rfl rfl rfl
  · exact .done rfl rfl rfl
  · exact .done rfl rfl rfl

theorem flush_ok {s s' : Sink} (h : s.flush = (.ok (), s')) :
    s'.toList = s.toList ∧ s'.failures = s.failures := by
  have hflushed := s.flushed_flush
  rw [h] at hflushed
  cases hflushed with
  | done contents failures => exact ⟨contents, failures⟩

theorem flush_error {s s' : Sink} {failure : IoFailure} (h : s.flush = (.error failure, s')) :
    s'.toList = s.toList ∧ s'.failures = s.failures + 1 := by
  have hflushed := s.flushed_flush
  rw [h] at hflushed
  cases hflushed with
  | failed contents failures => exact ⟨contents, failures⟩

/-! ### Sinks that never fail -/

/-- What a sink that never fails does with a piece: it takes some of it or is interrupted. -/
def goesOn : WriteStep → Bool
  | .takeAtMost count => count ≠ 0
  | .takeAll => true
  | .fail failure => failure.kind = .interrupted

/-- A sink that takes all it is given, if not at once, and whose flushes succeed. -/
structure NeverFails (s : Sink) : Prop where
  script : ∀ step ∈ s.script, goesOn step
  pieceLimit : s.pieceLimit ≠ some 0
  capacity : s.capacity = none
  flushScript : ∀ entry ∈ s.flushScript, entry = none

theorem neverFails_unlimited : unlimited.NeverFails :=
  ⟨by simp [unlimited], by simp [unlimited], rfl, by simp [unlimited]⟩

theorem NeverFails.writeAlong {s : Sink} (script : List WriteStep)
    (hs : { s with script }.NeverFails) (bytes : Bytes) :
    ∃ s', Sink.writeAlong script s bytes = (.ok (), s') ∧ s'.NeverFails := by
  induction script generalizing s bytes with
  | nil =>
    have hcapacity : s.capacity = none := hs.capacity
    have hlimit : s.pieceLimit ≠ some 0 := hs.pieceLimit
    simp only [Sink.writeAlong, pour, hcapacity, hlimit, reduceCtorEq, if_false]
    split
    · exact ⟨_, rfl, hs.script, hlimit, rfl, hs.flushScript⟩
    · exact ⟨_, rfl, hs.script, hlimit, rfl, hs.flushScript⟩
  | cons step script ih =>
    have hrest : ∀ step' ∈ script, goesOn step' :=
      fun step' h => hs.script step' (List.mem_cons_of_mem _ h)
    have hstep : goesOn step := hs.script step List.mem_cons_self
    simp only [Sink.writeAlong]
    split
    · exact ⟨_, rfl, hs⟩
    cases step with
    | takeAtMost count =>
      cases count with
      | zero => simp [goesOn] at hstep
      | succ count =>
        exact @ih (s.take (bytes.take (count + 1)))
          ⟨hrest, hs.pieceLimit, hs.capacity, hs.flushScript⟩ (bytes.drop (count + 1))
    | takeAll => exact ⟨_, rfl, hrest, hs.pieceLimit, hs.capacity, hs.flushScript⟩
    | fail failure =>
      have hkind : failure.kind = .interrupted := by simpa [goesOn] using hstep
      simp only [hkind, if_true]
      exact ih ⟨hrest, hs.pieceLimit, hs.capacity, hs.flushScript⟩ _

/-- A sink that never fails takes everything. -/
theorem NeverFails.writeAll {s : Sink} (hs : s.NeverFails) (bytes : Bytes) :
    ∃ s', s.writeAll bytes = (.ok (), s') ∧ s'.NeverFails ∧ s'.toList = s.toList ++ bytes ∧
      s'.flushes = s.flushes := by
  obtain ⟨s', heq, hs'⟩ := hs.writeAlong s.script bytes
  refine ⟨s', heq, hs', ?_⟩
  have h := s.wrote_writeAll bytes
  rw [Sink.writeAll, heq] at h
  cases h with
  | whole contents _ flushes _ => exact ⟨contents, flushes⟩

theorem NeverFails.writeRecord {s : Sink} (hs : s.NeverFails) (payload : Bytes) :
    ∃ s', s.writeRecord payload = (.ok (), s') ∧ s'.NeverFails ∧
      s'.toList = s.toList ++ record payload ∧ s'.flushes = s.flushes := by
  obtain ⟨s₁, heq₁, hs₁, hlist₁, hflushes₁⟩ :=
    hs.writeAll (Bytes.ofNatBE blockLengthSize payload.length)
  obtain ⟨s₂, heq₂, hs₂, hlist₂, hflushes₂⟩ := hs₁.writeAll payload
  refine ⟨s₂, by rw [Sink.writeRecord, heq₁, ← heq₂], hs₂, ?_, hflushes₂.trans hflushes₁⟩
  rw [hlist₂, hlist₁, record, List.append_assoc]

/-- It is flushed each time that it is told to. -/
theorem NeverFails.flush {s : Sink} (hs : s.NeverFails) :
    ∃ s', s.flush = (.ok (), s') ∧ s'.NeverFails ∧ s'.toList = s.toList ∧
      s'.flushes = s.flushes + 1 := by
  have hrest := hs.flushScript
  unfold Sink.flush
  split
  · next h => simp [h] at hrest
  · next rest h =>
    refine ⟨_, rfl, ⟨hs.script, hs.pieceLimit, hs.capacity, ?_⟩, rfl, rfl⟩
    simp only [h, List.mem_cons, forall_eq_or_imp, true_and] at hrest
    exact hrest
  · exact ⟨_, rfl, ⟨hs.script, hs.pieceLimit, hs.capacity, hs.flushScript⟩, rfl, rfl⟩

end Sink

end FramedStream
