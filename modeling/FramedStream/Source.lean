import FramedStream.Error

/-!
# Sources

A source delivers bytes a piece at a time. As with sinks, what it does is part of the value:
`script` says it of the next reads, then each read delivers at most `pieceLimit` bytes. A read
that delivers nothing is an end of input, though a later read may deliver again.

A buffer that is to be filled and is not keeps its length, but nobody promises what is in it then.
Bytes in memory are not even looked at if there are too few of them, and a source that is read a
piece at a time leaves what has arrived. So that is a part of the source too (`leaves`).

* `fill` reads until `count` bytes have arrived, the input ends or the source fails;
  an interrupted read is tried again;
* `front` is what is at the front of a buffer then;
* `fill_split`: what arrived and what is left are the two parts of what there was.
-/

namespace FramedStream

/-- What a source does when it is read. -/
inductive ReadStep
  | deliverAtMost (count : Nat)
  | fail (failure : IoFailure)
  deriving DecidableEq, Repr

/-- A source: the bytes that it still holds, and how it is going to deliver them. -/
structure Source where
  rest : Bytes
  script : List ReadStep := []
  pieceLimit : Option Nat := none
  /-- What is put at the front of a buffer of some length where only these bytes arrive for it. -/
  leaves : (length : Nat) → (arrived : Bytes) → Bytes := fun _ arrived => arrived

/-- Why `Source.fill` stopped. -/
inductive Stop
  | full
  | ended
  | failed (failure : IoFailure)
  deriving DecidableEq, Repr

/-- What `Source.fill` leaves: the bytes that arrived, why it stopped, and the source after it. -/
structure Filled where
  bytes : Bytes
  stop : Stop
  source : Source

namespace Source

/-- Bytes in memory, of which as many are delivered at a time as are asked for, and none into a
buffer that is longer than they are. -/
def ofBytes (bytes : Bytes) : Source := { rest := bytes, leaves := fun _ _ => [] }

/-- `fill` once the script is over. -/
def pull (s : Source) (count : Nat) : Filled :=
  if count = 0 then ⟨[], .full, s⟩
  else if s.pieceLimit = some 0 then ⟨[], .ended, s⟩
  else
    let bytes := s.rest.take count
    ⟨bytes, if bytes.length = count then .full else .ended, { s with rest := s.rest.drop count }⟩

/-- `fill` along a script. -/
def fillAlong : List ReadStep → Source → Nat → Filled
  | [], s, count => { s with script := [] }.pull count
  | step :: script, s, count =>
      if count = 0 then ⟨[], .full, { s with script := step :: script }⟩
      else
        match step with
        | .deliverAtMost most =>
            let piece := s.rest.take (min most count)
            if piece.isEmpty then ⟨[], .ended, { s with script }⟩
            else
              let more :=
                fillAlong script { s with rest := s.rest.drop (min most count) }
                  (count - piece.length)
              { more with bytes := piece ++ more.bytes }
        | .fail failure =>
            if failure.kind = .interrupted then fillAlong script s count
            else ⟨[], .failed failure, { s with script }⟩

/-- Read until `count` bytes have arrived, the input ends, or the source fails. -/
def fill (s : Source) (count : Nat) : Filled :=
  fillAlong s.script s count

/-- What is put at the front of a buffer that was to be filled, once some bytes have arrived. -/
def front (s : Source) (length : Nat) (arrived : Bytes) : Bytes :=
  if arrived.length = length then arrived else (s.leaves length arrived).take length

theorem front_of_length (s : Source) {length : Nat} {arrived : Bytes}
    (h : arrived.length = length) : s.front length arrived = arrived := if_pos h

theorem length_front_le (s : Source) (length : Nat) (arrived : Bytes) :
    (s.front length arrived).length ≤ length := by
  unfold front
  split
  · next h => exact Nat.le_of_eq h
  · exact List.length_take_le _ _

theorem pull_split (s : Source) (count : Nat) :
    (s.pull count).bytes ++ (s.pull count).source.rest = s.rest := by
  unfold pull
  split
  · rfl
  split
  · rfl
  · simp

/-- What arrived and what is left are the two parts of what there was. -/
theorem fill_split (s : Source) (count : Nat) :
    (s.fill count).bytes ++ (s.fill count).source.rest = s.rest := by
  unfold fill
  generalize s.script = script
  induction script generalizing s count with
  | nil => exact pull_split { s with script := [] } count
  | cons step script ih =>
    simp only [fillAlong]
    split
    · rfl
    split
    · next most =>
      split
      · rfl
      · have h := ih { s with rest := s.rest.drop (min most count) }
          (count - (s.rest.take (min most count)).length)
        simp only [List.append_assoc, h, List.take_append_drop]
    · split
      · exact ih s count
      · rfl

theorem length_fill_full (s : Source) (count : Nat) (h : (s.fill count).stop = .full) :
    (s.fill count).bytes.length = count := by
  revert h
  unfold fill
  generalize s.script = script
  induction script generalizing s count with
  | nil =>
    simp only [fillAlong, pull]
    split
    · simp_all
    split
    · simp
    · simp only
      split <;> simp_all
  | cons step script ih =>
    simp only [fillAlong]
    split
    · simp_all
    split
    · next most =>
      split
      · simp
      · intro h
        have h' := ih _ _ h
        have hle : (s.rest.take (min most count)).length ≤ count := by
          rw [List.length_take]; omega
        simp only [List.length_append, h']
        omega
    · split
      · exact ih s count
      · simp

/-- A source that is read from goes on to leave buffers in the same way. -/
theorem front_fill (s : Source) (count : Nat) : (s.fill count).source.front = s.front := by
  suffices h : (s.fill count).source.leaves = s.leaves by
    funext length arrived
    rw [front, front, h]
  unfold fill
  generalize s.script = script
  induction script generalizing s count with
  | nil =>
    simp only [fillAlong, pull]
    split
    · rfl
    · split <;> rfl
  | cons step script ih =>
    simp only [fillAlong]
    split
    · rfl
    split
    · next most =>
      split
      · rfl
      · exact ih { s with rest := s.rest.drop (min most count) } _
    · split
      · exact ih s count
      · rfl

/-- A source that delivers at once what it is asked for, or all it has. -/
theorem fill_ofBytes (bytes : Bytes) (count : Nat) :
    (ofBytes bytes).fill count =
      ⟨bytes.take count, if count ≤ bytes.length then .full else .ended,
        ofBytes (bytes.drop count)⟩ := by
  simp only [fill, ofBytes, fillAlong, pull]
  split
  · next h => simp [h]
  · simp only [reduceCtorEq, if_false, List.length_take, Filled.mk.injEq, true_and, and_true]
    by_cases hle : count ≤ bytes.length
    · rw [if_pos hle, if_pos (Nat.min_eq_left hle)]
    · rw [if_neg hle, if_neg (by omega)]

/-- Bytes in memory are put in front as a whole or not at all. -/
theorem front_ofBytes (bytes : Bytes) (length : Nat) :
    (ofBytes bytes).front length (bytes.take length) =
      if length ≤ bytes.length then bytes.take length else [] := by
  unfold front
  split
  · next h =>
    rw [if_pos (by rw [List.length_take] at h; omega)]
  · next h =>
    rw [if_neg (by rw [List.length_take] at h; omega), ofBytes, List.take_nil]

end Source

end FramedStream
