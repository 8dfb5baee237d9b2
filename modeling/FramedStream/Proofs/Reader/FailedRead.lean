import FramedStream.Proofs.Reader.Outlook

/-!
# Reads that fail

A read goes from block to block until it has what it was asked for. A block that fails on the way
ends the reader, and what the read has taken off the blocks before it is not handed out: it is lost
to whoever reads by `read`, and stands in the destination of `readBytes` without a count.

* `Hands` says what both of these reads do, `hands_draw` that they do the same;
* `failed_read_takes_what_was_left` says which reads fail and what they take: all that could still
  have been had. A read of no more than that succeeds, and a view that fails takes nothing.
-/

namespace FramedStream

namespace Reader

variable {r : Reader}

/-- Reads of `count` bytes, as I/O and into any destination in range: the bytes that they take and
how they end. -/
structure Hands (r : Reader) (count : Nat) (bytes : Bytes) (ending : Except Error Unit)
    (r' : Reader) : Prop where
  read : r.read count = ((ending.map fun _ => bytes).mapError Error.toIo, r')
  readBytes : ∀ buffer offset, offset + count ≤ buffer.length →
    r.readBytes buffer offset count =
      ⟨ending.map fun _ => bytes.length,
        buffer.take offset ++ bytes ++ buffer.drop (offset + bytes.length), r'⟩

theorem hands_draw {count : Nat} {drawn : Drawn} (h : r.draw count = drawn) :
    Hands r count drawn.bytes drawn.result drawn.reader where
  read := by
    rw [Reader.read, h]
    cases drawn.result with
    | error e => rfl
    | ok => rfl
  readBytes buffer offset hrange := by
    simp only [Reader.readBytes, if_neg (Nat.not_lt.2 hrange), h]

theorem placed_ofParts {source : Source} {header : Header} {codec : Codec}
    (h : ofParts source header codec = .ok r) : r.Placed := by
  refine ⟨sound_ofParts h, ?_⟩
  unfold ofParts at h
  split at h
  · cases h
  · cases h
    exact Nat.le_refl 0

/-! ### What a read takes -/

/-- A view that fails leaves nothing behind that could have been had. -/
theorem nothing_of_failed_view (h : r.Placed) {failure : IoFailure}
    (hfails : r.fillBuf.1 = .error failure) : r.deliverable = [] := by
  have hviews := views h
  unfold fillBuf at hfails
  generalize r.available = outcome at hviews hfails
  cases hviews with
  | failed nothing => exact nothing
  | ended => cases hfails
  | got => cases hfails

/-- What reads take that are asked for `count` bytes, at any point of a session with a reader, and
whatever its source and codec do. As much as can be had before the reader ends or fails is handed
out, and then the rest of it can still be had. A read that is asked for more takes all of that: if
the reader ends, it is handed out; if a block fails, the read fails, and whatever is asked of the
reader afterwards is refused. Only a view takes nothing if it fails, as there is nothing then. -/
theorem failed_read_takes_what_was_left {source : Source} {header : Header} {codec : Codec}
    {r₀ : Reader} (hopen : ofParts source header codec = .ok r₀) (calls : List Call)
    (count : Nat) :
    ∃ r, (r₀.perform calls).2 = r ∧
      (count ≤ r.deliverable.length → ∃ r', Hands r count (r.deliverable.take count) (.ok ()) r' ∧
        r'.deliverable = r.deliverable.drop count ∧ r'.outlook.ending = r.outlook.ending) ∧
      (r.deliverable.length < count → ∃ r', Hands r count r.deliverable r.outlook.ending r' ∧
        ∀ e, r.outlook.ending = .error e →
          ∀ later, r'.perform later = (later.map Call.refusal, r')) ∧
      ∀ failure, r.fillBuf.1 = .error failure → r.deliverable = [] := by
  have hplaced := invariant_placed.run (placed_ofParts hopen) calls
  refine ⟨_, rfl, fun henough => ?_, fun hshort => ?_,
    fun failure => nothing_of_failed_view hplaced⟩
  · obtain ⟨r', hdraw, htakes⟩ := drawOnto_enough #[] hplaced henough
    exact ⟨r', hands_draw hdraw, htakes.deliverable, htakes.ending⟩
  · obtain ⟨r', hdraw, -⟩ := drawOnto_short #[] hplaced hshort
    refine ⟨r', hands_draw hdraw, fun e hending => ?_⟩
    -- the read has failed, and so the reader is over
    have hsettled := drawOnto_settled #[] count hplaced.sound
    rw [hdraw] at hsettled
    exact (hsettled.ended e hending).perform

/-- Three bytes and a record without a length. A read of four bytes fails there, and the three are
gone, though a read of three would have handed them out. -/
theorem failed_read_takes_what_was_left_zero_length :
    ∃ r r' r'', ofParts (.ofBytes (record (Payload.encode 3 [1, 2, 3]) ++ [0, 0, 0, 0]))
        (.current 0) .passthrough = .ok r ∧
      r.deliverable = [1, 2, 3] ∧
      Hands r 3 [1, 2, 3] (.ok ()) r' ∧
      Hands r 4 [1, 2, 3] (.error (.format (.zeroLength 1))) r'' ∧
      ∀ later, r''.perform later = (later.map Call.refusal, r'') := by
  obtain ⟨r, hopen⟩ : ∃ r, ofParts (.ofBytes (record (Payload.encode 3 [1, 2, 3]) ++ [0, 0, 0, 0]))
      (.current 0) .passthrough = .ok r := ⟨_, rfl⟩
  have hfirst : r.nextBlock.1 = .ok (some [1, 2, 3]) := by
    cases hopen
    decide +kernel
  have hsecond : r.nextBlock.2.nextBlock.1 = .error (.format (.zeroLength 1)) := by
    cases hopen
    decide +kernel
  have hfound := outlook_got (Prod.ext hfirst rfl)
  rw [outlook_failed (Prod.ext hsecond rfl)] at hfound
  have hdeliverable : r.deliverable = [1, 2, 3] := by
    rw [deliverable, hfound]
    cases hopen
    rfl
  obtain ⟨r₁, hr₁, henough, -⟩ := failed_read_takes_what_was_left hopen [] 3
  obtain ⟨r₂, hr₂, -, hshort, -⟩ := failed_read_takes_what_was_left hopen [] 4
  obtain rfl : r = r₁ := hr₁
  obtain rfl : r = r₂ := hr₂
  rw [hdeliverable] at henough hshort
  obtain ⟨r', hhands, -⟩ := henough (by decide)
  obtain ⟨r'', hhands', hover⟩ := hshort (by decide)
  rw [hfound] at hhands' hover
  exact ⟨r, r', r'', hopen, hdeliverable, hhands, hhands', hover _ rfl⟩

/-- A read that fails takes three bytes that a shorter read would have handed out, and no call hands
them out any more. -/
theorem failed_read_loses_a_block :
    ∃ r r', ofParts (.ofBytes (record (Payload.encode 3 [1, 2, 3]) ++ [0, 0, 0, 0])) (.current 0)
        .passthrough = .ok r ∧
      (r.read 3).1 = .ok [1, 2, 3] ∧
      r.read 10 = (.error (Error.format (.zeroLength 1)).toIo, r') ∧
      ∀ later, r'.perform later = (later.map Call.refusal, r') := by
  obtain ⟨r, hopen⟩ : ∃ r, ofParts (.ofBytes (record (Payload.encode 3 [1, 2, 3]) ++ [0, 0, 0, 0]))
      (.current 0) .passthrough = .ok r := ⟨_, rfl⟩
  have hfits : (r.read 3).1 = .ok [1, 2, 3] := by
    cases hopen
    decide +kernel
  have hfails : (r.read 10).1 = .error (Error.format (.zeroLength 1)).toIo := by
    cases hopen
    decide +kernel
  have hcall : (Call.read 10).Fails r := ⟨_, hfails⟩
  exact ⟨r, (r.read 10).2, hopen, hfits, Prod.ext hfails rfl,
    (over_of_fails (sound_ofParts hopen) hcall id).perform⟩

end Reader

end FramedStream
