import FramedStream.Codec.Bundled
import FramedStream.Proofs.Reader.Call
import Mathlib.Control.Monad.Basic

/-!
# After a failure

A call fails on account of the stream if it fails although its destination is in order
(`Call.Fails`). Such a failure comes out of `nextBlock`, which leaves the reader broken and without
a block (`Over`). The one exception is an element of which the stream has only a part: the bytes of
it were read without a failure, and the reader is left as that read has left it (`Call.Tears`).

* `Settled` says of an operation that its failures leave the reader over; `nextBlock_settled`,
  `available_settled` and `drawOnto_settled` go through the ways to go on;
* `Sound` is what every call preserves (`invariant_sound`): a broken reader is over;
* `Over.perform`: whatever is asked of a reader that is over, it refuses (`Call.refusal`), stays as
  it is, and leaves its source alone, whichever source that is.
-/

namespace FramedStream

namespace Reader

/-- A reader that has nothing to give any more. -/
structure Over (r : Reader) : Prop where
  broken : r.isBroken = true
  block : r.block = []
  position : r.position = 0

/-- A reader that is over if it is broken. -/
def Sound (r : Reader) : Prop := r.isBroken = true → r.Over

/-- How an operation leaves the reader: over, if it fails. -/
structure Settled {α : Type} (result : Except Error α) (r : Reader) : Prop where
  sound : r.Sound
  ended : ∀ e, result = .error e → r.Over

theorem sound_of_unbroken {r : Reader} (h : r.isBroken = false) : r.Sound := by
  intro hbroken
  rw [h] at hbroken
  cases hbroken

/-- An operation that does not fail has not ended a sound reader. -/
theorem settled_ok {α : Type} {a : α} {r : Reader} (hr : r.Sound) : Settled (.ok a) r := by
  refine ⟨hr, fun e h => ?_⟩
  cases h

/-! ### The reader that is left -/

theorem nextBlock_settled {r : Reader} (hr : r.Sound) :
    Settled r.nextBlock.1 r.nextBlock.2 := by
  have h := nexts r
  generalize r.nextBlock = outcome at h
  cases h with
  | refused broken => exact ⟨hr, fun _ _ => hr broken⟩
  | got _ _ _ still => exact settled_ok (sound_of_unbroken still)
  | ended _ _ _ still => exact settled_ok (sound_of_unbroken still)
  | failed _ held position broken =>
    have hover := Over.mk broken held position
    exact ⟨fun _ => hover, fun _ _ => hover⟩

theorem available_settled {r : Reader} (hr : r.Sound) :
    Settled r.available.1 r.available.2 := by
  have hnext := nextBlock_settled hr
  unfold available
  split
  · split
    · next e r' heq =>
      rw [heq] at hnext
      exact ⟨hnext.sound, fun _ _ => hnext.ended e rfl⟩
    · next heq =>
      rw [heq] at hnext
      exact settled_ok hnext.sound
  · exact settled_ok hr

/-- There is nothing to move in where a reader is broken. -/
theorem invariant_sound : Invariant Sound where
  nextBlock h := (nextBlock_settled h).sound
  moved := by
    intro r position hr hposition hbroken
    obtain ⟨-, hblock, -⟩ := hr hbroken
    rw [hblock] at hposition
    exact ⟨hbroken, hblock, Nat.le_zero.1 hposition⟩

theorem drawOnto_settled (gathered : Array UInt8) {r : Reader} (count : Nat) (hr : r.Sound) :
    Settled (drawOnto gathered r count).result (drawOnto gathered r count).reader := by
  fun_induction drawOnto gathered r count with
  | case1 => exact settled_ok hr
  | case2 gathered r count hcount e r' heq =>
    have h := available_settled hr
    rw [heq] at h
    exact ⟨h.sound, fun _ _ => h.ended e rfl⟩
  | case3 gathered r count hcount r' heq =>
    have h := available_settled hr
    rw [heq] at h
    exact settled_ok h.sound
  | case4 gathered r count hcount chunk r' heq hchunk hless ih =>
    have h := available_settled hr
    rw [heq] at h
    obtain rfl := available_eq_undrained heq
    exact ih (invariant_sound.advance h.sound hchunk (Nat.min_le_left _ _))

theorem draw_settled {r : Reader} (count : Nat) (hr : r.Sound) :
    Settled (r.draw count).result (r.draw count).reader :=
  drawOnto_settled #[] count hr

/-- A view is given by a reader that is not broken. -/
theorem unbroken_of_available {r r' : Reader} {chunk : Bytes} (hr : r.Sound)
    (h : r.available = (.ok chunk, r')) : r'.isBroken = false := by
  have hnext := nexts r
  unfold available at h
  split at h
  · generalize r.nextBlock = outcome at h hnext
    cases hnext with
    | refused | failed => cases h
    | got _ _ _ still | ended _ _ _ still =>
      cases h
      exact still
  · next hposition =>
    obtain ⟨-, rfl⟩ := Prod.mk.inj h
    cases hbroken : r.isBroken with
    | false => rfl
    | true =>
      have hover := hr hbroken
      rw [hover.position, hover.block] at hposition
      exact absurd rfl hposition

/-- A read that does not fail leaves the reader unbroken, unless it has not even begun. -/
theorem unbroken_of_drawOnto {gathered : Array UInt8} {r : Reader} {count : Nat} (hr : r.Sound)
    (hzero : count = 0 → r.isBroken = false) (h : (drawOnto gathered r count).result = .ok ()) :
    (drawOnto gathered r count).reader.isBroken = false := by
  fun_induction drawOnto gathered r count with
  | case1 => exact hzero rfl
  | case2 => cases h
  | case3 gathered r count _ r' heq => exact unbroken_of_available hr heq
  | case4 gathered r count _ chunk r' heq hchunk hless ih =>
    have hsettled := available_settled hr
    have hunbroken := unbroken_of_available hr heq
    rw [heq] at hsettled
    obtain rfl := available_eq_undrained heq
    exact ih (invariant_sound.advance hsettled.sound hchunk (Nat.min_le_left _ _))
      (fun _ => hunbroken) h

/-! ### Failures of calls -/

/-- A call fails on account of the stream. A destination that is out of range is no such failure. -/
def Call.Fails (r : Reader) : Call → Prop
  | .nextBlock => ∃ e, r.nextBlock.1 = .error e
  | .readBytes buffer offset length =>
      offset + length ≤ buffer.length ∧ ∃ e, (r.readBytes buffer offset length).result = .error e
  | .readElements t array offset count =>
      offset + count ≤ array.length ∧ ∃ e, (r.readElements t array offset count).result = .error e
  | .read count => ∃ failure, (r.read count).1 = .error failure
  | .fillBuf => ∃ failure, r.fillBuf.1 = .error failure
  | .consume _ => False

/-- A call reads the bytes of its elements without a failure, and the stream ends inside one. -/
def Call.Tears (r : Reader) : Call → Prop
  | .readElements t array offset count =>
      offset + count ≤ array.length ∧ ∃ got,
        (r.readBytes (t.bytesOf array) (offset * t.width) (count * t.width)).result = .ok got ∧
          got % t.width ≠ 0
  | _ => False

variable {r : Reader}

theorem readBytes_settled (hr : r.Sound) {buffer : Bytes} {offset length : Nat}
    (hrange : offset + length ≤ buffer.length) :
    Settled (r.readBytes buffer offset length).result
      (r.readBytes buffer offset length).reader := by
  have h := draw_settled length hr
  rw [readBytes, if_neg (Nat.not_lt.2 hrange)]
  refine ⟨h.sound, fun e heq => ?_⟩
  cases hresult : (r.draw length).result with
  | error e' => exact h.ended e' hresult
  | ok =>
    simp only [hresult] at heq
    cases heq

/-- A range of elements that fits is one of bytes that fits. -/
theorem byteRange_fits (t : ElementType) {array : List t.Word} {offset count : Nat}
    (hrange : offset + count ≤ array.length) :
    offset * t.width + count * t.width ≤ (t.bytesOf array).length := by
  rw [t.length_bytesOf, ← Nat.add_mul]
  exact Nat.mul_le_mul_right _ hrange

theorem readElements_eq (r : Reader) (t : ElementType) {array : List t.Word} {offset count : Nat}
    (hrange : offset + count ≤ array.length) :
    r.readElements t array offset count =
      let read := r.readBytes (t.bytesOf array) (offset * t.width) (count * t.width)
      ⟨match read.result with
        | .error e => .error e
        | .ok got =>
            if got % t.width ≠ 0 then .error (.format (.tornElement t.width))
            else .ok (got / t.width),
        t.wordsOf array.length read.buffer, read.reader⟩ := by
  have hbytes : t.byteRange? array.length offset count =
      some (offset * t.width, count * t.width) := if_pos hrange
  unfold readElements
  split
  · next hnone =>
    rw [hbytes] at hnone
    cases hnone
  · next hsome =>
    cases hbytes.symm.trans hsome
    rfl

/-- A failure on account of the stream ends the reader, unless an element is torn. -/
theorem over_of_fails (hr : r.Sound) {c : Call} (hfails : c.Fails r) (htears : ¬c.Tears r) :
    (c.perform r).2.Over := by
  cases c with
  | nextBlock =>
    obtain ⟨e, h⟩ := hfails
    exact (nextBlock_settled hr).ended e h
  | readBytes buffer offset length =>
    obtain ⟨hrange, e, h⟩ := hfails
    exact (readBytes_settled hr hrange).ended e h
  | readElements t array offset count =>
    obtain ⟨hrange, e, h⟩ := hfails
    have hread := readBytes_settled hr (byteRange_fits t hrange)
    show (r.readElements t array offset count).reader.Over
    rw [readElements_eq r t hrange] at h ⊢
    cases hresult :
        (r.readBytes (t.bytesOf array) (offset * t.width) (count * t.width)).result with
    | error e' => exact hread.ended e' hresult
    | ok got =>
      -- the bytes were read, so it is the adapter that complains
      simp only [hresult] at h
      split at h
      · next htorn => exact absurd ⟨hrange, got, hresult, htorn⟩ htears
      · cases h
  | read count =>
    obtain ⟨failure, h⟩ := hfails
    have hdraw := draw_settled count hr
    show (r.draw count).reader.Over
    cases hresult : (r.draw count).result with
    | error e => exact hdraw.ended e hresult
    | ok =>
      simp only [read, hresult] at h
      cases h
  | fillBuf =>
    obtain ⟨failure, h⟩ := hfails
    have hover := (available_settled hr).ended
    show r.fillBuf.2.Over
    rw [fillBuf_snd]
    unfold fillBuf at h
    split at h
    · cases h
    · next e r' heq =>
      exact hover e (congrArg Prod.fst heq)
  | consume count => exact hfails.elim

/-- An element that is torn does not end the reader. -/
theorem unbroken_of_tears (hr : r.Sound) {c : Call} (h : c.Tears r) :
    (c.perform r).2.isBroken = false := by
  cases c with
  | readElements t array offset count =>
    obtain ⟨hrange, got, hread, htorn⟩ := h
    show (r.readElements t array offset count).reader.isBroken = false
    rw [readElements_eq r t hrange]
    rw [readBytes, if_neg (Nat.not_lt.2 (byteRange_fits t hrange))] at hread ⊢
    cases hresult : (r.draw (count * t.width)).result with
    | error e =>
      simp only [hresult] at hread
      cases hread
    | ok =>
      refine unbroken_of_drawOnto hr (fun hzero => ?_) hresult
      -- a read of nothing tears nothing
      simp only [hresult] at hread
      cases hread
      rw [hzero, draw, drawOnto] at htorn
      simp at htorn
  | _ => exact h.elim

/-! ### The reader that is over -/

/-- What a caller is told by a reader that is over. Nothing is delivered: destinations come back as
they were. -/
def Call.refusal : Call → Reply
  | .nextBlock => .block (.error .broken)
  | .readBytes buffer offset length =>
      .filled (if buffer.length < offset + length then
          .error (.config (.byteRange offset length buffer.length))
        else if length = 0 then .ok 0 else .error .broken) buffer
  | .readElements t array offset count =>
      .elements t (if array.length < offset + count then
          .error (.config (.elementRange offset count array.length))
        else if count = 0 then .ok 0 else .error .broken) array
  | .read count => .bytes (if count = 0 then .ok [] else .error Error.broken.toIo)
  | .fillBuf => .bytes (.error Error.broken.toIo)
  | .consume _ => .silence

theorem Over.available (hr : r.Over) : r.available = (.error .broken, r) := by
  have hdrained : r.position = r.block.length := by
    rw [hr.position, hr.block]
    rfl
  rw [Reader.available, if_pos hdrained, nextBlock, if_pos hr.broken]

theorem Over.draw (hr : r.Over) (count : Nat) :
    r.draw count = ⟨[], if count = 0 then .ok () else .error .broken, r⟩ := by
  unfold Reader.draw drawOnto
  split
  · rfl
  · simp only [hr.available]

theorem Over.readBytes (hr : r.Over) (buffer : Bytes) (offset length : Nat) :
    r.readBytes buffer offset length =
      ⟨if buffer.length < offset + length then
          .error (.config (.byteRange offset length buffer.length))
        else if length = 0 then .ok 0 else .error .broken, buffer, r⟩ := by
  unfold Reader.readBytes
  split
  · rfl
  · rw [hr.draw]
    split <;> simp [Except.map]

theorem Over.readElements (hr : r.Over) (t : ElementType) (array : List t.Word)
    (offset count : Nat) :
    r.readElements t array offset count =
      ⟨if array.length < offset + count then
          .error (.config (.elementRange offset count array.length))
        else if count = 0 then .ok 0 else .error .broken, array, r⟩ := by
  by_cases hrange : offset + count ≤ array.length
  · have hwords : t.wordsOf array.length (t.bytesOf array) = array := by
      have h := t.wordsOf_bytesOf array []
      rwa [List.append_nil] at h
    have hwidth : count * t.width = 0 ↔ count = 0 := by
      have := t.width_pos
      rw [Nat.mul_eq_zero]
      omega
    rw [readElements_eq r t hrange, hr.readBytes, if_neg (Nat.not_lt.2 (byteRange_fits t hrange)),
      if_neg (Nat.not_lt.2 hrange)]
    simp only [hwidth, hwords]
    by_cases hzero : count = 0
    · simp [hzero]
    · simp [hzero]
  · rw [Reader.readElements, ElementType.byteRange?, if_neg hrange, if_pos (Nat.not_le.1 hrange)]

/-- Each call is refused and changes nothing. -/
theorem Over.call (hr : r.Over) (c : Call) : c.perform r = (c.refusal, r) := by
  cases c with
  | nextBlock =>
    simp only [Call.perform, nextBlock, if_pos hr.broken]
    rfl
  | readBytes buffer offset length =>
    simp only [Call.perform, hr.readBytes]
    rfl
  | readElements t array offset count =>
    simp only [Call.perform, hr.readElements]
    rfl
  | read count =>
    simp only [Call.perform, read, hr.draw, Call.refusal]
    by_cases hzero : count = 0
    · simp [hzero]
    · simp [hzero]
  | fillBuf =>
    simp only [Call.perform, fillBuf, hr.available]
    rfl
  | consume count =>
    have hsame : r.consume count = r := by
      have hposition : r.position = min ((r.position + count) % 2 ^ 64) r.block.length := by
        rw [hr.position, hr.block]
        exact (Nat.min_zero _).symm
      rw [consume, ← hposition]
    simp only [Call.perform, hsame]
    rfl

theorem Over.perform (hr : r.Over) (calls : List Call) :
    r.perform calls = (calls.map Call.refusal, r) := by
  induction calls with
  | nil => rfl
  | cons c calls ih => rw [perform_cons, hr.call, ih, List.map_cons]

/-! ### Failures are final -/

theorem sound_ofParts {source : Source} {header : Header} {codec : Codec}
    (h : ofParts source header codec = .ok r) : r.Sound := by
  unfold ofParts at h
  split at h
  · cases h
  · cases h
    exact sound_of_unbroken rfl

/-- A failure on account of the stream is final. Whatever is asked of the reader afterwards, it
refuses, stays as it is and leaves its source alone: it would do the same over any other. The
failure that is not final is that of an element of which the stream has only a part. -/
theorem failures_are_final {source : Source} {header : Header} {codec : Codec}
    (hopen : ofParts source header codec = .ok r) (calls : List Call) {c : Call}
    (hfails : c.Fails (r.perform calls).2) :
    (¬c.Tears (r.perform calls).2 →
      ∃ r', (c.perform (r.perform calls).2).2 = r' ∧ r'.nextBlock.1 = .error .broken ∧
        ∀ (other : Source) (later : List Call),
          { r' with source := other }.perform later =
            (later.map Call.refusal, { r' with source := other })) ∧
    (c.Tears (r.perform calls).2 → (c.perform (r.perform calls).2).2.isBroken = false) := by
  have hsound := invariant_sound.run (sound_ofParts hopen) calls
  refine ⟨fun htears => ?_, unbroken_of_tears hsound⟩
  have hover := over_of_fails hsound hfails htears
  refine ⟨_, rfl, ?_, fun other later => ?_⟩
  · rw [nextBlock, if_pos hover.broken]
  · have hother : Over { (c.perform (r.perform calls).2).2 with source := other } :=
      ⟨hover.broken, hover.block, hover.position⟩
    exact hother.perform later

/-- Two bytes and a record without a length. A read of three bytes over the source fails at that
record, and then it is over, though one byte had been handed out before. -/
theorem failures_are_final_zero_length :
    ∃ r r', ofParts (.ofBytes (record (Payload.encode 2 [1, 2]) ++ [0, 0, 0, 0])) (.current 0)
        .passthrough = .ok r ∧
      ((Call.read 3).perform (r.perform [.read 1]).2).2 = r' ∧
      r'.nextBlock.1 = .error .broken ∧
      ∀ (other : Source) (later : List Call),
        { r' with source := other }.perform later =
          (later.map Call.refusal, { r' with source := other }) := by
  obtain ⟨r, hopen⟩ : ∃ r, ofParts (.ofBytes (record (Payload.encode 2 [1, 2]) ++ [0, 0, 0, 0]))
      (.current 0) .passthrough = .ok r := ⟨_, rfl⟩
  have hfails : (Call.read 3).Fails (r.perform [.read 1]).2 := by
    refine ⟨(Error.format (.zeroLength 1)).toIo, ?_⟩
    cases hopen
    decide +kernel
  obtain ⟨r', hr', hbroken, hover⟩ := (failures_are_final hopen [.read 1] hfails).1 id
  exact ⟨r, r', hopen, hr', hbroken, hover⟩

/-- Six bytes read as elements of four. The second element is torn, which is a format error, and
still the reader goes on: it looks for the next block and says that the stream has ended. -/
theorem torn_element_is_not_final :
    ∃ r, create (.ofBytes ((Header.current 0).encode ++
        (record (Payload.encode 4 [1, 2, 3, 4]) ++ record (Payload.encode 2 [5, 6]))))
        .passthrough = .ok r ∧
      (r.readElements .u32 [0, 0] 0 2).result = .error (.format (.tornElement 4)) ∧
      (r.readElements .u32 [0, 0] 0 2).reader.nextBlock.1 = .ok none := by
  refine ⟨_, rfl, ?_, ?_⟩
  · decide +kernel
  · decide +kernel

end Reader

end FramedStream
