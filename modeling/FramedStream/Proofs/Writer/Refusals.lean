import FramedStream.Proofs.Writer.Books

/-!
# Which refusal comes first

A writer that accepts nothing says so before it looks at anything else that is wrong with a call,
with one exception: the range of a typed write is looked at before the writer is.

* `Call.Acts` are the calls that write or flush, `Call.OutOfRange` are those of the exception;
* `operate_refused` says what all the others tell the caller of a writer that accepts nothing;
* `writeElements_of_le` and `writeElements_of_lt` are the two sides of the exception: a typed write
  in range is the write of its bytes, in every state, and one out of range is refused as such;
* `state_comes_first` puts these together for every session with a writer, and
  `elementRange_comes_first` shows the exception in a session.
-/

namespace FramedStream

namespace Call

/-- The calls that write or flush. -/
def Acts : Call → Prop
  | .close | .finish | .drop => False
  | _ => True

/-- The typed writes that reach past the end of their array. -/
def OutOfRange : Call → Prop
  | .writeElements _ array offset count => array.length < offset + count
  | _ => False

end Call

namespace Writer

variable {w : Writer}

/-! ### Typed writes -/

/-- A typed write in range is the write of its bytes, whatever the writer is good for. -/
theorem writeElements_of_le (w : Writer) (t : ElementType) {array : List t.Word}
    {offset count : Nat} (hrange : offset + count ≤ array.length) :
    w.writeElements t array offset count =
      w.writeBytes (t.bytesOf array) (offset * t.width) (count * t.width) := by
  rw [writeElements, ElementType.byteRange?, if_pos hrange]

/-- A typed write out of range is refused for its range, whatever the writer is good for. -/
theorem writeElements_of_lt (w : Writer) (t : ElementType) {array : List t.Word}
    {offset count : Nat} (hrange : array.length < offset + count) :
    w.writeElements t array offset count =
      (.error (.config (.elementRange offset count array.length)), w) := by
  rw [writeElements, ElementType.byteRange?, if_neg (Nat.not_le.2 hrange)]

/-- The write of the bytes is refused for its range as well, if the writer accepts anything. -/
theorem writeBytes_of_lt (hw : w.phase = .accepting) (t : ElementType) {array : List t.Word}
    {offset count : Nat} (hrange : array.length < offset + count) :
    w.writeBytes (t.bytesOf array) (offset * t.width) (count * t.width) =
      (.error (.config (.byteRange (offset * t.width) (count * t.width)
        (array.length * t.width))), w) := by
  have hbytes : array.length * t.width < offset * t.width + count * t.width := by
    rw [← Nat.add_mul]
    exact Nat.mul_lt_mul_of_pos_right hrange t.width_pos
  simp only [writeBytes, unusable?, hw, t.length_bytesOf, if_pos hbytes]

/-! ### Writers that accept nothing -/

/-- Nothing else that is wrong with a call is told to the caller of a writer that accepts nothing,
except that a range of elements is none. -/
theorem operate_refused {e : Error} (hw : w.unusable? = some e) {c : Call} (hc : c.Acts)
    (hrange : ¬c.OutOfRange) : c.operate w = (.error e, w) := by
  have hwriteBytes : ∀ buffer offset length, w.writeBytes buffer offset length = (.error e, w) := by
    intro buffer offset length
    simp only [writeBytes, hw]
  cases c with
  | writeBytes buffer offset length => exact hwriteBytes _ _ _
  | writeByte byte => simp only [Call.operate, writeByte, hw]
  | writeElements t array offset count =>
    have hle : offset + count ≤ array.length := Nat.not_lt.1 hrange
    rw [Call.operate, writeElements_of_le w t hle]
    exact hwriteBytes _ _ _
  | writeAllElements t array =>
    have hle : 0 + array.length ≤ array.length := by simp
    rw [Call.operate, writeAllElements, writeElements_of_le w t hle]
    exact hwriteBytes _ _ _
  | write buffer => exact hwriteBytes _ _ _
  | flush | flushIo => simp only [Call.operate, flush, hw]
  | close | finish | drop => exact hc.elim

theorem perform_refused {e : Error} (hw : w.unusable? = some e) {c : Call} (hc : c.Acts)
    (hrange : ¬c.OutOfRange) : c.perform w = (c.answer (.error e), w) := by
  rw [Call.perform_eq, operate_refused hw hc hrange]
  rfl

theorem closed_of_sink? (h : w.sink? = none) : w.phase = .closed := by
  by_contra hne
  rw [sink?, if_neg hne] at h
  cases h

/-- A writer that has been closed stays closed. -/
theorem sink?_of_close {calls : List Call} (hclose : .close ∈ calls) (w : Writer) :
    (w.perform calls).2.sink? = none := by
  obtain ⟨before, after, rfl⟩ := List.append_of_mem hclose
  have hclosed : (w.perform before).2.close.2.phase = .closed := by
    unfold close
    split
    · next h => exact h
    · rfl
    · rfl
  rw [perform_append, perform_cons]
  simp only [Call.operate, perform_closed hclosed]
  rw [sink?, if_pos hclosed]

/-- Whatever else is wrong with a call that writes or flushes, in every session the caller is told
that the writer is closed, or else that its sink has failed, if that is so. Typed writes out of
range are the exception: they are refused for their range in every state. In range they are the
writes of their bytes, in every state, so both give the same errors. -/
theorem state_comes_first {sink start : Sink} {codec : Codec} {blockSize : Nat} {w : Writer}
    (hcreate : create sink codec blockSize = (.ok w, start)) (calls : List Call) :
    ∃ w', (w.perform calls).2 = w' ∧
      (.close ∈ calls → w'.sink? = none) ∧
      (∀ c : Call, c.Acts → ¬c.OutOfRange →
        (w'.sink? = none → c.perform w' = (c.answer (.error .closed), w')) ∧
        (w'.sink? ≠ none → w'.sink.failures ≠ sink.failures →
          c.perform w' = (c.answer (.error .broken), w'))) ∧
      ∀ (t : ElementType) (array : List t.Word) (offset count : Nat),
        (offset + count ≤ array.length → w'.writeElements t array offset count =
          w'.writeBytes (t.bytesOf array) (offset * t.width) (count * t.width)) ∧
        (array.length < offset + count →
          w'.writeElements t array offset count =
              (.error (.config (.elementRange offset count array.length)), w') ∧
            (w'.unusable? = none →
              w'.writeBytes (t.bytesOf array) (offset * t.width) (count * t.width) =
                (.error (.config (.byteRange (offset * t.width) (count * t.width)
                  (array.length * t.width))), w'))) := by
  have hnew := create_audited hcreate
  obtain ⟨sent, hbooked⟩ := (perform_moves hnew.toBounded calls).audited hnew
  refine ⟨_, rfl, fun hclose => sink?_of_close hclose w, fun c hc hrange => ⟨?_, ?_⟩,
    fun t array offset count => ⟨fun hle => writeElements_of_le _ t hle, fun hlt =>
      ⟨writeElements_of_lt _ t hlt, fun husable =>
        writeBytes_of_lt (accepting_of_usable husable) t hlt⟩⟩⟩
  · intro hclosed
    refine perform_refused ?_ hc hrange
    rw [unusable?, closed_of_sink? hclosed]
  · intro hopen hfailed
    -- neither closed nor accepting: a writer that accepts has a sink that has not failed
    have hbroken : (w.perform calls).2.phase = .broken := by
      cases hphase : (w.perform calls).2.phase with
      | broken => rfl
      | accepting => exact absurd (hbooked.faultless hphase) hfailed
      | closed => exact absurd (by rw [sink?, if_pos hphase]) hopen
    refine perform_refused ?_ hc hrange
    rw [unusable?, hbroken]

/-- After its sink has failed, a writer says so of a byte range that does not fit, and says that it
is closed after it was closed. -/
theorem state_comes_first_capacity :
    ∃ w start, create { capacity := some 21 } .passthrough 4 = (.ok w, start) ∧
      (Call.writeBytes [1] 9 9).perform (w.perform [.write [1, 2, 3, 4]]).2 =
        (.plain (.error .broken), (w.perform [.write [1, 2, 3, 4]]).2) ∧
      (Call.write [1]).perform (w.perform [.write [1, 2, 3, 4], .close]).2 =
        (.counted (.error ⟨.other, "writer is closed"⟩),
          (w.perform [.write [1, 2, 3, 4], .close]).2) := by
  obtain ⟨w, start, hcreate⟩ : ∃ w start,
      create { capacity := some 21 } .passthrough 4 = (.ok w, start) := ⟨_, _, rfl⟩
  refine ⟨w, start, hcreate, ?_, ?_⟩
  · obtain ⟨w', rfl, -, hrefused, -⟩ := state_comes_first hcreate [.write [1, 2, 3, 4]]
    refine (hrefused (.writeBytes [1] 9 9) trivial not_false).2 ?_ ?_
    · cases hcreate
      decide +kernel
    · cases hcreate
      decide +kernel
  · obtain ⟨w', rfl, hclosed, hrefused, -⟩ :=
      state_comes_first hcreate [.write [1, 2, 3, 4], .close]
    exact (hrefused (.write [1]) trivial not_false).1 (hclosed (by simp))

/-- Two elements from the second one on of an array of two, given to a writer that is closed. That
is refused as a range, while the bytes of that range are refused because the writer is closed. -/
theorem elementRange_comes_first :
    ∃ w start w', create .unlimited .passthrough 4 = (.ok w, start) ∧
      (w.perform [.close]).2 = w' ∧ w'.sink? = none ∧
      (w'.writeBytes (ElementType.u16.bytesOf [1, 2]) 2 4).1 = .error .closed ∧
      (w'.writeElements .u16 [1, 2] 1 2).1 = .error (.config (.elementRange 1 2 2)) :=
  ⟨_, _, _, rfl, rfl, rfl, rfl, rfl⟩

end Writer

end FramedStream
