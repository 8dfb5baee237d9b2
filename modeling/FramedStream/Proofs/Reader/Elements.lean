import FramedStream.Proofs.Reader.Interfaces

/-!
# Reads of elements

A read of elements takes the bytes of its elements off the same sequence as every other read, and
puts the elements where it was told to. Where the sequence ends within it, it is right with whole
elements only.

* `ElementType.bytesOf_wordsOf` is the way from bytes to elements and back, `wordsOf_placed` what
  becomes of an array that some bytes are read into;
* `GivesElements` says what a read of elements gives, `readElements_serves` what it leaves;
* `Orderly` are calls that keep to the rules, reads of elements included, and `perform_orderly` says
  what any of them leave.
-/

namespace FramedStream

namespace ElementType

variable (t : ElementType)

/-- The bytes of elements one after the other. -/
theorem bytesOf_append (xs ys : List t.Word) :
    t.bytesOf (xs ++ ys) = t.bytesOf xs ++ t.bytesOf ys :=
  List.flatMap_append

variable {t}

/-- Bytes that make up whole elements are the bytes of these. -/
theorem bytesOf_wordsOf {count : Nat} {bytes : Bytes} (h : bytes.length = count * t.width) :
    t.bytesOf (t.wordsOf count bytes) = bytes := by
  induction count generalizing bytes with
  | zero =>
    rw [Nat.zero_mul, List.length_eq_zero_iff] at h
    rw [h]
    rfl
  | succ count ih =>
    rw [Nat.succ_mul] at h
    have hfront : (bytes.take t.width).length = t.width := by
      rw [List.length_take]
      omega
    have hrest : (bytes.drop t.width).length = count * t.width := by
      rw [List.length_drop]
      omega
    have hword : (t.wordOf bytes).toNat = Bytes.toNatLE (bytes.take t.width) := by
      have hlt := Bytes.toNatLE_lt (bytes.take t.width)
      rw [hfront, show 256 = 2 ^ 8 from rfl, ← Nat.pow_mul] at hlt
      rw [wordOf, BitVec.toNat_ofNat, Nat.mod_eq_of_lt hlt]
    have hback := Bytes.ofNatLE_toNatLE (bytes.take t.width)
    rw [hfront] at hback
    have hcons : t.bytesOf (t.wordsOf (count + 1) bytes) =
        Bytes.ofNatLE t.width (t.wordOf bytes).toNat ++
          t.bytesOf (t.wordsOf count (bytes.drop t.width)) := by
      rw [wordsOf, bytesOf, List.flatMap_cons]
      rfl
    rw [hcons, hword, hback, ih hrest, List.take_append_drop]

/-- What follows the elements is not looked at. -/
theorem wordsOf_append {count : Nat} {bytes : Bytes} (h : bytes.length = count * t.width)
    (rest : Bytes) : t.wordsOf count (bytes ++ rest) = t.wordsOf count bytes := by
  have hwords := t.wordsOf_bytesOf (t.wordsOf count bytes) rest
  rwa [length_wordsOf, bytesOf_wordsOf h] at hwords

/-- An array of which whole elements are overwritten keeps all the others. -/
theorem wordsOf_placed {array : List t.Word} {offset count : Nat}
    (hrange : offset + count ≤ array.length) {bytes : Bytes}
    (h : bytes.length = count * t.width) :
    t.wordsOf array.length ((t.bytesOf array).take (offset * t.width) ++ bytes ++
        (t.bytesOf array).drop (offset * t.width + bytes.length)) =
      array.take offset ++ t.wordsOf count bytes ++ array.drop (offset + count) := by
  have hlength : array.length =
      (array.take offset ++ t.wordsOf count bytes ++ array.drop (offset + count)).length := by
    simp only [List.length_append, List.length_take, List.length_drop, length_wordsOf]
    omega
  -- both ends are bytes of elements, and so is what lies between them
  have hbytes : (t.bytesOf array).take (offset * t.width) ++ bytes ++
      (t.bytesOf array).drop (offset * t.width + bytes.length) =
      t.bytesOf (array.take offset ++ t.wordsOf count bytes ++ array.drop (offset + count)) := by
    rw [bytesOf_append, bytesOf_append, bytesOf_wordsOf h, h, ← Nat.add_mul, take_bytesOf,
      drop_bytesOf]
  rw [hbytes, hlength]
  have hwords := t.wordsOf_bytesOf
    (array.take offset ++ t.wordsOf count bytes ++ array.drop (offset + count)) []
  rwa [List.append_nil] at hwords

end ElementType

namespace Reader

/-- What a read of elements into an array gives when these bytes are left of the stream. -/
structure GivesElements (t : ElementType) (array : List t.Word) (offset count : Nat) (rest : Bytes)
    (read : ReadInto t.Word) : Prop where
  /-- Enough is left for all of them. -/
  full : count * t.width ≤ rest.length → read.result = .ok count ∧
    read.buffer = array.take offset ++ t.wordsOf count rest ++ array.drop (offset + count)
  /-- The stream ends behind an element. -/
  short : rest.length < count * t.width → t.width ∣ rest.length →
    read.result = .ok (rest.length / t.width) ∧
    read.buffer = array.take offset ++ t.wordsOf (rest.length / t.width) rest ++
      array.drop (offset + rest.length / t.width)
  /-- The stream ends within an element. -/
  torn : rest.length < count * t.width → ¬t.width ∣ rest.length →
    read.result = .error (.format (.tornElement t.width))

variable {c : Codec} {blocks : List Bytes} {r : Reader}

theorem readElements_serves (h : Serves c blocks r) (t : ElementType) {array : List t.Word}
    {offset count : Nat} (hrange : offset + count ≤ array.length) :
    ∃ read, r.readElements t array offset count = read ∧
      GivesElements t array offset count (left blocks r) read ∧ Serves c blocks read.reader ∧
      left blocks read.reader = (left blocks r).drop (count * t.width) := by
  have hbytesRange : offset * t.width + count * t.width ≤ (t.bytesOf array).length := by
    rw [t.length_bytesOf, ← Nat.add_mul]
    exact Nat.mul_le_mul_right _ hrange
  obtain ⟨bytes, r', hread, hserves, hgives⟩ := readBytes_serves h hbytesRange
  have hfront := hgives.front
  have hlength : bytes.length = min (count * t.width) (left blocks r).length := by
    rw [hfront, List.length_take]
  have heq : r.readElements t array offset count =
      ⟨if bytes.length % t.width ≠ 0 then .error (.format (.tornElement t.width))
        else .ok (bytes.length / t.width),
        t.wordsOf array.length ((t.bytesOf array).take (offset * t.width) ++ bytes ++
          (t.bytesOf array).drop (offset * t.width + bytes.length)), r'⟩ := by
    simp only [readElements, ElementType.byteRange?, if_pos hrange, hread]
  -- a read of whole elements, fewer than were asked for or not
  have hwhole : ∀ got, got ≤ count → bytes.length = got * t.width →
      (r.readElements t array offset count).result = .ok got ∧
      (r.readElements t array offset count).buffer =
        array.take offset ++ t.wordsOf got (left blocks r) ++ array.drop (offset + got) := by
    intro got hgot hsize
    have hwords : t.wordsOf got bytes = t.wordsOf got (left blocks r) := by
      rw [← ElementType.wordsOf_append hsize ((left blocks r).drop (count * t.width)), hfront,
        List.take_append_drop]
    have hrange' : offset + got ≤ array.length := by omega
    have hplaced := ElementType.wordsOf_placed hrange' hsize
    rw [heq]
    refine ⟨?_, hplaced.trans (by rw [hwords])⟩
    simp only [hsize, Nat.mul_mod_left, ne_eq, not_true_eq_false, if_false,
      Nat.mul_div_cancel _ t.width_pos]
  refine ⟨_, rfl, ⟨fun henough => ?_, fun hless hwidth => ?_, fun hless hwidth => ?_⟩, ?_⟩
  · exact hwhole count (Nat.le_refl _) (by rw [hlength, Nat.min_eq_left henough])
  · have hall := Nat.div_mul_cancel hwidth
    refine hwhole _ ?_ ?_
    · exact Nat.le_of_lt (Nat.div_lt_of_lt_mul (by rwa [Nat.mul_comm] at hless))
    · rw [hlength, Nat.min_eq_right (Nat.le_of_lt hless), hall]
  · have hpart : (left blocks r).length % t.width ≠ 0 :=
      fun hzero => hwidth (Nat.dvd_of_mod_eq_zero hzero)
    rw [heq]
    simp only [hlength, Nat.min_eq_right (Nat.le_of_lt hless), if_pos hpart]
  · rw [heq]
    exact ⟨hserves, hgives.rest⟩

/-! ### Calls -/

/-- The calls that keep to the rules, reads of elements into a range of their array included. -/
def Call.Orderly (r : Reader) : Call → Prop
  | .readElements _ array offset count => offset + count ≤ array.length
  | call => call.Fair r

/-- Calls of which each keeps to the rules when its turn comes. -/
def Orderly (r : Reader) : List Call → Prop
  | [] => True
  | call :: calls => call.Orderly r ∧ (call.perform r).2.Orderly calls

theorem perform_call_orderly (h : Serves c blocks r) {call : Call} (hcall : call.Orderly r) :
    Serves c blocks (call.perform r).2 ∧ left blocks (call.perform r).2 <:+ left blocks r := by
  have hfair : call.Fair r →
      Serves c blocks (call.perform r).2 ∧ left blocks (call.perform r).2 <:+ left blocks r := by
    intro hfair
    obtain ⟨hserves, hleft⟩ := perform_call_serves h hfair
    exact ⟨hserves, _, hleft.symm⟩
  cases call with
  | readElements t array offset count =>
    have hrange : offset + count ≤ array.length := hcall
    obtain ⟨read, hread, -, hserves, hleft⟩ := readElements_serves h t hrange
    simp only [Call.perform, hread, hleft]
    exact ⟨hserves, List.drop_suffix _ _⟩
  | _ => exact hfair hcall

/-- Whatever is read, what is left is the end of what was left before. -/
theorem perform_orderly (h : Serves c blocks r) {calls : List Call} (hcalls : r.Orderly calls) :
    Serves c blocks (r.perform calls).2 ∧ left blocks (r.perform calls).2 <:+ left blocks r := by
  induction calls generalizing r with
  | nil => exact ⟨h, List.suffix_rfl⟩
  | cons call calls ih =>
    obtain ⟨hcall, hrest⟩ := hcalls
    obtain ⟨hserves, hleft⟩ := perform_call_orderly h hcall
    obtain ⟨hserves', hleft'⟩ := ih hserves hrest
    rw [perform_cons]
    exact ⟨hserves', hleft'.trans hleft⟩

end Reader

end FramedStream
