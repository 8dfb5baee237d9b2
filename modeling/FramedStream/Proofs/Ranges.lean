import FramedStream.Proofs.Reader.Failure
import FramedStream.Proofs.Writer.Refusals

/-!
# Ranges

A call that is given a range of a buffer or of an array is refused if the range reaches past the
end, and for no other reason. Offsets and lengths are 64-bit words, of which a sum may wrap around;
ranges are those of unbounded numbers all the same.

* `rangeEnd?` and `ElementType.byteRangeWords?` are the two checks on words. `rangeEnd?_eq_none_iff`
  and `byteRangeWords?_eq` say that they agree with the ranges of numbers, the products of a range
  of elements included, and `rangeEnd?_byteRange` that a range of elements which passes the first
  check passes the second one;
* `Checked` is what becomes of a call with a range: refused without any effect if it is outside, and
  never refused otherwise. What fails inside a range has asked the codec or broken something off
  (`Writer.emit_error`, `Reader.drawOnto_breaks`);
* `ranges_refused_exactly` states it for the writes and the reads of bytes and of elements.
-/

namespace FramedStream

/-! ### Words -/

/-- The sum of two words, unless it does not fit one. -/
def checkedAdd (a b : UInt64) : Option UInt64 :=
  if a.toNat + b.toNat < 2 ^ 64 then some (a + b) else none

/-- The end of a range of bytes, unless it is behind that of the buffer. -/
def rangeEnd? (size offset length : UInt64) : Option UInt64 :=
  (checkedAdd offset length).filter (· ≤ size)

/-- The range of the bytes of a range of elements, as products of words. -/
def ElementType.byteRangeWords? (t : ElementType) (size offset count : UInt64) :
    Option (UInt64 × UInt64) :=
  match checkedAdd offset count with
  | none => none
  | some last =>
      if size < last then none
      else some (offset * .ofNat t.width, count * .ofNat t.width)

variable {size offset length count : UInt64} {t : ElementType}

theorem checkedAdd_eq_none_iff {a b : UInt64} :
    checkedAdd a b = none ↔ 2 ^ 64 ≤ a.toNat + b.toNat := by
  unfold checkedAdd
  split
  · next hlt => simpa using hlt
  · next hle => simpa using hle

theorem toNat_of_checkedAdd {a b sum : UInt64} (h : checkedAdd a b = some sum) :
    sum.toNat = a.toNat + b.toNat := by
  unfold checkedAdd at h
  split at h
  · next hlt =>
    cases h
    rw [UInt64.toNat_add, Nat.mod_eq_of_lt hlt]
  · cases h

/-- A sum that does not fit a word is behind the end of every buffer. -/
theorem rangeEnd?_eq_none_iff :
    rangeEnd? size offset length = none ↔ size.toNat < offset.toNat + length.toNat := by
  have hsize := size.toNat_lt
  unfold rangeEnd?
  cases h : checkedAdd offset length with
  | none =>
    have hlong := checkedAdd_eq_none_iff.1 h
    simp only [Option.filter_none, true_iff]
    omega
  | some sum =>
    rw [← toNat_of_checkedAdd h]
    simp [Option.filter, UInt64.le_iff_toNat_le]

/-- The product of a number of elements and their width. -/
theorem toNat_mul_width {n : UInt64} (h : n.toNat * t.width < 2 ^ 64) :
    (n * .ofNat t.width).toNat = n.toNat * t.width := by
  have hwidth : (UInt64.ofNat t.width).toNat = t.width := by cases t <;> rfl
  rw [UInt64.toNat_mul, hwidth, Nat.mod_eq_of_lt h]

/-- For an array that fits into memory no product of a range inside of it wraps around. -/
theorem byteRangeWords?_eq (offset count : UInt64) (hsize : size.toNat * t.width < 2 ^ 63) :
    (t.byteRangeWords? size offset count).map (fun range => (range.1.toNat, range.2.toNat)) =
      t.byteRange? size.toNat offset.toNat count.toNat := by
  have hword := size.toNat_lt
  unfold ElementType.byteRangeWords? ElementType.byteRange?
  cases h : checkedAdd offset count with
  | none =>
    have hlong := checkedAdd_eq_none_iff.1 h
    rw [if_neg (by omega)]
    rfl
  | some last =>
    have hlast := toNat_of_checkedAdd h
    simp only [UInt64.lt_iff_toNat_lt, hlast]
    by_cases hrange : offset.toNat + count.toNat ≤ size.toNat
    · -- both products are at most the size of the array in bytes
      have hbytes := Nat.mul_le_mul_right t.width hrange
      rw [Nat.add_mul] at hbytes
      have hoffset := toNat_mul_width (t := t) (n := offset) (by omega)
      have hcount := toNat_mul_width (t := t) (n := count) (by omega)
      rw [if_neg (Nat.not_lt.2 hrange), if_pos hrange, Option.map_some, hoffset, hcount]
    · rw [if_pos (Nat.not_le.1 hrange), if_neg hrange]
      rfl

theorem byteRangeWords?_eq_none_iff (hsize : size.toNat * t.width < 2 ^ 63) :
    t.byteRangeWords? size offset count = none ↔ size.toNat < offset.toNat + count.toNat := by
  rw [← Option.map_eq_none_iff, byteRangeWords?_eq offset count hsize, ElementType.byteRange?]
  split
  · next hrange => simpa using hrange
  · next hrange => simpa using hrange

theorem toNat_of_byteRangeWords? (hsize : size.toNat * t.width < 2 ^ 63)
    {byteOffset byteLength : UInt64}
    (h : t.byteRangeWords? size offset count = some (byteOffset, byteLength)) :
    byteOffset.toNat = offset.toNat * t.width ∧ byteLength.toNat = count.toNat * t.width := by
  have hrange := byteRangeWords?_eq offset count hsize
  rw [h, Option.map_some, ElementType.byteRange?] at hrange
  split at hrange
  · simpa using hrange
  · cases hrange

/-- A range of elements that passes the first check passes the second one, that of its bytes. -/
theorem rangeEnd?_byteRange (hsize : size.toNat * t.width < 2 ^ 63)
    {byteOffset byteLength : UInt64}
    (h : t.byteRangeWords? size offset count = some (byteOffset, byteLength)) :
    rangeEnd? (size * .ofNat t.width) byteOffset byteLength ≠ none := by
  obtain ⟨hoffset, hlength⟩ := toNat_of_byteRangeWords? hsize h
  have hrange : ¬size.toNat < offset.toNat + count.toNat := by
    rw [← byteRangeWords?_eq_none_iff hsize, h]
    exact Option.some_ne_none _
  rw [ne_eq, rangeEnd?_eq_none_iff, toNat_mul_width (by omega), hoffset, hlength, ← Nat.add_mul,
    Nat.not_lt]
  exact Nat.mul_le_mul_right _ (Nat.not_lt.1 hrange)

/-! ### Calls with a range -/

/-- A codec that leaves it to its callers to refuse arguments. -/
structure Codec.NeverRefuses (c : Codec) : Prop where
  compress : ∀ call raw room refusal, c.compress call raw room ≠ .error (.config refusal)
  declaredLength : ∀ call payload refusal, c.declaredLength call payload ≠ .error (.config refusal)
  decompress : ∀ call payload room refusal,
    c.decompress call payload room ≠ .error (.config refusal)

/-- What becomes of a call with a range. If that is outside, the call is refused and has no effect;
if not, it is never refused that way. Nor does it fail in the same words after all, unless it is the
codec that uses them. -/
structure Checked {σ α : Type} (codec : Codec) (refusal : Refusal) (outside : Prop) (before : σ)
    (outcome : Except Error α × σ) : Prop where
  refused : outside → outcome = (.error (.config refusal), before)
  exactly : (∃ other, outcome = (.error (.config other), before)) ↔ outside
  fails : codec.NeverRefuses → ((∃ other, outcome.1 = .error (.config other)) ↔ outside)

/-! The bundled codecs blame the payload or themselves. -/

theorem Payload.decode_error {codec : String} {payload : Bytes} {e : Error}
    (h : decode codec payload = .error e) (refusal : Refusal) : e ≠ .config refusal := by
  unfold decode at h
  split at h
  · cases h
    exact nofun
  · cases h

theorem Payload.declaredLength_error {codec : String} {payload : Bytes} {e : Error}
    (h : declaredLength codec payload = .error e) (refusal : Refusal) : e ≠ .config refusal := by
  unfold declaredLength at h
  cases hdecode : decode codec payload with
  | error e' =>
    rw [hdecode] at h
    cases h
    exact decode_error hdecode refusal
  | ok => simp [hdecode, Except.map] at h

theorem neverRefuses_passthrough : Codec.passthrough.NeverRefuses where
  compress _ _ _ _ := nofun
  declaredLength _ _ refusal h := Payload.declaredLength_error h refusal rfl
  decompress call payload room refusal h := by
    simp only [Codec.passthrough] at h
    split at h
    · next hdecode =>
      cases h
      exact Payload.decode_error hdecode refusal rfl
    · split at h <;> cases h

theorem neverRefuses_ofLibrary (id : UInt16) (name : String) (bound : Nat → Nat)
    (compress decompress : Bytes → Nat → Except String Bytes) :
    (Codec.ofLibrary id name bound compress decompress).NeverRefuses where
  compress call raw room refusal h := by
    simp only [Codec.ofLibrary] at h
    split at h <;> cases h
  declaredLength _ _ refusal h := Payload.declaredLength_error h refusal rfl
  decompress call payload room refusal h := by
    simp only [Codec.ofLibrary] at h
    split at h
    · next hdecode =>
      cases h
      exact Payload.decode_error hdecode refusal rfl
    · split at h <;> cases h

theorem neverRefuses_ofId {id : UInt16} {libs : Libraries} {c : Codec}
    (h : Codec.ofId id libs = .ok c) : c.NeverRefuses := by
  unfold Codec.ofId at h
  split at h
  · cases h
    exact neverRefuses_passthrough
  split at h
  · cases h
    exact neverRefuses_ofLibrary _ _ _ _ _
  split at h
  · cases h
    exact neverRefuses_ofLibrary _ _ _ _ _
  · cases h

theorem checked_of {σ α : Type} {codec : Codec} {refusal : Refusal} {outside : Prop} {before : σ}
    {outcome : Except Error α × σ}
    (hrefused : outside → outcome = (.error (.config refusal), before))
    (hinside : ¬outside → ∀ other, outcome.1 = .error (.config other) →
      outcome.2 ≠ before ∧ ¬codec.NeverRefuses) :
    Checked codec refusal outside before outcome where
  refused := hrefused
  exactly := by
    refine ⟨fun ⟨other, h⟩ => ?_, fun houtside => ⟨refusal, hrefused houtside⟩⟩
    by_contra hout
    exact (hinside hout other (congrArg Prod.fst h)).1 (congrArg Prod.snd h)
  fails hcodec := by
    refine ⟨fun ⟨other, h⟩ => ?_, fun houtside => ⟨refusal, congrArg Prod.fst (hrefused houtside)⟩⟩
    by_contra hout
    exact (hinside hout other h).2 hcodec

/-! ### Writes -/

namespace Writer

variable {w w' : Writer} {e : Error}

/-- What can keep a block from being sent: the sink, which breaks the writer, or the codec, which is
a call of it. -/
theorem emit_error (h : w.emit = (.error e, w')) :
    w'.phase = .broken ∧ (∃ failure, e = .io failure) ∨
      w'.compressCalls = w.compressCalls + 1 ∧
        w.codec.Fails w.compressCalls w.pending w.room e := by
  have hemits := emits w
  rw [h] at hemits
  cases hemits with
  | refused pending pack => exact .inr ⟨pack_compressCalls w, fails_of_pack pack⟩
  | torn => exact .inl ⟨rfl, _, rfl⟩

theorem emit_ok_codec (h : w.emit = (.ok (), w')) :
    w'.codec = w.codec ∧ w.compressCalls ≤ w'.compressCalls := by
  have hemits := emits w
  rw [h] at hemits
  cases hemits with
  | nothing => exact ⟨rfl, Nat.le_refl _⟩
  | sent =>
    rw [pack_snd]
    exact ⟨rfl, Nat.le_succ _⟩

/-- If gathering fails, it does so when some block is to be sent. -/
theorem gather_error {count : Nat} {bytes : Bytes} (h : gather count w bytes = (.error e, w')) :
    ∃ w₁ : Writer, w₁.codec = w.codec ∧ w.compressCalls ≤ w₁.compressCalls ∧
      w₁.emit = (.error e, w') := by
  induction count generalizing w bytes with
  | zero => cases h
  | succ count ih =>
    rw [gather] at h
    split at h
    · next w₁ hemit =>
      obtain ⟨hcodec, hcalls⟩ := emit_ok_codec hemit
      obtain ⟨w₂, hcodec', hcalls', hfailed⟩ := ih h
      exact ⟨w₂, hcodec'.trans hcodec, Nat.le_trans hcalls hcalls', hfailed⟩
    · next e' w₁ hemit =>
      cases h
      exact ⟨w.accept (bytes.take (w.blockSize - w.pending.length)), rfl, Nat.le_refl _, hemit⟩

/-- A write that fails inside its range has changed the writer, and has no refusal to give that is
not the codec's. -/
theorem writeBytes_error {buffer : Bytes} {offset length : Nat}
    (hrange : ¬buffer.length < offset + length) {other : Refusal}
    (h : (w.writeBytes buffer offset length).1 = .error (.config other)) :
    (w.writeBytes buffer offset length).2 ≠ w ∧ ¬w.codec.NeverRefuses := by
  obtain ⟨w', hw'⟩ : ∃ w', w.writeBytes buffer offset length = (.error (.config other), w') :=
    ⟨_, Prod.ext h rfl⟩
  rw [hw']
  unfold writeBytes at hw'
  split at hw'
  · next e hunusable =>
    cases hw'
    unfold unusable? at hunusable
    split at hunusable <;> cases hunusable
  next husable =>
  rw [if_neg hrange] at hw'
  unfold append at hw'
  split at hw'
  · cases hw'
  obtain ⟨w₁, hcodec, hcalls, hfailed⟩ := gather_error hw'
  rcases emit_error hfailed with ⟨-, failure, hio⟩ | ⟨hcalled, hfails⟩
  · cases hio
  · refine ⟨fun hsame => ?_, fun hnever => ?_⟩
    · have hmore : w'.compressCalls = w.compressCalls := by rw [show w' = w from hsame]
      omega
    · rw [hcodec] at hfails
      cases hfails with
      | refused compress => exact hnever.compress _ _ _ _ compress

theorem checked_writeBytes (usable : w.phase = .accepting) (buffer : Bytes) (offset length : Nat) :
    Checked w.codec (.byteRange offset length buffer.length) (buffer.length < offset + length) w
      (w.writeBytes buffer offset length) := by
  refine checked_of (fun houtside => ?_) fun hinside other h => writeBytes_error hinside h
  simp only [writeBytes, unusable?, usable, if_pos houtside]

/-- The range of elements is looked at first, so this holds whatever the writer is good for. -/
theorem checked_writeElements (w : Writer) (t : ElementType) (array : List t.Word)
    (offset count : Nat) :
    Checked w.codec (.elementRange offset count array.length) (array.length < offset + count) w
      (w.writeElements t array offset count) := by
  refine checked_of (fun houtside => writeElements_of_lt w t houtside) fun hinside other h => ?_
  have hbytes := Reader.byteRange_fits t (Nat.not_lt.1 hinside)
  rw [writeElements_of_le w t (Nat.not_lt.1 hinside)] at h ⊢
  exact writeBytes_error (Nat.not_lt.2 hbytes) h

end Writer

/-! ### Reads -/

namespace Reader

variable {r r' : Reader} {e : Error}

theorem fetchLength_error (h : r.fetchLength.1 = .error e) (refusal : Refusal) :
    e ≠ .config refusal := by
  simp only [fetchLength] at h
  split at h
  · cases h
  · split at h <;> cases h
    rintro ⟨⟩
  · cases h
    rintro ⟨⟩

theorem fetchPayload_error {length : Nat} (h : (r.fetchPayload length).1 = .error e)
    (refusal : Refusal) : e ≠ .config refusal := by
  unfold fetchPayload at h
  split at h
  · cases h
    exact nofun
  split at h
  · cases h
    exact nofun
  simp only at h
  split at h
  · cases h
  · cases h
    exact nofun
  · split at h <;> cases h <;> exact nofun

theorem unpack_error (hcodec : r.codec.NeverRefuses) (h : r.unpack.1 = .error e)
    (refusal : Refusal) : e ≠ .config refusal := by
  unfold unpack at h
  split at h
  · next hdeclared =>
    cases h
    rintro rfl
    exact hcodec.declaredLength _ _ _ hdeclared
  split at h
  · cases h
    exact nofun
  split at h
  · next hdecompress =>
    cases h
    rintro rfl
    exact hcodec.decompress _ _ _ _ hdecompress
  simp only at h
  split at h
  · cases h
    exact nofun
  · cases h

theorem fetch_error (hcodec : r.codec.NeverRefuses) (h : r.fetch.1 = .error e)
    (refusal : Refusal) : e ≠ .config refusal := by
  have hsteps := fetchSteps r
  generalize r.fetch = outcome at hsteps h
  cases hsteps with
  | noLength length =>
    cases h
    exact fetchLength_error length refusal
  | noPayload _ payload =>
    cases h
    exact fetchPayload_error payload refusal
  | @noBlock size _ _ _ unpack =>
    cases h
    rw [← (holds_loaded r size).codec] at hcodec
    exact unpack_error hcodec unpack refusal
  | ended | got => cases h

/-- How a failure is told: a reader that is broken says so, and one that is not gets broken. A
refusal is none of these unless the codec refuses. -/
structure Breaks (r : Reader) (e : Error) (r' : Reader) : Prop where
  broken : e = .broken ∨ r.isBroken = false ∧ r'.isBroken = true
  unrefused : r.codec.NeverRefuses → ∀ refusal, e ≠ .config refusal

theorem available_breaks (h : r.available = (.error e, r')) : Breaks r e r' := by
  unfold available at h
  split at h
  · have hsteps := nextSteps r
    generalize r.nextBlock = outcome at h hsteps
    cases hsteps with
    | refused =>
      cases h
      exact ⟨.inl rfl, fun _ => nofun⟩
    | failed unbroken fetch =>
      cases h
      exact ⟨.inr ⟨unbroken, rfl⟩, fun hcodec =>
        fetch_error (r := r.cleared) hcodec (congrArg Prod.fst fetch)⟩
    | ended | got => cases h
  · cases h

theorem isBroken_of_available {chunk : Bytes} (h : r.available = (.ok chunk, r')) :
    r'.isBroken = r.isBroken := by
  unfold available at h
  split at h
  · have hnext := nexts r
    generalize r.nextBlock = outcome at h hnext
    cases hnext with
    | refused | failed => cases h
    | got unbroken _ _ still | ended unbroken _ _ still =>
      cases h
      exact still.trans unbroken.symm
  · cases h
    rfl

theorem codec_available (r : Reader) : r.available.2.codec = r.codec :=
  ((invariant_stream r.header r.codec).available ⟨rfl, rfl⟩).2

theorem drawOnto_breaks {gathered : Array UInt8} {count : Nat}
    (h : (drawOnto gathered r count).result = .error e) :
    Breaks r e (drawOnto gathered r count).reader := by
  fun_induction drawOnto gathered r count with
  | case1 | case3 => cases h
  | case2 gathered r count hcount e' r' heq =>
    cases h
    exact available_breaks heq
  | case4 gathered r count hcount chunk r' heq hchunk hless ih =>
    obtain ⟨hbroken, hunrefused⟩ := ih h
    have hcodec := codec_available r
    rw [heq] at hcodec
    have hsame := isBroken_of_available heq
    exact ⟨hbroken.imp_right (And.imp_left hsame.symm.trans), fun hnever =>
      hunrefused (hcodec.symm ▸ hnever)⟩

/-- What a read gives, with the destination as a part of what it may change. -/
def ReadInto.effect {α : Type} (read : ReadInto α) : Except Error Nat × (Reader × List α) :=
  (read.result, read.reader, read.buffer)

theorem ReadInto.eq_of_effect {α : Type} {read : ReadInto α} {result : Except Error Nat}
    {buffer : List α} (h : read.effect = (result, r, buffer)) : read = ⟨result, buffer, r⟩ := by
  cases h
  rfl

/-- A read that fails inside its range has changed the reader, and has no refusal to give that is
not the codec's. -/
theorem readBytes_error {buffer : Bytes} {offset length : Nat}
    (hrange : ¬buffer.length < offset + length) {other : Refusal}
    (h : (r.readBytes buffer offset length).result = .error (.config other)) :
    (r.readBytes buffer offset length).reader ≠ r ∧ ¬r.codec.NeverRefuses := by
  rw [readBytes, if_neg hrange] at h ⊢
  obtain ⟨e, hresult⟩ : ∃ e, (r.draw length).result = .error e := by
    cases hresult : (r.draw length).result with
    | error e => exact ⟨e, rfl⟩
    | ok =>
      simp only [hresult] at h
      cases h
  simp only [hresult] at h
  cases h
  obtain ⟨hbroken, hunrefused⟩ := drawOnto_breaks hresult
  refine ⟨fun hsame => ?_, fun hnever => hunrefused hnever other rfl⟩
  rcases hbroken with hbroken | ⟨hbefore, hafter⟩
  · cases hbroken
  · have hsame : (drawOnto #[] r length).reader = r := hsame
    rw [hsame, hbefore] at hafter
    cases hafter

theorem checked_readBytes (r : Reader) (buffer : Bytes) (offset length : Nat) :
    Checked r.codec (.byteRange offset length buffer.length) (buffer.length < offset + length)
      (r, buffer) (r.readBytes buffer offset length).effect := by
  refine checked_of (fun houtside => ?_) fun hinside other h => ?_
  · rw [readBytes, if_pos houtside]
    rfl
  · obtain ⟨hchanged, hcodec⟩ := readBytes_error hinside h
    exact ⟨fun hsame => hchanged (congrArg Prod.fst hsame), hcodec⟩

theorem checked_readElements (r : Reader) (t : ElementType) (array : List t.Word)
    (offset count : Nat) :
    Checked r.codec (.elementRange offset count array.length) (array.length < offset + count)
      (r, array) (r.readElements t array offset count).effect := by
  refine checked_of (fun houtside => ?_) fun hinside other h => ?_
  · rw [readElements, ElementType.byteRange?, if_neg (Nat.not_le.2 houtside)]
    rfl
  · have hbytes := byteRange_fits t (Nat.not_lt.1 hinside)
    rw [readElements_eq r t (Nat.not_lt.1 hinside)] at h ⊢
    simp only [ReadInto.effect] at h
    split at h
    · next e hresult =>
      cases h
      obtain ⟨hchanged, hcodec⟩ := readBytes_error (Nat.not_lt.2 hbytes) hresult
      exact ⟨fun hsame => hchanged (congrArg Prod.fst hsame), hcodec⟩
    · split at h <;> cases h

end Reader

/-! ### Sessions -/

/-- A call that fails and leaves the writer as it was might as well not have been made. -/
theorem Writer.perform_of_refused {w : Writer} {c : Call} {e : Error}
    (h : c.operate w = (.error e, w)) (later : List Call) :
    w.perform (c :: later) =
      (c.answer (.error e) :: (w.perform later).1, (w.perform later).2) := by
  rw [perform_cons, h]

theorem Reader.perform_of_refused {r : Reader} {c : Call} {reply : Reply}
    (h : c.perform r = (reply, r)) (later : List Call) :
    r.perform (c :: later) = (reply :: (r.perform later).1, (r.perform later).2) := by
  rw [perform_cons, h]

/-- Ranges are refused exactly where they reach past the end. On 64-bit words the checks find out
just that, wherever sums wrap around, and for an array that fits into memory the products that make
a range of bytes of one of elements are exact and pass the second check. A write of bytes by an open
writer, a read of bytes by any reader, and a write and a read of elements in any state are refused
for a range outside their buffer or array, with writer, reader and destination as they were, and a
session goes on as if the call had not been made. Inside the range nothing is refused. -/
theorem ranges_refused_exactly :
    (∀ size offset length : UInt64,
      rangeEnd? size offset length = none ↔ size.toNat < offset.toNat + length.toNat) ∧
    (∀ (t : ElementType) (size offset count : UInt64), size.toNat * t.width < 2 ^ 63 →
      (t.byteRangeWords? size offset count = none ↔ size.toNat < offset.toNat + count.toNat) ∧
      ∀ byteOffset byteLength,
        t.byteRangeWords? size offset count = some (byteOffset, byteLength) →
          byteOffset.toNat = offset.toNat * t.width ∧ byteLength.toNat = count.toNat * t.width ∧
            rangeEnd? (size * .ofNat t.width) byteOffset byteLength ≠ none) ∧
    (∀ (w : Writer) (buffer : Bytes) (offset length : Nat), w.phase = .accepting →
      Checked w.codec (.byteRange offset length buffer.length) (buffer.length < offset + length) w
          (w.writeBytes buffer offset length) ∧
        (buffer.length < offset + length → ∀ later,
          w.perform (.writeBytes buffer offset length :: later) =
            (.plain (.error (.config (.byteRange offset length buffer.length))) ::
              (w.perform later).1, (w.perform later).2))) ∧
    (∀ (w : Writer) (t : ElementType) (array : List t.Word) (offset count : Nat),
      Checked w.codec (.elementRange offset count array.length) (array.length < offset + count) w
          (w.writeElements t array offset count) ∧
        (array.length < offset + count → ∀ later,
          w.perform (.writeElements t array offset count :: later) =
            (.plain (.error (.config (.elementRange offset count array.length))) ::
              (w.perform later).1, (w.perform later).2))) ∧
    (∀ (r : Reader) (buffer : Bytes) (offset length : Nat),
      Checked r.codec (.byteRange offset length buffer.length) (buffer.length < offset + length)
          (r, buffer) (r.readBytes buffer offset length).effect ∧
        (buffer.length < offset + length → ∀ later,
          r.perform (.readBytes buffer offset length :: later) =
            (.filled (.error (.config (.byteRange offset length buffer.length))) buffer ::
              (r.perform later).1, (r.perform later).2))) ∧
    (∀ (r : Reader) (t : ElementType) (array : List t.Word) (offset count : Nat),
      Checked r.codec (.elementRange offset count array.length) (array.length < offset + count)
          (r, array) (r.readElements t array offset count).effect ∧
        (array.length < offset + count → ∀ later,
          r.perform (.readElements t array offset count :: later) =
            (.elements t (.error (.config (.elementRange offset count array.length))) array ::
              (r.perform later).1, (r.perform later).2))) ∧
    ∀ (id : UInt16) (libs : Libraries) (c : Codec),
      Codec.ofId id libs = .ok c → c.NeverRefuses := by
  refine ⟨fun _ _ _ => rangeEnd?_eq_none_iff, fun t size offset count hsize => ⟨?_, ?_⟩,
    fun w buffer offset length usable => ?_, fun w t array offset count => ?_,
    fun r buffer offset length => ?_, fun r t array offset count => ?_,
    fun _ _ _ h => neverRefuses_ofId h⟩
  · exact byteRangeWords?_eq_none_iff hsize
  · intro byteOffset byteLength h
    obtain ⟨hoffset, hlength⟩ := toNat_of_byteRangeWords? hsize h
    exact ⟨hoffset, hlength, rangeEnd?_byteRange hsize h⟩
  · have hchecked := Writer.checked_writeBytes usable buffer offset length
    exact ⟨hchecked, fun houtside later =>
      Writer.perform_of_refused (c := .writeBytes _ _ _) (hchecked.refused houtside) later⟩
  · have hchecked := w.checked_writeElements t array offset count
    exact ⟨hchecked, fun houtside later =>
      Writer.perform_of_refused (c := .writeElements t _ _ _) (hchecked.refused houtside) later⟩
  · have hchecked := r.checked_readBytes buffer offset length
    refine ⟨hchecked, fun houtside later => Reader.perform_of_refused ?_ later⟩
    rw [Reader.Call.perform, Reader.ReadInto.eq_of_effect (hchecked.refused houtside)]
  · have hchecked := r.checked_readElements t array offset count
    refine ⟨hchecked, fun houtside later => Reader.perform_of_refused ?_ later⟩
    rw [Reader.Call.perform, Reader.ReadInto.eq_of_effect (hchecked.refused houtside)]

/-- Two bytes from the last offset that there is, where the sum of words is 1: refused for a buffer
of one byte by a new writer, which then goes on. The last of as many 8-byte elements as fit into
memory is in range, by both checks. -/
theorem ranges_refused_exactly_wrapped :
    ∃ w start, Writer.create .unlimited .passthrough 4 = (.ok w, start) ∧
      (0xFFFFFFFFFFFFFFFF + 2 : UInt64) = 1 ∧ rangeEnd? 1 0xFFFFFFFFFFFFFFFF 2 = none ∧
      w.writeBytes [7] 0xFFFFFFFFFFFFFFFF 2 =
        (.error (.config (.byteRange 0xFFFFFFFFFFFFFFFF 2 1)), w) ∧
      w.perform [.writeBytes [7] 0xFFFFFFFFFFFFFFFF 2, .writeByte 7] =
        (.plain (.error (.config (.byteRange 0xFFFFFFFFFFFFFFFF 2 1))) ::
          (w.perform [.writeByte 7]).1, (w.perform [.writeByte 7]).2) ∧
      ElementType.u64.byteRangeWords? 0xFFFFFFFFFFFFFFF 0xFFFFFFFFFFFFFFE 1 =
        some (0x7FFFFFFFFFFFFFF0, 8) ∧
      rangeEnd? (0xFFFFFFFFFFFFFFF * 8) 0x7FFFFFFFFFFFFFF0 8 ≠ none := by
  obtain ⟨hrange, helements, hwrite, -⟩ := ranges_refused_exactly
  obtain ⟨w, start, hcreate⟩ :
      ∃ w start, Writer.create .unlimited .passthrough 4 = (.ok w, start) := ⟨_, _, rfl⟩
  have usable : w.phase = .accepting := by
    cases hcreate
    rfl
  obtain ⟨hchecked, hrun⟩ := hwrite w [7] 0xFFFFFFFFFFFFFFFF 2 usable
  have hwords : ElementType.u64.byteRangeWords? 0xFFFFFFFFFFFFFFF 0xFFFFFFFFFFFFFFE 1 =
      some (0x7FFFFFFFFFFFFFF0, 8) := by decide +kernel
  obtain ⟨-, -, hbytes⟩ := (helements .u64 0xFFFFFFFFFFFFFFF 0xFFFFFFFFFFFFFFE 1
    (by decide)).2 _ _ hwords
  exact ⟨w, start, hcreate, by decide, (hrange _ _ _).2 (by decide), hchecked.refused (by decide),
    hrun (by decide) [.writeByte 7], hwords, hbytes⟩

end FramedStream
