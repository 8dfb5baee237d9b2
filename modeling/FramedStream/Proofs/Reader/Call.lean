import FramedStream.Reader.Input

/-!
# Calls on a reader

A session with a reader is a list of calls, and `Reader.perform` carries them out, one after the
other, with what the caller is told by each.

* `Nexts` says of any reader what a call of `nextBlock` leaves of it: the block that it gives or
  none, from the start, and broken if it fails.
* An `Invariant` is kept by the next block and by moving within a block, and so by all calls.
* `checked?` is a session where sums are checked. It goes as any session does, up to the first count
  that does not fit a word, and there it traps (`checked?_of_allFit`, `checked?_eq_none`).
-/

namespace FramedStream

namespace Reader

/-- A call on a reader. -/
inductive Call
  | nextBlock
  | readBytes (buffer : Bytes) (offset length : Nat)
  | readElements (t : ElementType) (array : List t.Word) (offset count : Nat)
  | read (count : Nat)
  | fillBuf
  | consume (count : Nat)

/-- What a caller is told. Nothing is to be told of bytes that were marked as handed out. -/
inductive Reply
  | block (result : Except Error (Option Bytes))
  | filled (result : Except Error Nat) (buffer : Bytes)
  | elements (t : ElementType) (result : Except Error Nat) (array : List t.Word)
  | bytes (result : Except IoFailure Bytes)
  | silence

/-- Carry a call out. -/
def Call.perform : Call → Reader → Reply × Reader
  | .nextBlock, r => r.nextBlock.map .block id
  | .readBytes buffer offset length, r =>
      let done := r.readBytes buffer offset length
      (.filled done.result done.buffer, done.reader)
  | .readElements t array offset count, r =>
      let done := r.readElements t array offset count
      (.elements t done.result done.buffer, done.reader)
  | .read count, r => (r.read count).map .bytes id
  | .fillBuf, r => r.fillBuf.map .bytes id
  | .consume count, r => (.silence, r.consume count)

/-- Carry out calls, one after the other. -/
def perform (r : Reader) : List Call → List Reply × Reader
  | [] => ([], r)
  | c :: cs =>
      let (reply, r) := c.perform r
      let (replies, r) := r.perform cs
      (reply :: replies, r)

theorem perform_cons (r : Reader) (c : Call) (cs : List Call) :
    r.perform (c :: cs) =
      ((c.perform r).1 :: ((c.perform r).2.perform cs).1, ((c.perform r).2.perform cs).2) :=
  rfl

/-! ### Sums that are checked -/

/-- Carry a call out where sums are checked. It traps in one that exceeds a word. -/
def Call.checked? : Call → Reader → Option (Reply × Reader)
  | .consume count, r => (r.consume? count).map (Reply.silence, ·)
  | c, r => some (c.perform r)

/-- Carry out calls where sums are checked, one after the other. -/
def checked? (r : Reader) : List Call → Option (List Reply × Reader)
  | [] => some ([], r)
  | c :: cs => do
      let (reply, r) ← c.checked? r
      let (replies, r) ← r.checked? cs
      some (reply :: replies, r)

/-- A count that the place in the block can be moved by in a word. -/
def Fits (r : Reader) (count : Nat) : Prop := r.position + count < 2 ^ 64

/-- A call whose count, if it is one to mark bytes as handed out, fits a word. -/
def Call.Fits (r : Reader) : Call → Prop
  | .consume count => Reader.Fits r count
  | _ => True

/-- Calls whose counts all fit a word when their turn comes. -/
def AllFit (r : Reader) : List Call → Prop
  | [] => True
  | c :: cs => c.Fits r ∧ (c.perform r).2.AllFit cs

theorem consume?_of_fits {r : Reader} {count : Nat} (h : r.Fits count) :
    r.consume? count = some (r.consume count) := by
  unfold Fits at h
  rw [consume?, if_pos h, consume, Nat.mod_eq_of_lt h]

theorem consume?_eq_none {r : Reader} {count : Nat} (h : ¬r.Fits count) :
    r.consume? count = none := if_neg h

theorem Call.checked?_of_fits {r : Reader} {c : Call} (h : c.Fits r) :
    c.checked? r = some (c.perform r) := by
  cases c with
  | consume count =>
    have hfits : r.Fits count := h
    rw [Call.checked?, consume?_of_fits hfits]
    rfl
  | _ => rfl

theorem Call.checked?_eq_none {r : Reader} {c : Call} (h : ¬c.Fits r) : c.checked? r = none := by
  cases c with
  | consume count =>
    have hfits : ¬r.Fits count := h
    rw [Call.checked?, consume?_eq_none hfits]
    rfl
  | _ => exact absurd trivial h

/-- As long as all counts fit, nobody can tell that sums are checked. -/
theorem checked?_of_allFit {r : Reader} {calls : List Call} (h : r.AllFit calls) :
    r.checked? calls = some (r.perform calls) := by
  induction calls generalizing r with
  | nil => rfl
  | cons c calls ih =>
    simp only [checked?, Call.checked?_of_fits h.1, ih h.2, Option.bind_eq_bind, Option.bind_some,
      perform_cons]

/-- A count that does not fit is a trap, whatever came before. -/
theorem checked?_eq_none {r : Reader} {calls : List Call} (h : ¬r.AllFit calls) :
    r.checked? calls = none := by
  induction calls generalizing r with
  | nil => exact absurd trivial h
  | cons c calls ih =>
    by_cases hc : c.Fits r
    · have hrest : ¬(c.perform r).2.AllFit calls := fun hrest => h ⟨hc, hrest⟩
      simp only [checked?, Call.checked?_of_fits hc, ih hrest, Option.bind_eq_bind,
        Option.bind_some, Option.bind_none]
    · simp only [checked?, Call.checked?_eq_none hc, Option.bind_eq_bind, Option.bind_none]

/-- A session in which sums are checked and that goes through is one like any other. -/
theorem perform_of_checked? {r : Reader} {calls : List Call} {outcome : List Reply × Reader}
    (h : r.checked? calls = some outcome) : outcome = r.perform calls := by
  by_cases hcalls : r.AllFit calls
  · rw [checked?_of_allFit hcalls] at h
    exact (Option.some.inj h).symm
  · rw [checked?_eq_none hcalls] at h
    cases h

/-! ### The next block -/

/-- A reader of the same stream that holds the same block as before, as far handed out. -/
structure Holds (r r' : Reader) : Prop where
  header : r'.header = r.header
  codec : r'.codec = r.codec
  block : r'.block = r.block
  position : r'.position = r.position
  isBroken : r'.isBroken = r.isBroken
  blocksRead : r'.blocksRead = r.blocksRead

theorem Holds.trans {r r₁ r₂ : Reader} (h₁ : Holds r r₁) (h₂ : Holds r₁ r₂) : Holds r r₂ :=
  ⟨h₂.header.trans h₁.header, h₂.codec.trans h₁.codec, h₂.block.trans h₁.block,
    h₂.position.trans h₁.position, h₂.isBroken.trans h₁.isBroken,
    h₂.blocksRead.trans h₁.blocksRead⟩

theorem holds_fetchLength (r : Reader) : Holds r r.fetchLength.2 :=
  ⟨rfl, rfl, rfl, rfl, rfl, rfl⟩

theorem holds_fetchPayload (r : Reader) (length : Nat) : Holds r (r.fetchPayload length).2 := by
  unfold fetchPayload
  split
  · exact ⟨rfl, rfl, rfl, rfl, rfl, rfl⟩
  split
  · exact ⟨rfl, rfl, rfl, rfl, rfl, rfl⟩
  · exact ⟨rfl, rfl, rfl, rfl, rfl, rfl⟩

theorem holds_loaded (r : Reader) (size : Nat) : Holds r (r.loaded size) :=
  (holds_fetchLength r).trans (holds_fetchPayload _ size)

theorem holds_unpack (r : Reader) : Holds r r.unpack.2 := by
  rcases r.unpack_snd with h | ⟨unpacked, h⟩
  · rw [h]
    exact ⟨rfl, rfl, rfl, rfl, rfl, rfl⟩
  · rw [h]
    exact ⟨rfl, rfl, rfl, rfl, rfl, rfl⟩

/-- Decoding puts the block there and touches nothing else of what is handed out. -/
inductive Fetches (r : Reader) : Except Error (Option Bytes) × Reader → Prop
  | got {block : Bytes} {r' : Reader} (held : r'.block = block)
      (position : r'.position = r.position) (isBroken : r'.isBroken = r.isBroken) :
      Fetches r (.ok (some block), r')
  | ended {r' : Reader} (holds : Holds r r') : Fetches r (.ok none, r')
  | failed {e : Error} {r' : Reader} (holds : Holds r r') : Fetches r (.error e, r')

theorem fetches (r : Reader) : Fetches r r.fetch := by
  have hsteps := fetchSteps r
  generalize r.fetch = outcome at hsteps
  cases hsteps with
  | noLength => exact .failed (holds_fetchLength r)
  | ended => exact .ended (holds_fetchLength r)
  | @noPayload size => exact .failed (holds_loaded r size)
  | @noBlock size => exact .failed ((holds_loaded r size).trans (holds_unpack _))
  | @got size =>
    have hunpack := (holds_loaded r size).trans (holds_unpack _)
    exact .got rfl hunpack.position hunpack.isBroken

/-- How a call of `nextBlock` ends. -/
inductive Nexts (r : Reader) : Except Error (Option Bytes) × Reader → Prop
  | refused (broken : r.isBroken = true) : Nexts r (.error .broken, r)
  | got {block : Bytes} {r' : Reader} (unbroken : r.isBroken = false) (held : r'.block = block)
      (position : r'.position = 0) (still : r'.isBroken = false) : Nexts r (.ok (some block), r')
  | ended {r' : Reader} (unbroken : r.isBroken = false) (held : r'.block = [])
      (position : r'.position = 0) (still : r'.isBroken = false) : Nexts r (.ok none, r')
  | failed {e : Error} {r' : Reader} (unbroken : r.isBroken = false) (held : r'.block = [])
      (position : r'.position = 0) (broken : r'.isBroken = true) : Nexts r (.error e, r')

theorem nexts (r : Reader) : Nexts r r.nextBlock := by
  have hfetches := fetches r.cleared
  have hsteps := nextSteps r
  generalize r.nextBlock = outcome at hsteps
  cases hsteps with
  | refused broken => exact .refused broken
  | failed unbroken fetch =>
    rw [fetch] at hfetches
    cases hfetches with
    | failed holds => exact .failed unbroken holds.block holds.position rfl
  | ended unbroken fetch =>
    rw [fetch] at hfetches
    cases hfetches with
    | ended holds =>
      exact .ended unbroken holds.block holds.position (holds.isBroken.trans unbroken)
  | got unbroken fetch =>
    rw [fetch] at hfetches
    cases hfetches with
    | got held position isBroken => exact .got unbroken held position (isBroken.trans unbroken)

/-- Whatever comes of the next block, it is one of the same stream. -/
theorem stream_nextBlock (r : Reader) :
    r.nextBlock.2.header = r.header ∧ r.nextBlock.2.codec = r.codec := by
  have hfetch : r.cleared.fetch.2.header = r.header ∧ r.cleared.fetch.2.codec = r.codec := by
    have hsteps := fetchSteps r.cleared
    generalize r.cleared.fetch = outcome at hsteps
    cases hsteps with
    | noLength | ended => exact ⟨rfl, rfl⟩
    | @noPayload size =>
      have hholds := holds_loaded r.cleared size
      exact ⟨hholds.header, hholds.codec⟩
    | @noBlock size | @got size =>
      have hholds := (holds_loaded r.cleared size).trans (holds_unpack _)
      exact ⟨hholds.header, hholds.codec⟩
  have hsteps := nextSteps r
  generalize r.nextBlock = outcome at hsteps
  cases hsteps with
  | refused => exact ⟨rfl, rfl⟩
  | failed _ fetch | ended _ fetch | got _ fetch => rwa [fetch] at hfetch

/-- The source is filled from, and nothing else is done to it. -/
theorem source_nextBlock_of_fill {Q : Source → Prop}
    (hfill : ∀ {s : Source} (count : Nat), Q s → Q (s.fill count).source) {r : Reader}
    (h : Q r.source) : Q r.nextBlock.2.source := by
  have hlength : Q r.cleared.fetchLength.2.source := hfill blockLengthSize h
  have hloaded : ∀ size, Q (r.cleared.loaded size).source := by
    intro size
    unfold loaded fetchPayload
    split
    · exact hlength
    split
    · exact hlength
    · exact hfill size hlength
  have hfetch : Q r.cleared.fetch.2.source := by
    have hsteps := fetchSteps r.cleared
    generalize r.cleared.fetch = outcome at hsteps
    cases hsteps with
    | noLength | ended => exact hlength
    | @noPayload size => exact hloaded size
    | @noBlock size | @got size =>
      rw [source_unpack]
      exact hloaded size
  have hsteps := nextSteps r
  generalize r.nextBlock = outcome at hsteps
  cases hsteps with
  | refused => exact h
  | failed _ fetch | ended _ fetch | got _ fetch => rwa [fetch] at hfetch

/-! ### What calls keep -/

/-- What is available is what is undrained then. -/
theorem available_eq_undrained {r r' : Reader} {chunk : Bytes} (h : r.available = (.ok chunk, r')) :
    chunk = r'.undrained := by
  unfold available at h
  split at h
  · split at h
    · cases h
    · cases h
      rfl
  · cases h
    rfl

/-- A view asks for the next block, or for nothing. -/
theorem available_snd (r : Reader) : r.available.2 = r ∨ r.available.2 = r.nextBlock.2 := by
  unfold available
  split
  · right
    split
    · next h => rw [h]
    · next h => rw [h]
  · exact .inl rfl

theorem fillBuf_snd (r : Reader) : r.fillBuf.2 = r.available.2 := by
  unfold fillBuf
  split
  · next h => rw [h]
  · next h => rw [h]

/-- A property of readers that the next block keeps, and moving within a block. -/
structure Invariant (P : Reader → Prop) : Prop where
  nextBlock : ∀ {r : Reader}, P r → P r.nextBlock.2
  moved : ∀ {r : Reader} {position : Nat}, P r → position ≤ r.block.length → P { r with position }

namespace Invariant

variable {P : Reader → Prop} {r : Reader}

theorem available (h : Invariant P) (hr : P r) : P r.available.2 := by
  rcases r.available_snd with hsame | hnext
  · rwa [hsame]
  · rw [hnext]
    exact h.nextBlock hr

/-- Some of what is in view is handed out. -/
theorem advance (h : Invariant P) (hr : P r) (hne : r.undrained ≠ []) {count : Nat}
    (hcount : count ≤ r.undrained.length) : P { r with position := r.position + count } := by
  have hlength : r.undrained.length = r.block.length - r.position := List.length_drop
  have hpos := List.length_pos_iff.2 hne
  exact h.moved hr (by omega)

theorem drawOnto (h : Invariant P) (gathered : Array UInt8) (count : Nat) (hr : P r) :
    P (drawOnto gathered r count).reader := by
  fun_induction Reader.drawOnto gathered r count with
  | case1 => exact hr
  | case2 gathered r count hcount e r' heq =>
    have hview := h.available hr
    rwa [heq] at hview
  | case3 gathered r count hcount r' heq =>
    have hview := h.available hr
    rwa [heq] at hview
  | case4 gathered r count hcount chunk r' heq hchunk hless ih =>
    have hview := h.available hr
    rw [heq] at hview
    obtain rfl := available_eq_undrained heq
    exact ih (h.advance hview hchunk (Nat.min_le_left _ _))

theorem draw (h : Invariant P) (count : Nat) (hr : P r) : P (r.draw count).reader :=
  h.drawOnto #[] count hr

theorem readBytes (h : Invariant P) (hr : P r) (buffer : Bytes) (offset length : Nat) :
    P (r.readBytes buffer offset length).reader := by
  unfold Reader.readBytes
  split
  · exact hr
  · exact h.draw length hr

/-- What the next block and moving keep, every call keeps. -/
theorem perform (h : Invariant P) (hr : P r) (c : Call) : P (c.perform r).2 := by
  cases c with
  | nextBlock => exact h.nextBlock hr
  | readBytes buffer offset length => exact h.readBytes hr buffer offset length
  | readElements t array offset count =>
    show P (r.readElements t array offset count).reader
    unfold readElements
    split
    · exact hr
    · exact h.readBytes hr _ _ _
  | read count => exact h.draw count hr
  | fillBuf =>
    show P r.fillBuf.2
    rw [fillBuf_snd]
    exact h.available hr
  | consume count => exact h.moved hr (Nat.min_le_right _ _)

theorem run (h : Invariant P) (hr : P r) (calls : List Call) : P (r.perform calls).2 := by
  induction calls generalizing r with
  | nil => exact hr
  | cons c calls ih => exact ih (h.perform hr c)

end Invariant

/-- What filling from a source keeps, all calls keep. -/
theorem invariant_source {Q : Source → Prop}
    (hfill : ∀ {s : Source} (count : Nat), Q s → Q (s.fill count).source) :
    Invariant fun r => Q r.source where
  nextBlock := source_nextBlock_of_fill hfill
  moved h _ := h

/-- A reader stays with its stream. -/
theorem invariant_stream (header : Header) (codec : Codec) :
    Invariant fun r => r.header = header ∧ r.codec = codec where
  nextBlock h := (stream_nextBlock _).imp (·.trans h.1) (·.trans h.2)
  moved h _ := h

end Reader

end FramedStream
