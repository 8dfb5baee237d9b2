import FramedStream.Reader

/-!
# A reader as a plain input of bytes

The calls that any buffered input offers, over `draw`, `available` and `consume`. Failures are
I/O failures here (`Error.toIo`), and what a failing call had gathered is lost.

* `read` takes up to some number of bytes, `readExact` exactly that many;
* `readToEnd` and `readToString` take all there is;
* `readUntil` takes everything up to a delimiter, the delimiter included.

The calls that take several reads make a read again that was interrupted. A reader tries interrupted
reads of its source again by itself, so only its codec can interrupt it; and then it is broken,
which is what the second try finds (`nextBlockRetried_eq`).

A source whose end of input goes away lets the stream resume after a read that came out short. So
`readToEnd` reads on until a read delivers nothing, and the size of each read matters: `Growth`
gives these sizes.
-/

namespace FramedStream

namespace Reader

/-- The failure of an input that ends before enough bytes have arrived. -/
def endedEarly : IoFailure := ⟨.unexpectedEof, "failed to fill whole buffer"⟩

/-- The failure of bytes that are no UTF-8 text. -/
def notText : IoFailure := ⟨.invalidData, "stream did not contain valid UTF-8"⟩

/-- Read up to `count` bytes. -/
def read (r : Reader) (count : Nat) : Except IoFailure Bytes × Reader :=
  let drawn := r.draw count
  (match drawn.result with
    | .ok () => .ok drawn.bytes
    | .error e => .error e.toIo, drawn.reader)

/-- Read up to `count` bytes, and once more if that was interrupted. -/
def readRetried (r : Reader) (count : Nat) : Except IoFailure Bytes × Reader :=
  match r.read count with
  | (.error failure, r) =>
      if failure.kind = .interrupted then r.read count else (.error failure, r)
  | (.ok bytes, r) => (.ok bytes, r)

/-- Read exactly `count` bytes, after those gathered, in as many reads as it takes. -/
def readExactOnto (gathered : Array UInt8) (r : Reader) (count : Nat) :
    Except IoFailure Bytes × Reader :=
  if hcount : count = 0 then (.ok gathered.toList, r)
  else
    match r.readRetried count with
    | (.error failure, r) => (.error failure, r)
    | (.ok bytes, r) =>
        if hbytes : bytes = [] then (.error endedEarly, r)
        else
          have : count - bytes.length < count := by
            have := List.length_pos_iff.2 hbytes
            omega
          readExactOnto (gathered ++ bytes) r (count - bytes.length)
termination_by count

/-- Read exactly `count` bytes. -/
def readExact (r : Reader) (count : Nat) : Except IoFailure Bytes × Reader :=
  readExactOnto #[] r count

/-- What is left of the current block, or else the next block; empty at the end. -/
def fillBuf (r : Reader) : Except IoFailure Bytes × Reader :=
  match r.available with
  | (.ok bytes, r) => (.ok bytes, r)
  | (.error e, r) => (.error e.toIo, r)

/-- Decode the next block, and once more if that was interrupted. -/
def nextBlockRetried (r : Reader) : Except Error (Option Bytes) × Reader :=
  match r.nextBlock with
  | (.error e, r) => if e.toIo.kind = .interrupted then r.nextBlock else (.error e, r)
  | (result, r) => (result, r)

/-- The failure that is left where whatever was interrupted is tried again. -/
def afterRetry (e : Error) : Error := if e.toIo.kind = .interrupted then .broken else e

/-- The second try finds the reader broken, and so there is no need of a third. -/
theorem nextBlockRetried_eq (r : Reader) :
    r.nextBlockRetried = (r.nextBlock.1.mapError afterRetry, r.nextBlock.2) := by
  have hsteps := nextSteps r
  unfold nextBlockRetried
  generalize r.nextBlock = outcome at hsteps ⊢
  cases hsteps with
  | refused => rfl
  | ended | got => rfl
  | @failed e r' =>
    show (if e.toIo.kind = .interrupted then nextBlock { r' with isBroken := true }
      else (.error e, { r' with isBroken := true })) = (.error (afterRetry e), _)
    rw [afterRetry]
    split
    · rw [nextBlock, if_pos rfl]
    · rfl

theorem nextBlockRetried_eq_ok {r r' : Reader} {result : Option Bytes} :
    r.nextBlockRetried = (.ok result, r') ↔ r.nextBlock = (.ok result, r') := by
  rw [nextBlockRetried_eq]
  rcases r.nextBlock with ⟨failure | result, r'⟩
  · constructor <;> rintro ⟨⟩
  · exact Iff.rfl

theorem nextBlockRetried_eq_error {r r' : Reader} {e : Error} :
    r.nextBlockRetried = (.error e, r') ↔
      ∃ failure, r.nextBlock = (.error failure, r') ∧ afterRetry failure = e := by
  rw [nextBlockRetried_eq]
  rcases r.nextBlock with ⟨failure | result, r''⟩
  · constructor
    · rintro ⟨⟩
      exact ⟨failure, rfl, rfl⟩
    · rintro ⟨_, ⟨⟩, rfl⟩
      rfl
  · constructor
    · rintro ⟨⟩
    · rintro ⟨_, ⟨⟩, -⟩

/-! ### Everything up to a delimiter -/

/-- The bytes up to the first delimiter, the delimiter included, if there is one. -/
def upTo (delimiter : UInt8) (bytes : Bytes) : Option Bytes :=
  (bytes.findIdx? (· = delimiter)).map fun i => bytes.take (i + 1)

/-- Look for the delimiter in the blocks that follow. -/
def readBlocksUntil (delimiter : UInt8) (gathered : Array UInt8) (r : Reader) :
    Except IoFailure Bytes × Reader :=
  match h : r.nextBlockRetried with
  | (.error e, r') => (.error e.toIo, r')
  | (.ok none, r') => (.ok gathered.toList, r')
  | (.ok (some block), r') =>
      have := source_nextBlock r (nextBlockRetried_eq_ok.1 h)
      match upTo delimiter block with
      | some bytes => (.ok (gathered ++ bytes).toList, { r' with position := bytes.length })
      | none => readBlocksUntil delimiter (gathered ++ block) r'
termination_by r.source.rest.length

/-- Read up to the first delimiter and past it, or to the end if there is none. -/
def readUntil (r : Reader) (delimiter : UInt8) : Except IoFailure Bytes × Reader :=
  match upTo delimiter r.undrained with
  | some bytes => (.ok bytes, { r with position := r.position + bytes.length })
  | none => readBlocksUntil delimiter r.undrained.toArray r

/-! ### Everything -/

/-- A buffer that grows while it is filled: how full it is, how much it holds, and the most that
one read may ask for. -/
structure Growth where
  size : Nat
  capacity : Nat
  mostPerRead : Nat
  deriving Repr

namespace Growth

/-- The least room that a read is given. -/
def leastRoom : Nat := 32

/-- The size of the first read, which is made before there is a buffer. -/
def probe : Nat := 32

/-- The buffer after a first read of some bytes. -/
def afterProbe (got : Nat) : Growth := ⟨got, max 8 got, 8192⟩

/-- The buffer with room for a read: one with less than the least room at least doubles. -/
def withRoom (g : Growth) : Growth :=
  if leastRoom ≤ g.capacity - g.size then g
  else { g with capacity := max (2 * g.capacity) (g.size + leastRoom) }

/-- The size of the next read into a buffer with room. -/
def nextRead (g : Growth) : Nat := min (g.capacity - g.size) g.mostPerRead

/-- The buffer after a read that was asked for `wanted` bytes and gave `got`. A full read of the
largest size doubles that size. -/
def afterRead (g : Growth) (wanted got : Nat) : Growth :=
  { g with
    size := g.size + got
    mostPerRead :=
      if g.mostPerRead ≤ wanted ∧ got = wanted then 2 * g.mostPerRead else g.mostPerRead }

/-- The buffer after the input gave `arriving` more bytes and then an end of input, or `none` if
the last of these reads delivered nothing. -/
def absorb (g : Growth) (arriving : Nat) : Option Growth :=
  let g := g.withRoom
  let wanted := max 1 g.nextRead
  if hfull : wanted ≤ arriving then
    have : arriving - wanted < arriving := by omega
    absorb (g.afterRead wanted wanted) (arriving - wanted)
  else if arriving = 0 then none
  else some (g.afterRead wanted arriving)
termination_by arriving

/-- `absorb` from the first read on. -/
def absorbFirst (arriving : Nat) : Option Growth :=
  if arriving = 0 then none
  else if arriving < probe then some (afterProbe arriving)
  else (afterProbe probe).absorb (arriving - probe)

theorem absorb_zero (g : Growth) : g.absorb 0 = none := by
  unfold absorb
  simp

end Growth

/-- Gather the blocks up to the next end of input. -/
def drainBlocks (gathered : Array UInt8) (r : Reader) : Drawn :=
  match h : r.nextBlockRetried with
  | (.error e, r') => ⟨gathered.toList, .error e, r'⟩
  | (.ok none, r') => ⟨gathered.toList, .ok (), r'⟩
  | (.ok (some block), r') =>
      have := source_nextBlock r (nextBlockRetried_eq_ok.1 h)
      drainBlocks (gathered ++ block) r'
termination_by r.source.rest.length

theorem rest_nextBlock_le (r : Reader) :
    r.nextBlock.2.source.rest.length ≤ r.source.rest.length := by
  have hfetch := rest_fetch_le r.cleared
  have hsteps := nextSteps r
  generalize r.nextBlock = outcome at hsteps
  cases hsteps with
  | refused => exact Nat.le_refl _
  | failed _ fetch | ended _ fetch | got _ fetch => rwa [fetch] at hfetch

theorem rest_nextBlockRetried_le (r : Reader) :
    r.nextBlockRetried.2.source.rest.length ≤ r.source.rest.length := by
  rw [nextBlockRetried_eq]
  exact rest_nextBlock_le r

theorem rest_drainBlocks_le (gathered : Array UInt8) (r : Reader) :
    (drainBlocks gathered r).reader.source.rest.length ≤ r.source.rest.length := by
  fun_induction drainBlocks gathered r with
  | case1 gathered r e r' h => simpa [h] using rest_nextBlockRetried_le r
  | case2 gathered r r' h => simpa [h] using rest_nextBlockRetried_le r
  | case3 gathered r block r' h hlt ih => omega

/-- If anything was gathered, the source was used. -/
theorem rest_drainBlocks_lt (gathered : Array UInt8) (r : Reader)
    (h : (drainBlocks gathered r).bytes ≠ gathered.toList) :
    (drainBlocks gathered r).reader.source.rest.length < r.source.rest.length := by
  revert h
  unfold drainBlocks
  split
  · simp
  · simp
  next block r' heq =>
  intro _
  have h₁ := source_nextBlock r (nextBlockRetried_eq_ok.1 heq)
  have h₂ := rest_drainBlocks_le (gathered ++ block) r'
  simp only
  omega

/-- `readToEnd` after the input has ended for the first time, where the buffer has grown so. -/
def drainOnto (growth : Growth) (gathered : Array UInt8) (r : Reader) : Drawn :=
  let run := r.drainBlocks #[]
  match run.result with
  | .error e => ⟨gathered.toList ++ run.bytes, .error e, run.reader⟩
  | .ok () =>
      match hgrowth : growth.absorb run.bytes.length with
      | none => ⟨gathered.toList ++ run.bytes, .ok (), run.reader⟩
      | some growth =>
          have : run.reader.source.rest.length < r.source.rest.length := by
            apply rest_drainBlocks_lt
            intro hnil
            have hlen : run.bytes.length = 0 := by
              show (r.drainBlocks #[]).bytes.length = 0
              rw [hnil]; rfl
            rw [hlen, Growth.absorb_zero] at hgrowth
            cases hgrowth
          drainOnto growth (gathered ++ run.bytes) run.reader
termination_by r.source.rest.length

/-- Read all there is. -/
def readToEnd (r : Reader) : Except IoFailure Bytes × Reader :=
  let first := r.drainBlocks r.undrained.toArray
  let drawn :=
    match first.result with
    | .error _ => first
    | .ok () =>
        match Growth.absorbFirst first.bytes.length with
        | none => first
        | some growth => first.reader.drainOnto growth first.bytes.toArray
  (match drawn.result with
    | .ok () => .ok drawn.bytes
    | .error e => .error e.toIo, drawn.reader)

/-- Read all there is as text. The stream is drained also if it is no text. -/
def readToString (r : Reader) : Except IoFailure String × Reader :=
  match r.readToEnd with
  | (.error failure, r) => (.error failure, r)
  | (.ok bytes, r) =>
      (match String.fromUTF8? ⟨bytes.toArray⟩ with
        | some text => .ok text
        | none => .error notText, r)

end Reader

end FramedStream
