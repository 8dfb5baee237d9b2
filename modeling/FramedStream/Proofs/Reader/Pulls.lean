import FramedStream.Proofs.Reader.FailedRead

/-!
# When a reader goes to its source

A reader decodes the next record when a block is asked for, and for a read only when there is
nothing left of the current block and the read still lacks bytes. So what a call takes off the
source is a number of records, and how many follows from what the call asks for.

* `Viewed` is how a view comes about, with the source or without;
* `draw_held`: a read of no more than what is left of the current block leaves the source alone;
* `Pulls` is what a read takes that needs more: so many records, and each of them only where those
  before it did not suffice. `drawOnto_pulls` goes through the loop;
* `Call.Asks` are the calls that read some number of bytes, all by the same loop
  (`perform_of_asks`). `perform_held` and `perform_pulls` say what they do.
-/

namespace FramedStream

namespace Reader

variable {r r' : Reader}

/-! ### Views -/

/-- How a view comes about. Only where the current block has been handed out a record is decoded. -/
inductive Viewed (r : Reader) : Except Error Bytes × Reader → Prop
  | held (left : r.undrained ≠ []) : Viewed r (.ok r.undrained, r)
  | pulled {result : Option Bytes} {r' : Reader} (drained : r.undrained = [])
      (next : r.nextBlock = (.ok result, r')) : Viewed r (.ok r'.undrained, r')
  | failed {e : Error} {r' : Reader} (drained : r.undrained = [])
      (next : r.nextBlock = (.error e, r')) : Viewed r (.error e, r')

theorem viewed (h : r.Placed) : Viewed r r.available := by
  unfold available
  split
  · next hposition =>
    have hdrained : r.undrained = [] := by rw [undrained, hposition, List.drop_length]
    split
    · next hnext => exact .failed hdrained hnext
    · next hnext => exact .pulled hdrained hnext
  · next hposition =>
    refine .held ?_
    have hplace := h.position
    rw [undrained, Ne, List.drop_eq_nil_iff]
    omega

/-! ### Reads that stay in the block -/

theorem available_held (h : r.Placed) (hleft : r.undrained ≠ []) :
    r.available = (.ok r.undrained, r) := by
  have hviewed := viewed h
  generalize r.available = outcome at hviewed
  cases hviewed with
  | held => rfl
  | pulled drained => exact absurd drained hleft
  | failed drained => exact absurd drained hleft

/-- A read of no more than what is left of the current block only moves within it. -/
theorem draw_held (h : r.Placed) {count : Nat} (hcount : count ≤ r.undrained.length) :
    r.draw count =
      ⟨r.undrained.take count, .ok (), { r with position := r.position + count }⟩ := by
  by_cases hzero : count = 0
  · subst hzero
    rw [draw, drawOnto]
    rfl
  have hleft : r.undrained ≠ [] := by
    rw [← List.length_pos_iff]
    omega
  have hmin : min r.undrained.length count = count := Nat.min_eq_right hcount
  rw [draw, drawOnto, dif_neg hzero]
  simp only [available_held h hleft, dif_neg hleft, hmin, Nat.sub_self]
  rw [drawOnto, dif_pos rfl]
  simp

/-! ### Reads that go on -/

/-- Where a reader was in its block does not matter for the blocks that come next. -/
theorem nextBlocks_moved (r : Reader) (position count : Nat) :
    ∃ position', (({ r with position } : Reader).nextBlocks count).2 =
      { (r.nextBlocks count).2 with position := position' } := by
  induction count with
  | zero => exact ⟨position, rfl⟩
  | succ count ih =>
    rw [nextBlocks_succ, nextBlocks_succ]
    by_cases hbroken : r.isBroken = true
    · -- nothing is done, and so nothing moves
      have hnext : r.nextBlock = (.error .broken, r) := by rw [nextBlock, if_pos hbroken]
      have hmoved : ({ r with position } : Reader).nextBlock =
          (.error .broken, { r with position }) := by
        rw [nextBlock, if_pos hbroken]
      rw [hnext, hmoved]
      exact ih
    · rw [nextBlock_moved (by simpa using hbroken)]
      exact ⟨_, rfl⟩

/-- A read has taken `pulls` records off the source, or one less and found that none follows. Each
time the bytes that were there did not suffice, those of the records before included. -/
structure Pulls (r : Reader) (count pulls : Nat) (r' : Reader) : Prop where
  reader : ∃ position, r' = { (r.nextBlocks pulls).2 with position }
  most : pulls ≤ r.outlook.found.length + 1
  lacking : ∀ k < pulls, r.undrained.length + (r.outlook.blocks.take k).flatten.length < count

/-- Nothing follows, and the read is over. -/
theorem pulls_last {count : Nat} (hcount : 0 < count) (drained : r.undrained = [])
    {result : Except Error (Option Bytes)} (next : r.nextBlock = (result, r')) :
    Pulls r count 1 r' := by
  refine ⟨⟨r'.position, ?_⟩, Nat.le_add_left _ _, fun k hk => ?_⟩
  · rw [nextBlocks_succ, next]
    rfl
  · obtain rfl : k = 0 := by omega
    rw [drained]
    exact hcount

/-- Some bytes of the current block are handed out first. -/
theorem pulls_advance {count taken pulls : Nat} (htaken : taken ≤ r.undrained.length)
    (hcount : taken ≤ count)
    (h : Pulls { r with position := r.position + taken } (count - taken) pulls r') :
    Pulls r count pulls r' := by
  obtain ⟨⟨position, hreader⟩, hmost, hlacking⟩ := h
  rw [outlook_moved] at hmost hlacking
  refine ⟨?_, hmost, fun k hk => ?_⟩
  · obtain ⟨position', hmoved⟩ := nextBlocks_moved r (r.position + taken) pulls
    rw [hmoved] at hreader
    exact ⟨position, hreader⟩
  · have hlack := hlacking k hk
    rw [undrained_advance, List.length_drop] at hlack
    omega

/-- A record is taken off the source, and the read goes on with its block. -/
theorem pulls_next {count pulls : Nat} {block : Bytes} {r₁ : Reader} (hcount : 0 < count)
    (drained : r.undrained = []) (next : r.nextBlock = (.ok (some block), r₁))
    (held : r₁.undrained = block) (h : Pulls r₁ count pulls r') : Pulls r count (pulls + 1) r' := by
  obtain ⟨hreader, hmost, hlacking⟩ := h
  have houtlook := outlook_got next
  refine ⟨?_, ?_, fun k hk => ?_⟩
  · rw [nextBlocks_succ, next]
    exact hreader
  · rw [houtlook, List.length_cons]
    omega
  · cases k with
    | zero =>
      rw [drained]
      exact hcount
    | succ k =>
      have hlack := hlacking k (by omega)
      have hblocks : r.outlook.blocks = block :: r₁.outlook.blocks := by rw [houtlook]; rfl
      rw [drained, hblocks, List.take_succ_cons, List.flatten_cons, List.length_append]
      rw [held] at hlack
      simpa using hlack

theorem drawOnto_pulls (gathered : Array UInt8) (count : Nat) (h : r.Placed) :
    ∃ pulls, Pulls r count pulls (drawOnto gathered r count).reader := by
  fun_induction drawOnto gathered r count with
  | case1 gathered r =>
    exact ⟨0, ⟨r.position, rfl⟩, Nat.zero_le _, fun k hk => absurd hk (Nat.not_lt_zero k)⟩
  | case2 gathered r count hpos e r' heq =>
    have hviewed := viewed h
    rw [heq] at hviewed
    cases hviewed with
    | failed drained next => exact ⟨1, pulls_last (Nat.pos_of_ne_zero hpos) drained next⟩
  | case3 gathered r count hpos r' heq =>
    have hviewed := viewed h
    generalize hchunk : ([] : Bytes) = chunk at heq
    rw [heq] at hviewed
    cases hviewed with
    | held left => exact absurd hchunk.symm left
    | pulled drained next => exact ⟨1, pulls_last (Nat.pos_of_ne_zero hpos) drained next⟩
  | case4 gathered r count hpos chunk r' heq hchunk hless ih =>
    have hviewed := viewed h
    have hplaced := invariant_placed.available h
    rw [heq] at hviewed hplaced
    have hsome := Nat.min_le_left chunk.length count
    have hmost := Nat.min_le_right chunk.length count
    cases hviewed with
    | held left =>
      obtain ⟨pulls, hpulls⟩ := ih (invariant_placed.advance hplaced hchunk hsome)
      exact ⟨pulls, pulls_advance hsome hmost hpulls⟩
    | @pulled result _ drained next =>
      obtain ⟨pulls, hpulls⟩ := ih (invariant_placed.advance hplaced hchunk hsome)
      have hrest := pulls_advance hsome hmost hpulls
      have hnexts := nexts r
      rw [next] at hnexts
      cases hnexts with
      | got _ held position =>
        exact ⟨pulls + 1, pulls_next (Nat.pos_of_ne_zero hpos) drained next
          (undrained_start held position) hrest⟩
      | ended _ held =>
        have hnil : r'.undrained = [] := by rw [undrained, held, List.drop_nil]
        exact absurd hnil hchunk

theorem draw_pulls (h : r.Placed) (count : Nat) :
    ∃ pulls, Pulls r count pulls (r.draw count).reader :=
  drawOnto_pulls #[] count h

/-! ### Calls -/

/-- The calls that read `count` bytes. -/
def Call.Asks (count : Nat) : Call → Prop
  | .read wanted => count = wanted
  | .readBytes buffer offset length => offset + length ≤ buffer.length ∧ count = length
  | .readElements t array offset elements =>
      offset + elements ≤ array.length ∧ count = elements * t.width
  | _ => False

/-- What the caller is told by such a call, and what it leaves, is up to one and the same loop. -/
theorem perform_of_asks {c : Call} {count : Nat} (hc : c.Asks count) :
    ∃ reply : Bytes → Except Error Unit → Reply, ∀ r : Reader, c.perform r =
      (reply (r.draw count).bytes (r.draw count).result, (r.draw count).reader) := by
  cases c with
  | read wanted =>
    cases hc
    exact ⟨fun bytes result => .bytes ((result.map fun _ => bytes).mapError Error.toIo),
      fun r => congrArg (Prod.map Reply.bytes id) (hands_draw (r := r) rfl).read⟩
  | readBytes buffer offset length =>
    obtain ⟨hrange, rfl⟩ := hc
    refine ⟨fun bytes result => .filled (result.map fun _ => bytes.length)
      (buffer.take offset ++ bytes ++ buffer.drop (offset + bytes.length)), fun r => ?_⟩
    simp only [Call.perform, readBytes, if_neg (Nat.not_lt.2 hrange)]
  | readElements t array offset elements =>
    obtain ⟨hrange, rfl⟩ := hc
    refine ⟨fun bytes result => .elements t
      ((result.map fun _ => bytes.length).bind fun got =>
        if got % t.width ≠ 0 then .error (.format (.tornElement t.width)) else .ok (got / t.width))
      (t.wordsOf array.length ((t.bytesOf array).take (offset * t.width) ++ bytes ++
        (t.bytesOf array).drop (offset * t.width + bytes.length))), fun r => ?_⟩
    have hread := readElements_eq r t hrange
    rw [(hands_draw rfl).readBytes _ _ (byteRange_fits t hrange)] at hread
    simp only [Call.perform, hread]
    cases (r.draw (elements * t.width)).result with
    | error e => rfl
    | ok => rfl
  | _ => exact hc.elim

/-- A read of no more than what is left of the current block only moves within it. It does so over
any source, and tells the same. -/
theorem perform_held (h : r.Placed) {c : Call} {count : Nat} (hc : c.Asks count)
    (hcount : count ≤ r.undrained.length) (source : Source) :
    c.perform { r with source } =
      ((c.perform r).1, { r with source, position := r.position + count }) := by
  obtain ⟨reply, hreply⟩ := perform_of_asks hc
  have hplaced : ({ r with source } : Reader).Placed := by
    refine ⟨fun hbroken => ?_, h.position⟩
    obtain ⟨-, hblock, hposition⟩ := h.sound hbroken
    exact ⟨hbroken, hblock, hposition⟩
  have hmoved := draw_held hplaced hcount
  rw [hreply, hreply, hmoved, draw_held h hcount]
  rfl

theorem perform_pulls (h : r.Placed) {c : Call} {count : Nat} (hc : c.Asks count) :
    ∃ pulls, Pulls r count pulls (c.perform r).2 := by
  obtain ⟨reply, hreply⟩ := perform_of_asks hc
  rw [hreply]
  exact draw_pulls h count

end Reader

end FramedStream
