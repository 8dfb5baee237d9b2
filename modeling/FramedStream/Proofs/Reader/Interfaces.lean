import FramedStream.Proofs.Reader.Carried

/-!
# One sequence of bytes

Reads into a buffer, reads as I/O and views that are consumed all draw on one sequence of bytes:
what is left of the current block, and then the blocks that are still to come (`left`). Whatever
calls are mixed, each takes its bytes off the front of that sequence. Only `nextBlock` gives
something up, which is what the current block has not handed out.

* `Serves` is a reader of a stream that carries some blocks, between any two calls;
* `nextBlock_serves`, `available_serves` and `drawOnto_serves` go through the ways to go on;
* `Answers` says what the next call gives, `perform_serves` what any calls leave;
* `one_sequence_of_bytes` puts both together for a stream that was just opened.
-/

namespace FramedStream

namespace Reader

/-- A reader of a stream that carries some blocks, of which those from `blocksRead` on are still to
be decoded. -/
structure Serves (c : Codec) (blocks : List Bytes) (r : Reader) : Prop where
  before : ∃ payloads, List.Forall₂ c.Decodes payloads (blocks.drop r.blocksRead) ∧
    Before c (payloads.flatMap record) r
  position : r.position ≤ r.block.length
  small : r.block.length ≤ maxBlockSize

/-- The bytes that have not been handed out or skipped. -/
def left (blocks : List Bytes) (r : Reader) : Bytes :=
  r.undrained ++ (blocks.drop r.blocksRead).flatten

variable {c : Codec} {blocks : List Bytes} {r r' : Reader}

/-! ### The ways to go on -/

/-- A reader that is elsewhere in its block. -/
theorem Serves.moved (h : Serves c blocks r) {position : Nat}
    (hposition : position ≤ r.block.length) :
    Serves c blocks { r with position := position } := by
  obtain ⟨payloads, hdecodes, hbefore⟩ := h.before
  exact ⟨⟨payloads, hdecodes, ⟨hbefore.steady, hbefore.rest, hbefore.codec, hbefore.unbroken⟩⟩,
    hposition, h.small⟩

/-- A reader that is at the start of a block. -/
theorem serves_start {payloads : List Bytes}
    (hdecodes : List.Forall₂ c.Decodes payloads (blocks.drop r.blocksRead))
    (hbefore : Before c (payloads.flatMap record) r)
    (hposition : r.position = 0) (hsmall : r.block.length ≤ maxBlockSize) : Serves c blocks r := by
  refine ⟨⟨payloads, hdecodes, hbefore⟩, ?_, hsmall⟩
  rw [hposition]
  exact Nat.zero_le _

theorem undrained_start {block : Bytes} (hheld : r.block = block) (hposition : r.position = 0) :
    r.undrained = block := by
  rw [undrained, hheld, hposition, List.drop_zero]

/-- Bytes of the current block are passed over. -/
theorem undrained_advance (r : Reader) (count : Nat) :
    ({ r with position := r.position + count } : Reader).undrained = r.undrained.drop count := by
  rw [undrained, undrained, List.drop_drop]

theorem left_advance (blocks : List Bytes) {count : Nat} (hcount : count ≤ r.undrained.length) :
    left blocks { r with position := r.position + count } = (left blocks r).drop count := by
  rw [left, left, List.drop_append_of_le_length hcount, undrained_advance]

/-- The bytes that come next: some of the current block, and then some of what comes behind. -/
theorem take_left (blocks : List Bytes) (r : Reader) (count : Nat) :
    (left blocks r).take count = r.undrained.take count ++
      ((left blocks r).drop (min r.undrained.length count)).take
        (count - min r.undrained.length count) := by
  have hfits : min r.undrained.length count ≤ r.undrained.length := Nat.min_le_left _ _
  have hsplit : count = min r.undrained.length count + (count - min r.undrained.length count) := by
    omega
  have hfront : (left blocks r).take (min r.undrained.length count) = r.undrained.take count := by
    rw [left, List.take_append_of_le_length hfits, List.take_eq_take_iff]
    omega
  rw [← hfront, ← List.take_add, ← hsplit]

/-- The next block, or none at the end. What the current one still holds is skipped. -/
theorem nextBlock_serves (h : Serves c blocks r) :
    ∃ r', r.nextBlock = (.ok blocks[r.blocksRead]?, r') ∧ Serves c blocks r' ∧
      left blocks r = r.undrained ++ left blocks r' ∧
      r'.undrained = blocks[r.blocksRead]?.getD [] ∧ (r'.undrained = [] → left blocks r' = []) := by
  obtain ⟨payloads, hdecodes, hbefore⟩ := h.before
  have hnexts := nexts r
  have hhead : blocks[r.blocksRead]? = (blocks.drop r.blocksRead).head? := List.head?_drop.symm
  rw [hhead, left]
  generalize hahead : blocks.drop r.blocksRead = ahead at hdecodes
  cases hdecodes with
  | nil =>
    obtain ⟨r', hnext, hbefore', hblocks⟩ := nextBlock_over hbefore
    rw [hnext] at hnexts
    cases hnexts with
    | ended _ held position =>
      have hundrained := undrained_start held position
      have hdrop : blocks.drop r'.blocksRead = [] := by rw [hblocks, hahead]
      have hleft : left blocks r' = [] := by rw [left, hundrained, hdrop, List.flatten_nil]; rfl
      have hnone : List.Forall₂ c.Decodes [] (blocks.drop r'.blocksRead) := by
        rw [hdrop]
        exact .nil
      have hserves : Serves c blocks r' := by
        refine serves_start hnone hbefore' position ?_
        rw [held]
        exact Nat.zero_le _
      refine ⟨r', hnext, hserves, ?_, hundrained, fun _ => hleft⟩
      rw [hleft, List.flatten_nil]
  | @cons payload block payloads ahead hblock hrest =>
    rw [List.flatMap_cons] at hbefore
    obtain ⟨r', hnext, hbefore', hblocks⟩ := nextBlock_decodes hbefore hblock
    rw [hnext] at hnexts
    cases hnexts with
    | got _ held position =>
      have hundrained := undrained_start held position
      have hdrop : blocks.drop r'.blocksRead = ahead := by
        rw [hblocks, ← List.tail_drop, hahead, List.tail_cons]
      have hserves : Serves c blocks r' :=
        serves_start (hdrop ▸ hrest) hbefore' position (held ▸ hblock.small)
      refine ⟨r', hnext, hserves, ?_, hundrained, fun hnil => ?_⟩
      · rw [left, hundrained, hdrop, List.flatten_cons]
      · rw [hundrained] at hnil
        exact absurd hnil hblock.nonempty

/-- A view of what is left, which is empty only at the end. -/
theorem available_serves (h : Serves c blocks r) :
    ∃ r', r.available = (.ok r'.undrained, r') ∧ Serves c blocks r' ∧
      left blocks r' = left blocks r ∧ (r'.undrained = [] → left blocks r' = []) := by
  unfold available
  split
  · next hdrained =>
    have hnil : r.undrained = [] := by rw [undrained, hdrained, List.drop_length]
    obtain ⟨r', hnext, hserves, hleft, -, hempty⟩ := nextBlock_serves h
    rw [hnil, List.nil_append] at hleft
    rw [hnext]
    exact ⟨r', rfl, hserves, hleft.symm, hempty⟩
  · next hdrained =>
    refine ⟨r, rfl, h, rfl, fun hnil => ?_⟩
    have hposition := h.position
    rw [undrained, List.drop_eq_nil_iff] at hnil
    omega

/-- The bytes that are handed out when `wanted` are asked for: the next ones, or all there are. -/
structure Gives (blocks : List Bytes) (r : Reader) (wanted : Nat) (bytes : Bytes) (r' : Reader) :
    Prop where
  front : bytes = (left blocks r).take wanted
  rest : left blocks r' = (left blocks r).drop wanted
  /-- Fewer are given only if nothing is left then. -/
  short : bytes.length < wanted → left blocks r' = []

theorem gives_of_take {wanted : Nat} {bytes : Bytes} (hfront : bytes = (left blocks r).take wanted)
    (hrest : left blocks r' = (left blocks r).drop wanted) : Gives blocks r wanted bytes r' := by
  refine ⟨hfront, hrest, fun hshort => ?_⟩
  rw [hfront, List.length_take] at hshort
  rw [hrest, List.drop_eq_nil_iff]
  omega

/-- A read goes on from block to block until it has what it was asked for. -/
theorem drawOnto_serves (gathered : Array UInt8) (count : Nat) (h : Serves c blocks r) :
    ∃ r', drawOnto gathered r count =
        ⟨gathered.toList ++ (left blocks r).take count, .ok (), r'⟩ ∧
      Serves c blocks r' ∧ left blocks r' = (left blocks r).drop count := by
  fun_induction drawOnto gathered r count with
  | case1 gathered r => exact ⟨r, by simp, h, rfl⟩
  | case2 gathered r count hcount e r' heq =>
    obtain ⟨r'', hview, -⟩ := available_serves h
    rw [heq] at hview
    cases hview
  | case3 gathered r count hcount r' heq =>
    obtain ⟨r'', hview, hserves, hleft, hempty⟩ := available_serves h
    rw [heq] at hview
    obtain ⟨hnil, rfl⟩ := Prod.mk.inj hview
    have hover : left blocks r = [] := hleft ▸ hempty (Except.ok.inj hnil).symm
    refine ⟨r', ?_, hserves, ?_⟩
    · rw [hover, List.take_nil, List.append_nil]
    · rw [hleft, hover, List.drop_nil]
  | case4 gathered r count hcount chunk r' heq hchunk hless ih =>
    obtain ⟨r'', hview, hserves, hleft, -⟩ := available_serves h
    rw [heq] at hview
    obtain ⟨hview, rfl⟩ := Prod.mk.inj hview
    obtain rfl := Except.ok.inj hview
    have hfits : min r'.undrained.length count ≤ r'.undrained.length := Nat.min_le_left _ _
    have hposition := hserves.position
    have hlength : r'.undrained.length = r'.block.length - r'.position := List.length_drop
    obtain ⟨r'', hdraw, hserves'', hleft''⟩ := ih (hserves.moved (by omega))
    rw [left_advance blocks hfits, hleft] at hdraw hleft''
    refine ⟨r'', ?_, hserves'', ?_⟩
    · rw [hdraw, ← hleft, take_left blocks r' count]
      simp
    · rw [hleft'', List.drop_drop]
      congr 1
      omega

theorem draw_serves (count : Nat) (h : Serves c blocks r) :
    ∃ r', r.draw count = ⟨(left blocks r).take count, .ok (), r'⟩ ∧ Serves c blocks r' ∧
      left blocks r' = (left blocks r).drop count := by
  obtain ⟨r', hdraw, hserves, hleft⟩ := drawOnto_serves #[] count h
  exact ⟨r', hdraw, hserves, hleft⟩

/-! ### Calls -/

theorem readBytes_serves (h : Serves c blocks r) {buffer : Bytes} {offset length : Nat}
    (hrange : offset + length ≤ buffer.length) :
    ∃ bytes r', r.readBytes buffer offset length =
        ⟨.ok bytes.length, buffer.take offset ++ bytes ++ buffer.drop (offset + bytes.length), r'⟩ ∧
      Serves c blocks r' ∧ Gives blocks r length bytes r' := by
  obtain ⟨r', hdraw, hserves, hleft⟩ := draw_serves length h
  refine ⟨(left blocks r).take length, r', ?_, hserves, gives_of_take rfl hleft⟩
  simp only [readBytes, if_neg (Nat.not_lt.2 hrange), hdraw]
  rfl

theorem read_serves (h : Serves c blocks r) (count : Nat) :
    ∃ bytes r', r.read count = (.ok bytes, r') ∧ Serves c blocks r' ∧
      Gives blocks r count bytes r' := by
  obtain ⟨r', hdraw, hserves, hleft⟩ := draw_serves count h
  refine ⟨(left blocks r).take count, r', ?_, hserves, gives_of_take rfl hleft⟩
  simp only [read, hdraw]

theorem fillBuf_serves (h : Serves c blocks r) :
    ∃ r', r.fillBuf = (.ok r'.undrained, r') ∧ Serves c blocks r' ∧
      left blocks r' = left blocks r ∧ (r'.undrained = [] → left blocks r' = []) := by
  obtain ⟨r', hview, hserves, hleft, hempty⟩ := available_serves h
  refine ⟨r', ?_, hserves, hleft, hempty⟩
  simp only [fillBuf, hview]

/-- Bytes of a view that are consumed are those at its front. -/
theorem consume_serves (h : Serves c blocks r) {count : Nat} (hcount : count ≤ r.undrained.length) :
    Serves c blocks (r.consume count) ∧ Gives blocks r count (r.undrained.take count)
      (r.consume count) := by
  have hposition := h.position
  have hsmall : r.block.length ≤ 2 ^ 26 := h.small
  have hlength : r.undrained.length = r.block.length - r.position := List.length_drop
  -- within a block the sum of positions does not wrap around
  have hconsume : r.consume count = { r with position := r.position + count } := by
    rw [consume, Nat.mod_eq_of_lt (by omega), Nat.min_eq_left (by omega)]
  rw [hconsume]
  refine ⟨h.moved (by omega), gives_of_take ?_ (left_advance blocks hcount)⟩
  rw [left, List.take_append_of_le_length hcount]

/-- The calls that keep to the rules: a destination that is in range, and no more consumed than was
in view. Reads of elements are not among them. -/
def Call.Fair (r : Reader) : Call → Prop
  | .readBytes buffer offset length => offset + length ≤ buffer.length
  | .readElements _ _ _ _ => False
  | .consume count => count ≤ r.undrained.length
  | .nextBlock | .read _ | .fillBuf => True

/-- Calls of which each keeps to the rules when its turn comes. -/
def Fair (r : Reader) : List Call → Prop
  | [] => True
  | call :: calls => call.Fair r ∧ (call.perform r).2.Fair calls

/-- The bytes that a call hands out. A view hands out nothing until it is consumed. -/
def Call.delivered (r : Reader) : Call → Bytes
  | .readBytes buffer offset length =>
      let done := r.readBytes buffer offset length
      match done.result with
      | .ok got => (done.buffer.drop offset).take got
      | .error _ => []
  | .read count =>
      match (r.read count).1 with
      | .ok bytes => bytes
      | .error _ => []
  | .consume count => r.undrained.take count
  | .nextBlock | .readElements _ _ _ _ | .fillBuf => []

/-- The bytes that a call hands out or skips. -/
def Call.passed (r : Reader) : Call → Bytes
  | .nextBlock => r.undrained
  | call => call.delivered r

/-- The bytes that calls hand out, one after the other. -/
def delivered (r : Reader) : List Call → Bytes
  | [] => []
  | call :: calls => call.delivered r ++ (call.perform r).2.delivered calls

/-- The bytes that calls hand out or skip, one after the other. -/
def passed (r : Reader) : List Call → Bytes
  | [] => []
  | call :: calls => call.passed r ++ (call.perform r).2.passed calls

/-- Only `nextBlock` skips anything. -/
theorem passed_eq_delivered {calls : List Call} (h : Call.nextBlock ∉ calls) :
    r.passed calls = r.delivered calls := by
  induction calls generalizing r with
  | nil => rfl
  | cons call calls ih =>
    rw [List.mem_cons, not_or] at h
    have hcall : call.passed r = call.delivered r := by
      cases call with
      | nextBlock => exact absurd rfl h.1
      | _ => rfl
    rw [passed, delivered, hcall, ih h.2]

/-- Each call passes over the front of what is left. -/
theorem perform_call_serves (h : Serves c blocks r) {call : Call} (hcall : call.Fair r) :
    Serves c blocks (call.perform r).2 ∧
      left blocks r = call.passed r ++ left blocks (call.perform r).2 := by
  have hgives : ∀ {wanted bytes r'}, Gives blocks r wanted bytes r' →
      left blocks r = bytes ++ left blocks r' := by
    intro wanted bytes r' hgives
    rw [hgives.front, hgives.rest, List.take_append_drop]
  cases call with
  | nextBlock =>
    obtain ⟨r', hnext, hserves, hleft, -⟩ := nextBlock_serves h
    simp only [Call.perform, hnext, Prod.map_snd, id]
    exact ⟨hserves, hleft⟩
  | readBytes buffer offset length =>
    have hrange : offset + length ≤ buffer.length := hcall
    obtain ⟨bytes, r', hread, hserves, hbytes⟩ := readBytes_serves h hrange
    have hdelivered : (Call.readBytes buffer offset length).passed r = bytes := by
      have hoffset : (buffer.take offset).length = offset := by
        rw [List.length_take]
        omega
      simp only [Call.passed, Call.delivered, hread]
      rw [List.append_assoc, List.drop_left' hoffset, List.take_left]
    simp only [Call.perform, hread, hdelivered]
    exact ⟨hserves, hgives hbytes⟩
  | readElements t array offset count => exact hcall.elim
  | read count =>
    obtain ⟨bytes, r', hread, hserves, hbytes⟩ := read_serves h count
    simp only [Call.perform, Call.passed, Call.delivered, hread, Prod.map_snd, id]
    exact ⟨hserves, hgives hbytes⟩
  | fillBuf =>
    obtain ⟨r', hview, hserves, hleft, -⟩ := fillBuf_serves h
    simp only [Call.perform, hview, Prod.map_snd, id]
    exact ⟨hserves, hleft.symm⟩
  | consume count =>
    obtain ⟨hserves, hbytes⟩ := consume_serves h hcall
    exact ⟨hserves, hgives hbytes⟩

theorem perform_serves (h : Serves c blocks r) {calls : List Call} (hcalls : r.Fair calls) :
    Serves c blocks (r.perform calls).2 ∧
      left blocks r = r.passed calls ++ left blocks (r.perform calls).2 := by
  induction calls generalizing r with
  | nil => exact ⟨h, rfl⟩
  | cons call calls ih =>
    obtain ⟨hcall, hrest⟩ := hcalls
    obtain ⟨hserves, hleft⟩ := perform_call_serves h hcall
    obtain ⟨hserves', hleft'⟩ := ih hserves hrest
    rw [perform_cons]
    refine ⟨hserves', ?_⟩
    rw [hleft, hleft', passed, List.append_assoc]

/-- What a reader answers to the next call, whichever that is. -/
structure Answers (blocks : List Bytes) (r : Reader) : Prop where
  /-- The bytes outside of the part that was read into stay as they were. -/
  readBytes : ∀ buffer offset length, offset + length ≤ buffer.length → ∃ bytes r',
    r.readBytes buffer offset length =
        ⟨.ok bytes.length, buffer.take offset ++ bytes ++ buffer.drop (offset + bytes.length), r'⟩ ∧
      Gives blocks r length bytes r'
  read : ∀ count, ∃ bytes r', r.read count = (.ok bytes, r') ∧ Gives blocks r count bytes r'
  /-- A view is the front of what is left, and empty only at the end. -/
  fillBuf : ∃ view r', r.fillBuf = (.ok view, r') ∧ view <+: left blocks r ∧
    (view = [] → left blocks r = []) ∧ r'.undrained = view ∧ left blocks r' = left blocks r
  consume : ∀ count, count ≤ r.undrained.length →
    Gives blocks r count (r.undrained.take count) (r.consume count)
  /-- The rest of the current block is skipped, and the next one is held then. -/
  nextBlock : ∃ r', r.nextBlock = (.ok blocks[r.blocksRead]?, r') ∧
    left blocks r = r.undrained ++ left blocks r' ∧ r'.undrained = blocks[r.blocksRead]?.getD []

theorem Serves.answers (h : Serves c blocks r) : Answers blocks r where
  readBytes buffer offset length hrange := by
    obtain ⟨bytes, r', hread, -, hbytes⟩ := readBytes_serves h hrange
    exact ⟨bytes, r', hread, hbytes⟩
  read count := by
    obtain ⟨bytes, r', hread, -, hbytes⟩ := read_serves h count
    exact ⟨bytes, r', hread, hbytes⟩
  fillBuf := by
    obtain ⟨r', hview, -, hleft, hempty⟩ := fillBuf_serves h
    refine ⟨r'.undrained, r', hview, ?_, fun hnil => ?_, rfl, hleft⟩
    · rw [← hleft]
      exact List.prefix_append _ _
    · rw [← hleft]
      exact hempty hnil
  consume count hcount := (consume_serves h hcount).2
  nextBlock := by
    obtain ⟨r', hnext, -, hleft, hundrained, -⟩ := nextBlock_serves h
    exact ⟨r', hnext, hleft, hundrained⟩

theorem create_serves {stream : Bytes} (hcarries : c.Carries stream blocks) {source : Source}
    (hsteady : source.Steady) (hrest : source.rest = stream) :
    ∃ r, create source c = .ok r ∧ Serves c blocks r ∧ left blocks r = blocks.flatten := by
  obtain ⟨r, hcreate, hbefore, hzero, hheld, hposition⟩ :=
    create_before hcarries.toHeads hsteady hrest
  obtain ⟨payloads, hdecodes, hrecords⟩ := hcarries.records
  rw [hrecords] at hbefore
  refine ⟨r, hcreate, ⟨⟨payloads, ?_, hbefore⟩, ?_, ?_⟩, ?_⟩
  · rw [hzero]
    exact hdecodes
  · rw [hposition]
    exact Nat.zero_le _
  · rw [hheld]
    exact Nat.zero_le _
  · rw [left, undrained, hheld, hzero, List.drop_nil, List.drop_zero, List.nil_append]

/-- However the ways to read a stream are mixed, they see its content once and in its order. What
calls have handed out is the front of it, and what they have skipped is what a block still held when
the next one was asked for. The next call goes on where the content was left, and gives less than
it is asked for only where the content ends. -/
theorem one_sequence_of_bytes {c : Codec} {stream : Bytes} {blocks : List Bytes}
    (hcarries : c.Carries stream blocks) {source : Source} (hsteady : source.Steady)
    (hrest : source.rest = stream) :
    ∃ r, create source c = .ok r ∧ ∀ calls, r.Fair calls →
      ∃ r', (r.perform calls).2 = r' ∧
        r.passed calls ++ left blocks r' = blocks.flatten ∧
        (Call.nextBlock ∉ calls → r.delivered calls ++ left blocks r' = blocks.flatten) ∧
        r.passed calls ++ r'.undrained = (blocks.take r'.blocksRead).flatten ∧
        Answers blocks r' := by
  obtain ⟨r, hcreate, hserves, hall⟩ := create_serves hcarries hsteady hrest
  refine ⟨r, hcreate, fun calls hcalls => ?_⟩
  obtain ⟨hserves', hleft⟩ := perform_serves hserves hcalls
  rw [hall] at hleft
  refine ⟨_, rfl, hleft.symm, fun hnext => ?_, ?_, hserves'.answers⟩
  · rw [← passed_eq_delivered hnext, hleft]
  · -- the blocks that are still to come are the same on both sides
    generalize (r.perform calls).2 = r' at hleft
    have hsplit : (blocks.take r'.blocksRead).flatten ++ (blocks.drop r'.blocksRead).flatten =
        blocks.flatten := by
      rw [← List.flatten_append, List.take_append_drop]
    rw [hleft, left, ← List.append_assoc] at hsplit
    exact (List.append_cancel_right hsplit).symm

/-- A source that delivers little at a time and is interrupted once. -/
def hesitant (bytes : Bytes) : Source where
  rest := bytes
  script := [.deliverAtMost 3, .fail ⟨.interrupted, "again"⟩]
  pieceLimit := some 7

theorem steady_hesitant (bytes : Bytes) : (hesitant bytes).Steady :=
  ⟨by simp [hesitant, ReadStep.goesOn], by simp [hesitant]⟩

/-- Two bytes and one more. After a read of one byte the next block is asked for, which skips the
other byte of the first. -/
theorem one_sequence_of_bytes_skipped :
    let stream := (Header.current 0).encode ++
      [Payload.encode 2 [1, 2], Payload.encode 1 [3]].flatMap record
    ∃ r r', create (hesitant stream) .passthrough = .ok r ∧
      (r.perform [.read 1, .nextBlock]).2 = r' ∧
      r.passed [.read 1, .nextBlock] ++ left [[1, 2], [3]] r' = [1, 2, 3] ∧
      r.passed [.read 1, .nextBlock] = [1, 2] ∧ r.delivered [.read 1, .nextBlock] = [1] ∧
      Answers [[1, 2], [3]] r' := by
  intro stream
  have hcarries : Codec.passthrough.Carries stream [[1, 2], [3]] := by
    refine ⟨⟨by decide, Header.current 0, by decide, rfl⟩,
      [Payload.encode 2 [1, 2], Payload.encode 1 [3]], .cons ?_ (.cons ?_ .nil), by decide⟩
    · exact @Codec.decodes_passthrough [1, 2] (by simp) (by decide)
    · exact @Codec.decodes_passthrough [3] (by simp) (by decide)
  obtain ⟨r, hcreate, hrun⟩ := one_sequence_of_bytes hcarries (steady_hesitant stream) rfl
  obtain ⟨r', hperform, hpassed, -, -, hanswers⟩ :=
    hrun [.read 1, .nextBlock] ⟨trivial, trivial, trivial⟩
  refine ⟨r, r', hcreate, hperform, hpassed, ?_, ?_, hanswers⟩
  · cases hcreate
    decide +kernel
  · cases hcreate
    decide +kernel

end Reader

end FramedStream
