import FramedStream.Codec.Bundled
import FramedStream.Proofs.Reader.Call
import FramedStream.Proofs.Reader.Delivery

/-!
# Requests to a reader

Everything that can be asked of a reader, the calls of a buffered input that are built on its own
ones included, and what two twins make of it. Twins hold the same and get the same bytes, so they
give the same to every request and are twins again. To look into the payload buffer is no request:
what is there once the reader is broken is up to the source.

* `Request` and `Response`, `Reader.ask` for many requests one after the other;
* `Alike`: the same outcome twice, and twins after it;
* `available_twin`, `drawOnto_twin`, `readBlocksUntil_twin`, `drainBlocks_twin` and `drainOnto_twin`
  go through the loops, `Request.perform_twin` is the step and `ask_twin` the run;
* `OpenedAlike` is opening a stream twice, `readFrom_same` what both find in the header.
-/

namespace FramedStream

namespace Reader

/-- Something asked of a reader. -/
inductive Request
  | call (c : Call)
  | readExact (count : Nat)
  | readToEnd
  | readToString
  | readUntil (delimiter : UInt8)

/-- What is given to a request. -/
inductive Response
  | reply (reply : Reply)
  | bytes (result : Except IoFailure Bytes)
  | text (result : Except IoFailure String)

/-- Carry a request out. -/
def Request.perform : Request → Reader → Response × Reader
  | .call c, r => (c.perform r).map .reply id
  | .readExact count, r => (r.readExact count).map .bytes id
  | .readToEnd, r => r.readToEnd.map .bytes id
  | .readToString, r => r.readToString.map .text id
  | .readUntil delimiter, r => (r.readUntil delimiter).map .bytes id

/-- Carry out requests, one after the other. -/
def ask (r : Reader) : List Request → List Response × Reader
  | [] => ([], r)
  | request :: requests =>
      let (response, r) := request.perform r
      let (responses, r) := r.ask requests
      (response :: responses, r)

theorem ask_cons (r : Reader) (request : Request) (requests : List Request) :
    r.ask (request :: requests) =
      ((request.perform r).1 :: ((request.perform r).2.ask requests).1,
        ((request.perform r).2.ask requests).2) :=
  rfl

/-! ### Twins -/

/-- The same outcome twice, and readers that are twins. -/
inductive Alike {α : Type} : α × Reader → α × Reader → Prop
  | intro {outcome : α} {r r' : Reader} (twin : Twin r r') : Alike (outcome, r) (outcome, r')

theorem Agrees.alike {α : Type} {x y : Except Error α × Reader} (h : Agrees x y) : Alike x y := by
  cases h with
  | intro twin => exact .intro twin

/-- What the one gives, the other one gives as well. -/
theorem Alike.other {α : Type} {x y : α × Reader} (h : Alike x y) {outcome : α} {r₁ : Reader}
    (heq : x = (outcome, r₁)) : ∃ r₁', y = (outcome, r₁') ∧ Twin r₁ r₁' := by
  subst heq
  cases h with
  | @intro _ _ r₁' twin => exact ⟨r₁', rfl, twin⟩

theorem Agrees.other {α : Type} {x y : Except Error α × Reader} (h : Agrees x y)
    {result : Except Error α} {r₁ : Reader} (heq : x = (result, r₁)) :
    ∃ r₁', y = (result, r₁') ∧ Twin r₁ r₁' :=
  h.alike.other heq

/-- Whatever is made of the outcome. -/
theorem Alike.map {α β : Type} {x y : α × Reader} (h : Alike x y) (f : α → β) :
    Alike (x.map f id) (y.map f id) := by
  cases h with
  | intro twin => exact .intro twin

/-- The outcome of a read. -/
def Drawn.outcome (d : Drawn) : (Bytes × Except Error Unit) × Reader :=
  ((d.bytes, d.result), d.reader)

theorem Drawn.of_alike {d d' : Drawn} (h : Alike d.outcome d'.outcome) :
    d'.bytes = d.bytes ∧ d'.result = d.result ∧ Twin d.reader d'.reader := by
  obtain ⟨bytes, result, r⟩ := d
  obtain ⟨bytes', result', r'⟩ := d'
  cases h with
  | intro twin => exact ⟨rfl, rfl, twin⟩

/-- The outcome of a read into a buffer. -/
def ReadInto.outcome {α : Type} (read : ReadInto α) : (Except Error Nat × List α) × Reader :=
  ((read.result, read.buffer), read.reader)

variable {r r' : Reader}

theorem Twin.block (h : Twin r r') : r'.block = r.block := by
  cases h
  rfl

theorem Twin.position (h : Twin r r') : r'.position = r.position := by
  cases h
  rfl

theorem Twin.undrained (h : Twin r r') : r'.undrained = r.undrained := by
  rw [Reader.undrained, h.block, h.position, Reader.undrained]

theorem Twin.moved (h : Twin r r') (position : Nat) :
    Twin { r with position } { r' with position } := by
  obtain ⟨same, shown⟩ := h
  exact .intro (r := { r with position }) same shown

theorem available_twin (h : Twin r r') : Agrees r.available r'.available := by
  have hnext := nextBlock_twin h
  unfold available
  rw [h.position, h.block, h.undrained]
  split
  · generalize r.nextBlock = outcome at hnext ⊢
    generalize r'.nextBlock = outcome' at hnext ⊢
    obtain @⟨result, r₁, r₁', twin⟩ := hnext
    cases result with
    | error e => exact .intro twin
    | ok block =>
      simp only [twin.undrained]
      exact .intro twin
  · exact .intro h

/-- They go on from block to block in step. -/
theorem drawOnto_twin (gathered : Array UInt8) (count : Nat) (h : Twin r r') :
    Alike (drawOnto gathered r count).outcome (drawOnto gathered r' count).outcome := by
  fun_induction drawOnto gathered r count generalizing r' with
  | case1 gathered r =>
    rw [drawOnto, dif_pos rfl]
    exact .intro h
  | case2 gathered r count hcount e r₁ heq =>
    obtain ⟨r₁', hother, twin⟩ := (available_twin h).other heq
    rw [drawOnto, dif_neg hcount, hother]
    exact .intro twin
  | case3 gathered r count hcount r₁ heq =>
    obtain ⟨r₁', hother, twin⟩ := (available_twin h).other heq
    rw [drawOnto, dif_neg hcount, hother]
    exact .intro twin
  | case4 gathered r count hcount chunk r₁ heq hchunk hless ih =>
    obtain ⟨r₁', hother, twin⟩ := (available_twin h).other heq
    rw [drawOnto.eq_def gathered r', dif_neg hcount, hother]
    simp only [dif_neg hchunk]
    rw [twin.position]
    exact ih (twin.moved _)

theorem draw_twin (h : Twin r r') (count : Nat) :
    Alike (r.draw count).outcome (r'.draw count).outcome :=
  drawOnto_twin #[] count h

theorem readBytes_twin (h : Twin r r') (buffer : Bytes) (offset length : Nat) :
    Alike (r.readBytes buffer offset length).outcome
      (r'.readBytes buffer offset length).outcome := by
  obtain ⟨hbytes, hresult, twin⟩ := Drawn.of_alike (draw_twin h length)
  unfold readBytes
  split
  · exact .intro h
  · simp only [hbytes, hresult]
    exact .intro twin

theorem readElements_twin (h : Twin r r') (t : ElementType) (array : List t.Word)
    (offset count : Nat) :
    Alike (r.readElements t array offset count).outcome
      (r'.readElements t array offset count).outcome := by
  unfold readElements
  split
  · exact .intro h
  next byteOffset byteLength _ =>
  have hread := readBytes_twin h (t.bytesOf array) byteOffset byteLength
  generalize r.readBytes (t.bytesOf array) byteOffset byteLength = read at hread ⊢
  generalize r'.readBytes (t.bytesOf array) byteOffset byteLength = read' at hread ⊢
  obtain ⟨result, buffer, r₁⟩ := read
  obtain ⟨result', buffer', r₁'⟩ := read'
  cases hread with
  | intro twin => exact .intro twin

theorem read_twin (h : Twin r r') (count : Nat) : Alike (r.read count) (r'.read count) := by
  obtain ⟨hbytes, hresult, twin⟩ := Drawn.of_alike (draw_twin h count)
  simp only [read, hbytes, hresult]
  exact .intro twin

theorem fillBuf_twin (h : Twin r r') : Alike r.fillBuf r'.fillBuf := by
  have havailable := available_twin h
  unfold fillBuf
  generalize r.available = outcome at havailable ⊢
  generalize r'.available = outcome' at havailable ⊢
  obtain @⟨result, r₁, r₁', twin⟩ := havailable
  cases result with
  | error e => exact .intro twin
  | ok bytes => exact .intro twin

theorem consume_twin (h : Twin r r') (count : Nat) : Twin (r.consume count) (r'.consume count) := by
  obtain ⟨same, shown⟩ := h
  exact .intro (r := r.consume count) same shown

theorem Call.perform_twin (h : Twin r r') (c : Call) : Alike (c.perform r) (c.perform r') := by
  cases c with
  | nextBlock => exact (nextBlock_twin h).alike.map _
  | readBytes buffer offset length =>
    exact (readBytes_twin h buffer offset length).map fun read => Reply.filled read.1 read.2
  | readElements t array offset count =>
    exact (readElements_twin h t array offset count).map fun read => Reply.elements t read.1 read.2
  | read count => exact (read_twin h count).map _
  | fillBuf => exact (fillBuf_twin h).map _
  | consume count => exact .intro (consume_twin h count)

/-! ### Requests that take several calls -/

/-- Both are interrupted, or neither is. -/
theorem readRetried_twin (h : Twin r r') (count : Nat) :
    Alike (r.readRetried count) (r'.readRetried count) := by
  have hread := read_twin h count
  unfold readRetried
  generalize r.read count = outcome at hread ⊢
  generalize r'.read count = outcome' at hread ⊢
  obtain @⟨result, r₁, r₁', twin⟩ := hread
  cases result with
  | ok bytes => exact .intro twin
  | error failure =>
    simp only
    split
    · exact read_twin twin count
    · exact .intro twin

theorem nextBlockRetried_twin (h : Twin r r') : Agrees r.nextBlockRetried r'.nextBlockRetried := by
  have hnext := nextBlock_twin h
  rw [nextBlockRetried_eq, nextBlockRetried_eq]
  generalize r.nextBlock = outcome at hnext ⊢
  generalize r'.nextBlock = outcome' at hnext ⊢
  cases hnext with
  | intro twin => exact .intro twin

theorem readExactOnto_twin (gathered : Array UInt8) (count : Nat) (h : Twin r r') :
    Alike (readExactOnto gathered r count) (readExactOnto gathered r' count) := by
  fun_induction readExactOnto gathered r count generalizing r' with
  | case1 gathered r =>
    rw [readExactOnto, dif_pos rfl]
    exact .intro h
  | case2 gathered r count hcount failure r₁ heq =>
    obtain ⟨r₁', hother, twin⟩ := (readRetried_twin h count).other heq
    rw [readExactOnto, dif_neg hcount, hother]
    exact .intro twin
  | case3 gathered r count hcount r₁ heq =>
    obtain ⟨r₁', hother, twin⟩ := (readRetried_twin h count).other heq
    rw [readExactOnto, dif_neg hcount, hother]
    exact .intro twin
  | case4 gathered r count hcount bytes r₁ heq hbytes hless ih =>
    obtain ⟨r₁', hother, twin⟩ := (readRetried_twin h count).other heq
    rw [readExactOnto.eq_def gathered r', dif_neg hcount, hother]
    simp only [dif_neg hbytes]
    exact ih twin

theorem readBlocksUntil_eq (delimiter : UInt8) (gathered : Array UInt8) (r : Reader) :
    readBlocksUntil delimiter gathered r =
      match r.nextBlockRetried with
      | (.error e, r') => (.error e.toIo, r')
      | (.ok none, r') => (.ok gathered.toList, r')
      | (.ok (some block), r') =>
          match upTo delimiter block with
          | some bytes => (.ok (gathered ++ bytes).toList, { r' with position := bytes.length })
          | none => readBlocksUntil delimiter (gathered ++ block) r' := by
  fun_cases readBlocksUntil delimiter gathered r with
  | case1 e r₁ heq => rw [heq]
  | case2 r₁ heq => rw [heq]
  | case3 block r₁ heq hless bytes hbytes => simp only [heq, hbytes]
  | case4 block r₁ heq hless hnone => simp only [heq, hnone]

theorem readBlocksUntil_twin (delimiter : UInt8) (gathered : Array UInt8) (h : Twin r r') :
    Alike (readBlocksUntil delimiter gathered r) (readBlocksUntil delimiter gathered r') := by
  fun_induction readBlocksUntil delimiter gathered r generalizing r' with
  | case1 gathered r e r₁ heq =>
    obtain ⟨r₁', hother, twin⟩ := (nextBlockRetried_twin h).other heq
    rw [readBlocksUntil_eq, hother]
    exact .intro twin
  | case2 gathered r r₁ heq =>
    obtain ⟨r₁', hother, twin⟩ := (nextBlockRetried_twin h).other heq
    rw [readBlocksUntil_eq, hother]
    exact .intro twin
  | case3 gathered r block r₁ heq hless bytes hbytes =>
    obtain ⟨r₁', hother, twin⟩ := (nextBlockRetried_twin h).other heq
    rw [readBlocksUntil_eq, hother]
    simp only [hbytes]
    exact .intro (twin.moved _)
  | case4 gathered r block r₁ heq hless hnone ih =>
    obtain ⟨r₁', hother, twin⟩ := (nextBlockRetried_twin h).other heq
    rw [readBlocksUntil_eq delimiter gathered r', hother]
    simp only [hnone]
    exact ih twin

theorem readUntil_twin (h : Twin r r') (delimiter : UInt8) :
    Alike (r.readUntil delimiter) (r'.readUntil delimiter) := by
  unfold readUntil
  rw [h.undrained, h.position]
  split
  · exact .intro (h.moved _)
  · exact readBlocksUntil_twin delimiter _ h

theorem drainBlocks_eq (gathered : Array UInt8) (r : Reader) :
    drainBlocks gathered r =
      match r.nextBlockRetried with
      | (.error e, r') => ⟨gathered.toList, .error e, r'⟩
      | (.ok none, r') => ⟨gathered.toList, .ok (), r'⟩
      | (.ok (some block), r') => drainBlocks (gathered ++ block) r' := by
  fun_cases drainBlocks gathered r with
  | case1 e r₁ heq => rw [heq]
  | case2 r₁ heq => rw [heq]
  | case3 block r₁ heq hless => rw [heq]

theorem drainBlocks_twin (gathered : Array UInt8) (h : Twin r r') :
    Alike (drainBlocks gathered r).outcome (drainBlocks gathered r').outcome := by
  fun_induction drainBlocks gathered r generalizing r' with
  | case1 gathered r e r₁ heq =>
    obtain ⟨r₁', hother, twin⟩ := (nextBlockRetried_twin h).other heq
    rw [drainBlocks_eq, hother]
    exact .intro twin
  | case2 gathered r r₁ heq =>
    obtain ⟨r₁', hother, twin⟩ := (nextBlockRetried_twin h).other heq
    rw [drainBlocks_eq, hother]
    exact .intro twin
  | case3 gathered r block r₁ heq hless ih =>
    obtain ⟨r₁', hother, twin⟩ := (nextBlockRetried_twin h).other heq
    rw [drainBlocks_eq gathered r', hother]
    exact ih twin

theorem drainOnto_eq (growth : Growth) (gathered : Array UInt8) (r : Reader) :
    drainOnto growth gathered r =
      match (r.drainBlocks #[]).result with
      | .error e =>
          ⟨gathered.toList ++ (r.drainBlocks #[]).bytes, .error e, (r.drainBlocks #[]).reader⟩
      | .ok () =>
          match growth.absorb (r.drainBlocks #[]).bytes.length with
          | none =>
              ⟨gathered.toList ++ (r.drainBlocks #[]).bytes, .ok (), (r.drainBlocks #[]).reader⟩
          | some growth =>
              drainOnto growth (gathered ++ (r.drainBlocks #[]).bytes)
                (r.drainBlocks #[]).reader := by
  fun_cases drainOnto growth gathered r with
  | case1 run e hfails =>
    have hfails : (r.drainBlocks #[]).result = .error e := hfails
    simp only [hfails]
    rfl
  | case2 run hends hgrowth =>
    have hends : (r.drainBlocks #[]).result = .ok () := hends
    have hgrowth : growth.absorb (r.drainBlocks #[]).bytes.length = none := hgrowth
    simp only [hends, hgrowth]
    rfl
  | case3 run hends growth₁ hgrowth hless =>
    have hends : (r.drainBlocks #[]).result = .ok () := hends
    have hgrowth : growth.absorb (r.drainBlocks #[]).bytes.length = some growth₁ := hgrowth
    simp only [hends, hgrowth]
    rfl

theorem drainOnto_twin (growth : Growth) (gathered : Array UInt8) (h : Twin r r') :
    Alike (drainOnto growth gathered r).outcome (drainOnto growth gathered r').outcome := by
  -- on how often the buffer grows; the cases bind what they have found as a run of their own
  induction growth, gathered, r using drainOnto.induct generalizing r' with
  | case1 growth gathered r run e =>
    next hfails =>
    obtain ⟨hbytes, hresult, twin⟩ := Drawn.of_alike (drainBlocks_twin #[] h)
    have hfails : (r.drainBlocks #[]).result = .error e := hfails
    rw [drainOnto_eq, drainOnto_eq]
    simp only [hbytes, hresult, hfails]
    exact .intro twin
  | case2 growth gathered r run hends =>
    next hgrowth =>
    obtain ⟨hbytes, hresult, twin⟩ := Drawn.of_alike (drainBlocks_twin #[] h)
    have hends : (r.drainBlocks #[]).result = .ok () := hends
    have hgrowth : growth.absorb (r.drainBlocks #[]).bytes.length = none := hgrowth
    rw [drainOnto_eq, drainOnto_eq]
    simp only [hbytes, hresult, hends, hgrowth]
    exact .intro twin
  | case3 growth gathered r run hends growth₁ hgrowth hless =>
    next ih =>
    obtain ⟨hbytes, hresult, twin⟩ := Drawn.of_alike (drainBlocks_twin #[] h)
    have hends : (r.drainBlocks #[]).result = .ok () := hends
    have hgrowth : growth.absorb (r.drainBlocks #[]).bytes.length = some growth₁ := hgrowth
    rw [drainOnto_eq growth gathered r, drainOnto_eq growth gathered r']
    simp only [hbytes, hresult, hends, hgrowth]
    exact ih twin

theorem readToEnd_twin (h : Twin r r') : Alike r.readToEnd r'.readToEnd := by
  have hfirst := drainBlocks_twin r.undrained.toArray h
  unfold readToEnd
  rw [h.undrained]
  generalize r.drainBlocks r.undrained.toArray = first at hfirst ⊢
  generalize r'.drainBlocks r.undrained.toArray = first' at hfirst ⊢
  obtain ⟨bytes, result, r₁⟩ := first
  obtain ⟨bytes', result', r₁'⟩ := first'
  cases hfirst with
  | intro twin =>
  cases result with
  | error e => exact .intro twin
  | ok =>
  simp only
  cases Growth.absorbFirst bytes.length with
  | none => exact .intro twin
  | some growth =>
    obtain ⟨hbytes, hresult, twin'⟩ := Drawn.of_alike (drainOnto_twin growth bytes.toArray twin)
    simp only [hbytes, hresult]
    exact .intro twin'

theorem readToString_twin (h : Twin r r') : Alike r.readToString r'.readToString := by
  have hread := readToEnd_twin h
  unfold readToString
  generalize r.readToEnd = outcome at hread ⊢
  generalize r'.readToEnd = outcome' at hread ⊢
  obtain @⟨result, r₁, r₁', twin⟩ := hread
  cases result with
  | error failure => exact .intro twin
  | ok bytes => exact .intro twin

/-! ### Any requests -/

theorem Request.perform_twin (h : Twin r r') (request : Request) :
    Alike (request.perform r) (request.perform r') := by
  cases request with
  | call c => exact (c.perform_twin h).map _
  | readExact count => exact (readExactOnto_twin #[] count h).map _
  | readToEnd => exact (readToEnd_twin h).map _
  | readToString => exact (readToString_twin h).map _
  | readUntil delimiter => exact (readUntil_twin h delimiter).map _

theorem ask_twin (h : Twin r r') (requests : List Request) :
    Alike (r.ask requests) (r'.ask requests) := by
  induction requests generalizing r r' with
  | nil => exact .intro h
  | cons request requests ih =>
    have hfirst := request.perform_twin h
    rw [ask_cons, ask_cons]
    generalize request.perform r = outcome at hfirst ⊢
    generalize request.perform r' = outcome' at hfirst ⊢
    cases hfirst with
    | @intro response r₁ r₁' twin =>
      have hrest := ih twin
      generalize r₁.ask requests = rest at hrest ⊢
      generalize r₁'.ask requests = rest' at hrest ⊢
      cases hrest with
      | intro twin' => exact .intro twin'

/-! ### Opening -/

/-- A stream that is opened twice: for the same reason it is not, or it is and every sequence of
requests gives the same, whatever the requests are, and leaves twins. -/
inductive OpenedAlike : Except Error Reader → Except Error Reader → Prop
  | refused (e : Error) : OpenedAlike (.error e) (.error e)
  | opened {r r' : Reader} (twin : Twin r r')
      (alike : ∀ requests, Alike (r.ask requests) (r'.ask requests)) :
      OpenedAlike (.ok r) (.ok r')

variable {s s' : Source}

theorem readFrom_same (h : s.Same s') : ∃ result s₁ s₁', Header.readFrom s = (result, s₁) ∧
    Header.readFrom s' = (result, s₁') ∧ s₁.Same s₁' := by
  obtain ⟨hbytes, hstop, hsame⟩ := h.fill headerSize
  simp only [Header.readFrom, hbytes, hstop]
  exact ⟨_, _, _, rfl, rfl, hsame⟩

theorem ofParts_alike (h : s.Same s') (header : Header) (codec : Codec) :
    OpenedAlike (ofParts s header codec) (ofParts s' header codec) := by
  unfold ofParts
  split
  · exact .refused _
  · have twin := twin_of_same (r := ⟨s, header, codec, {}, {}, [], 0, 0, false, 0, 0⟩) h
    exact .opened twin (ask_twin twin)

theorem create_alike (h : s.Same s') (codec : Codec) :
    OpenedAlike (create s codec) (create s' codec) := by
  obtain ⟨result, s₁, s₁', hread, hread', hsame⟩ := readFrom_same h
  simp only [create, hread, hread']
  cases result with
  | error e => exact .refused e
  | ok header => exact ofParts_alike hsame header codec

theorem openBundled_alike (h : s.Same s') (libs : Libraries) :
    OpenedAlike (openBundled s libs) (openBundled s' libs) := by
  obtain ⟨result, s₁, s₁', hread, hread', hsame⟩ := readFrom_same h
  simp only [openBundled, hread, hread']
  cases result with
  | error e => exact .refused e
  | ok header =>
    simp only
    cases Codec.ofId header.codecId libs with
    | error damage => exact .refused _
    | ok codec => exact ofParts_alike hsame header codec

end Reader

end FramedStream
