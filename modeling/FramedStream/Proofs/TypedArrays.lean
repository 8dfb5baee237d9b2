import FramedStream.Proofs.AnyCodec
import FramedStream.Proofs.Codec.Library
import FramedStream.Proofs.Reader.Elements
import FramedStream.Proofs.Reader.Streams
import FramedStream.Proofs.Writer.Session

/-!
# Typed arrays

Arrays of elements go through a stream as their bytes, one after the other, and the blocks are cut
wherever they are full, within an element or not. So a session of typed writes leaves the stream
that any other session with the same bytes leaves, and reads of elements find the elements again.

* `Codec.Bundled.carries` says that a stream of a bundled codec carries its blocks, and
  `Reader.create_serves_bundled` and `Reader.openBundled_serves` are the two ways to open it;
* `Call.Typed` are the typed writes, `Recovers` pairs such a write with a read of its elements and
  with what the reader is told;
* `perform_recovers` is the run of these reads, `GivesBack` what is asked of a reader in all;
* `typed_arrays_survive` puts both sides together.
-/

namespace FramedStream

open Item (blocksOf)

/-! ### Streams of bundled codecs -/

namespace Codec

variable {libs : Libraries} {c : Codec}

/-- What a bundled codec decodes depends on its id only. -/
theorem Bundled.implements (hc : Bundled libs c) :
    c.Implements (Payload.block? (body? libs c.id)) ∧
      c.maxCompressedLength maxBlockSize = payloadLimit c.id := by
  cases hc with
  | passthrough => exact ⟨implements_passthrough, rfl⟩
  | zstd level => exact ⟨implements_ofLibrary _ _ _ _ _, rfl⟩
  | lz4 => exact ⟨implements_ofLibrary _ _ _ _ _, rfl⟩

/-- The id of a bundled codec names a bundled codec, though maybe one of another level. -/
theorem Bundled.ofId_id (hc : Bundled libs c) :
    ∃ c', ofId c.id libs = .ok c' ∧ c'.id = c.id ∧ Bundled libs c' := by
  cases hc with
  | passthrough => exact ⟨_, rfl, rfl, .passthrough⟩
  | zstd level => exact ⟨_, rfl, rfl, .zstd _⟩
  | lz4 => exact ⟨_, rfl, rfl, .lz4⟩

/-- A stream of readable blocks carries them for every bundled codec of its id. -/
theorem Bundled.carries (hc : Bundled libs c) {pack : Bytes → Bytes} {blocks : List Bytes}
    (hblocks : ∀ block ∈ blocks,
      Readable (payloadLimit c.id) (Payload.block? (body? libs c.id)) pack block) :
    c.Carries (framed c.id pack blocks) blocks := by
  obtain ⟨himplements, hlimit⟩ := hc.implements
  refine ⟨heads_current c _, blocks.map pack, ?_, ?_⟩
  · rw [List.forall₂_map_left_iff, List.forall₂_same]
    intro block hmem
    obtain ⟨hpositive, hbounded, hrestored⟩ := hblocks block hmem
    exact himplements.decodes hpositive (hlimit ▸ hbounded)
      (Nat.lt_of_le_of_lt hbounded (payloadLimit_lt _)) hrestored
  · rw [framed, List.drop_left' (Header.length_encode _), records_eq]

end Codec

namespace Reader

/-- What is opened for a codec is the same as what is opened without naming it, if its id is that
of no other. -/
theorem openBundled_of_create {source : Source} {libs : Libraries} {c : Codec} {r : Reader}
    (hc : Codec.ofId c.id libs = .ok c) (h : create source c = .ok r) :
    openBundled source libs = .ok r := by
  unfold create at h
  split at h
  · cases h
  next header source' hread =>
  have hid : header.codecId = c.id := by
    unfold ofParts at h
    split at h
    · cases h
    · next hid => exact not_not.1 hid
  simp only [openBundled, hread, hid, hc]
  exact h

section Bundled

variable {libs : Libraries} {c : Codec} (hc : Codec.Bundled libs c) {pack : Bytes → Bytes}
  {blocks : List Bytes}
  (hblocks : ∀ block ∈ blocks,
    Readable (Codec.payloadLimit c.id) (Payload.block? (Codec.body? libs c.id)) pack block)
  {source : Source} (hsteady : source.Steady) (hrest : source.rest = framed c.id pack blocks)

include hc hblocks hsteady hrest

/-- Whoever names the codec is served the blocks of a stream. -/
theorem create_serves_bundled :
    ∃ r, create source c = .ok r ∧ Serves c blocks r ∧ left blocks r = blocks.flatten :=
  create_serves (hc.carries hblocks) hsteady hrest

/-- Whoever leaves it to the header is served the same blocks. -/
theorem openBundled_serves :
    ∃ found r, openBundled source libs = .ok r ∧ Serves found blocks r ∧
      left blocks r = blocks.flatten := by
  obtain ⟨found, hfound, hid, hbundled⟩ := hc.ofId_id
  obtain ⟨r, hopen, hserves, hleft⟩ :=
    create_serves_bundled hbundled (hid ▸ hblocks) hsteady (hid ▸ hrest)
  exact ⟨found, r, openBundled_of_create (hid ▸ hfound) hopen, hserves, hleft⟩

end Bundled

end Reader

/-! ### Typed writes -/

namespace Call

/-- A write of elements of an array, or of all of them. -/
def Typed : Call → Prop
  | .writeElements _ array offset count => offset + count ≤ array.length
  | .writeAllElements _ _ => True
  | _ => False

/-- The bytes of the elements that a typed write is given. -/
def written : Call → Bytes
  | .writeElements t array offset count => t.bytesOf ((array.drop offset).take count)
  | .writeAllElements t array => t.bytesOf array
  | _ => []

theorem Typed.feeds {c : Call} (h : c.Typed) : c.Feeds := by
  cases c with
  | writeElements t array offset count => exact h
  | writeAllElements t array => trivial
  | _ => exact h.elim

theorem Typed.items {c : Call} (h : c.Typed) : c.items = Item.ofBytes c.written := by
  cases c with
  | writeElements t array offset count => rfl
  | writeAllElements t array => rfl
  | _ => exact h.elim

/-- Typed writes do not flush, so they add nothing but their bytes. -/
theorem items_of_typed {writes : List Call} (h : ∀ write ∈ writes, write.Typed) :
    writes.flatMap Call.items = Item.ofBytes (writes.flatMap written) := by
  induction writes with
  | nil => rfl
  | cons write writes ih =>
    obtain ⟨hwrite, hwrites⟩ := List.forall_mem_cons.1 h
    rw [List.flatMap_cons, List.flatMap_cons, hwrite.items, ih hwrites, Item.ofBytes_append]

end Call

namespace Reader

/-! ### Reads of what was written -/

/-- A read of the elements of a typed write, to some place in an array, with the answer that has
each of them there and everything around it as it was. -/
inductive Recovers : FramedStream.Call → Call × Reply → Prop
  | range {t : ElementType} {array : List t.Word} {offset count : Nat} {target : List t.Word}
      {place : Nat} (fits : place + count ≤ target.length) :
      Recovers (.writeElements t array offset count)
        (.readElements t target place count, .elements t (.ok count)
          (target.take place ++ (array.drop offset).take count ++ target.drop (place + count)))
  | all {t : ElementType} {array target : List t.Word} {place : Nat}
      (fits : place + array.length ≤ target.length) :
      Recovers (.writeAllElements t array)
        (.readElements t target place array.length, .elements t (.ok array.length)
          (target.take place ++ array ++ target.drop (place + array.length)))

variable {c : Codec} {blocks : List Bytes} {r : Reader}

/-- Elements whose bytes come next are read in full. -/
theorem readElements_bytesOf (h : Serves c blocks r) {t : ElementType} {words : List t.Word}
    {rest : Bytes} (hleft : left blocks r = t.bytesOf words ++ rest) {target : List t.Word}
    {place : Nat} (hfits : place + words.length ≤ target.length) :
    ∃ r', r.readElements t target place words.length = ⟨.ok words.length,
        target.take place ++ words ++ target.drop (place + words.length), r'⟩ ∧
      Serves c blocks r' ∧ left blocks r' = rest := by
  obtain ⟨read, hread, hgives, hserves, hrest⟩ := readElements_serves h t hfits
  have hlength := t.length_bytesOf words
  have henough : words.length * t.width ≤ (left blocks r).length := by
    rw [hleft, List.length_append, hlength]
    exact Nat.le_add_right _ _
  obtain ⟨hresult, hbuffer⟩ := hgives.full henough
  rw [hleft, t.wordsOf_bytesOf] at hbuffer
  rw [hleft, List.drop_left' hlength] at hrest
  exact ⟨read.reader, by rw [hread, ← hresult, ← hbuffer], hserves, hrest⟩

theorem perform_call_recovers (h : Serves c blocks r) {write : FramedStream.Call}
    (htyped : write.Typed) {exchange : Call × Reply} (hrecovers : Recovers write exchange)
    {rest : Bytes} (hleft : left blocks r = write.written ++ rest) :
    ∃ r', exchange.1.perform r = (exchange.2, r') ∧ Serves c blocks r' ∧
      left blocks r' = rest := by
  cases hrecovers with
  | @range t array offset count target place fits =>
    have hrange : offset + count ≤ array.length := htyped
    have hcount : ((array.drop offset).take count).length = count := by
      rw [List.length_take, List.length_drop]
      omega
    have hplace : place + ((array.drop offset).take count).length ≤ target.length := by
      rwa [hcount]
    obtain ⟨r', hread, hserves, hrest⟩ := readElements_bytesOf h hleft hplace
    rw [hcount] at hread
    exact ⟨r', by simp only [Call.perform, hread], hserves, hrest⟩
  | all fits =>
    obtain ⟨r', hread, hserves, hrest⟩ := readElements_bytesOf h hleft fits
    exact ⟨r', by simp only [Call.perform, hread], hserves, hrest⟩

/-- Reads of the elements of some writes, one after the other. -/
theorem perform_recovers (h : Serves c blocks r) {writes : List FramedStream.Call}
    (htyped : ∀ write ∈ writes, write.Typed) {exchanges : List (Call × Reply)}
    (hrecovers : List.Forall₂ Recovers writes exchanges) {rest : Bytes}
    (hleft : left blocks r = writes.flatMap FramedStream.Call.written ++ rest) :
    ∃ r', r.perform (exchanges.map Prod.fst) = (exchanges.map Prod.snd, r') ∧
      left blocks r' = rest := by
  -- each write is one read
  induction hrecovers generalizing r with
  | nil => exact ⟨r, rfl, hleft⟩
  | cons hone _ ih =>
    obtain ⟨hwrite, hwrites⟩ := List.forall_mem_cons.1 htyped
    rw [List.flatMap_cons, List.append_assoc] at hleft
    obtain ⟨r₁, hperform, hserves, hleft₁⟩ := perform_call_recovers h hwrite hone hleft
    obtain ⟨r', hrun, hrest⟩ := ih hserves hwrites hleft₁
    refine ⟨r', ?_, hrest⟩
    rw [List.map_cons, perform_cons, hperform, hrun, List.map_cons]

/-- A reader that gives typed writes back. -/
structure GivesBack (writes : List FramedStream.Call) (blocks : List Bytes) (r : Reader) :
    Prop where
  /-- Reads with the types and counts of the writes find the elements, as far as they go. -/
  recovers : ∀ front back exchanges, writes = front ++ back →
    List.Forall₂ Recovers front exchanges →
    ∃ r', r.perform (exchanges.map Prod.fst) = (exchanges.map Prod.snd, r') ∧
      left blocks r' = back.flatMap FramedStream.Call.written
  /-- Whatever was read before, the next read of elements gets those that are left, and a part of
  one is an error. -/
  gives : ∀ calls, r.Orderly calls → ∃ r', (r.perform calls).2 = r' ∧
    left blocks r' <:+ writes.flatMap FramedStream.Call.written ∧
    ∀ (t : ElementType) (array : List t.Word) (offset count : Nat),
      offset + count ≤ array.length →
      GivesElements t array offset count (left blocks r') (r'.readElements t array offset count)

theorem Serves.givesBack (h : Serves c blocks r) {writes : List FramedStream.Call}
    (htyped : ∀ write ∈ writes, write.Typed)
    (hleft : left blocks r = writes.flatMap FramedStream.Call.written) :
    GivesBack writes blocks r where
  recovers front back exchanges hsplit hrecovers := by
    rw [hsplit, List.flatMap_append] at hleft
    have hfront : ∀ write ∈ front, write.Typed :=
      fun write hmem => htyped write (hsplit ▸ List.mem_append_left back hmem)
    exact perform_recovers h hfront hrecovers hleft
  gives calls hcalls := by
    obtain ⟨hserves, hsuffix⟩ := perform_orderly h hcalls
    refine ⟨_, rfl, hleft ▸ hsuffix, fun t array offset count hrange => ?_⟩
    obtain ⟨read, hread, hgives, -⟩ := readElements_serves hserves t hrange
    exact hread ▸ hgives

end Reader

/-- Typed writes survive the framing, whatever the block size. Their stream is that of every
session which writes the bytes of the same elements, and whoever opens it, naming the codec or not,
reads the elements back, as many as there are. -/
theorem typed_arrays_survive {libs : Libraries} (hlibs : libs.Inverse) {codec : Codec}
    (hcodec : Codec.Bundled libs codec) {blockSize : Nat} (hpos : 0 < blockSize)
    (hmax : blockSize ≤ maxBlockSize) {sink : Sink} (hsink : sink.NeverFails) {writes : List Call}
    (hwrites : ∀ write ∈ writes, write.Typed) {ending : Call} (hending : ending.Ends) :
    ∃ w start w' stream blocks, Writer.create sink codec blockSize = (.ok w, start) ∧
      w.perform (writes ++ [ending]) = ((writes ++ [ending]).map (·.answer (.ok ())), w') ∧
      w'.sink.toList = sink.toList ++ stream ∧
      (∀ others : List Call, (∀ c ∈ others, c.Feeds) →
        others.flatMap Call.items = Item.ofBytes (writes.flatMap Call.written) →
        ∀ ending' : Call, ending'.Ends →
          (w.perform (others ++ [ending'])).2.sink.toList = sink.toList ++ stream) ∧
      blocks.flatten = writes.flatMap Call.written ∧
      ∀ source : Source, source.Steady → source.rest = stream →
        (∃ r, Reader.create source codec = .ok r ∧ Reader.GivesBack writes blocks r) ∧
        ∃ r, Reader.openBundled source libs = .ok r ∧ Reader.GivesBack writes blocks r := by
  obtain ⟨-, pack, hrestores⟩ := Codec.restores_bundled hlibs hcodec hmax
  obtain ⟨w, start, hcreate, hsession⟩ :=
    Writer.contents_of_session hsink hpos hmax hrestores.toPacks
  have hfeeds : ∀ write ∈ writes, write.Feeds := fun write hmem => (hwrites write hmem).feeds
  have hitems := Call.items_of_typed hwrites
  obtain ⟨w', hrun, hcontents, -⟩ := hsession writes hfeeds ending hending
  have hblocks : ∀ block ∈ blocksOf blockSize (writes.flatMap Call.items),
      block ≠ [] ∧ block.length ≤ blockSize := fun _ => Item.length_of_mem_blocksOf
  have hreadable := hrestores.readable hblocks
  have hflatten : (blocksOf blockSize (writes.flatMap Call.items)).flatten =
      writes.flatMap Call.written := by
    rw [Item.flatten_blocksOf hpos, hitems, Item.bytes_ofBytes]
  refine ⟨w, start, w', framed codec.id pack (blocksOf blockSize (writes.flatMap Call.items)),
    blocksOf blockSize (writes.flatMap Call.items), hcreate, hrun, hcontents, ?_, hflatten, ?_⟩
  · intro others hothers hsame ending' hending'
    obtain ⟨w'', hrun', hcontents', -⟩ := hsession others hothers ending' hending'
    rw [hrun', hcontents', hsame, ← hitems]
    rfl
  · intro source hsteady hrest
    obtain ⟨r, hcreate, hserves, hleft⟩ :=
      Reader.create_serves_bundled hcodec hreadable hsteady hrest
    obtain ⟨found, r', hopen, hserves', hleft'⟩ :=
      Reader.openBundled_serves hcodec hreadable hsteady hrest
    exact ⟨⟨r, hcreate, hserves.givesBack hwrites (hleft.trans hflatten)⟩,
      r', hopen, hserves'.givesBack hwrites (hleft'.trans hflatten)⟩

/-- Two numbers of two bytes and one of four in blocks of three bytes, so that none of the blocks
ends where an element does but the last. Where four bytes are left there is no number of eight. -/
theorem typed_arrays_survive_straddling :
    ∃ w start stream r r', Writer.create .unlimited (.zstd 3 .plain) 3 = (.ok w, start) ∧
      (w.perform [.writeElements .u16 [6, 7, 8] 1 2, .writeAllElements .u32 [0x01020304],
        .drop]).2.sink.toList = stream ∧
      (w.perform [.writeBytes [7, 0, 8, 0, 4, 3, 2, 1] 0 8, .close]).2.sink.toList = stream ∧
      Reader.openBundled (Reader.hesitant stream) .plain = .ok r ∧
      (r.perform [.readElements .u16 [0, 0, 0, 9] 1 2, .readElements .u32 [0, 5] 0 1]).1 =
        [.elements .u16 (.ok 2) [0, 7, 8, 9], .elements .u32 (.ok 1) [0x01020304, 5]] ∧
      (r.perform [.readElements .u16 [0, 0, 0, 9] 1 2]).2 = r' ∧
      (r'.readElements .u64 [0] 0 1).result = .error (.format (.tornElement 8)) := by
  have htyped : ∀ write ∈ [Call.writeElements .u16 [6, 7, 8] 1 2,
      .writeAllElements .u32 [0x01020304]], write.Typed := by simp [Call.Typed]
  have hdrop : Call.drop.Ends := trivial
  obtain ⟨w, start, w', stream, blocks, hcreate, hrun, hcontents, hsame, -, hread⟩ :=
    typed_arrays_survive Libraries.plain_inverse (.zstd 3) (by decide : 0 < 3) (by decide)
      Sink.neverFails_unlimited htyped hdrop
  obtain ⟨-, r, hopen, hgives⟩ := hread (Reader.hesitant stream) (Reader.steady_hesitant stream) rfl
  have hfirst : Reader.Recovers (.writeElements .u16 [6, 7, 8] 1 2)
      (.readElements .u16 [0, 0, 0, 9] 1 2, .elements .u16 (.ok 2) [0, 7, 8, 9]) :=
    .range (by decide)
  have hsecond : Reader.Recovers (.writeAllElements .u32 [0x01020304])
      (.readElements .u32 [0, 5] 0 1, .elements .u32 (.ok 1) [0x01020304, 5]) := .all (by decide)
  obtain ⟨_, hboth, -⟩ := hgives.recovers _ [] _ rfl (.cons hfirst (.cons hsecond .nil))
  obtain ⟨r', hone, hleft⟩ := hgives.recovers [_] [_] _ rfl (.cons hfirst .nil)
  have hperform : (r.perform [.readElements .u16 [0, 0, 0, 9] 1 2]).2 = r' :=
    congrArg Prod.snd hone
  obtain ⟨_, hafter, -, hnext⟩ :=
    hgives.gives [.readElements .u16 [0, 0, 0, 9] 1 2] ⟨(by decide : 1 + 2 ≤ 4), trivial⟩
  obtain rfl := hperform.symm.trans hafter
  have htorn := (hnext .u64 [0] 0 1 (by decide)).torn
  rw [hleft] at htorn
  refine ⟨w, start, stream, r, r', hcreate, ?_, ?_, hopen, congrArg Prod.fst hboth, hperform,
    htorn (by decide) (by decide)⟩
  · exact (congrArg (·.2.sink.toList) hrun).trans hcontents
  · exact hsame [.writeBytes [7, 0, 8, 0, 4, 3, 2, 1] 0 8] (by simp [Call.Feeds]) (by decide) .close
      trivial

end FramedStream
