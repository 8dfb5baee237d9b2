import FramedStream.Proofs.Reader.InPlace
import FramedStream.Proofs.Reader.Payload
import FramedStream.Proofs.Writer.Books
import FramedStream.Proofs.Writer.InPlace

/-!
# Codecs that lie

Writer and reader take from a codec the numbers by which they slice their buffers, and a codec may
report anything. Both look at a number before they use it, so that no slice ends outside its buffer
and no difference is less than zero.

* `Writer.InPlace.Within` and `Reader.InPlace.Within` say how the places stand in their buffers;
* `gives_nextBlock?` is how a block comes to be in view, which takes two numbers of the codec that
  agree and are in range;
* `sessions_never_trap` has it all, for any codec, any sink and any source, after any calls.

What else an input or an output offers, such as reading to the end, is made up of these calls.
-/

namespace FramedStream

namespace Writer

namespace InPlace

/-- The cursor is inside its buffer, which is as long as a block, and the room is as long as the
codec asked for. -/
structure Within (codec : Codec) (blockSize : Nat) (m : InPlace) : Prop where
  cursor : m.cursor ≤ m.uncompressed.length
  uncompressed : m.uncompressed.length = blockSize
  compressed : m.compressed.length = codec.maxCompressedLength blockSize

variable {codec : Codec} {blockSize : Nat} {m : InPlace} {w : Writer}

theorem Mirrors.within (h : Mirrors m w) (hcodec : w.codec = codec)
    (hsize : w.blockSize = blockSize) : m.Within codec blockSize where
  cursor := h.cursor
  uncompressed := h.blockSize.symm.trans hsize
  compressed := by rw [← h.room, Writer.room, hcodec, hsize]

/-- Whatever is asked of a writer in place, it does not trap, and its buffers keep their sizes. -/
theorem session_within {sink start : Sink}
    (hcreate : Writer.create sink codec blockSize = (.ok w, start)) :
    ∃ m, create sink codec blockSize = (.ok m, start) ∧ ∀ calls : List Call,
      ∃ m', m.perform? calls = some ((w.perform calls).1, m') ∧
        Mirrors m' (w.perform calls).2 ∧ m'.Within codec blockSize := by
  obtain ⟨m, hm, hmirrors⟩ := exists_mirror hcreate
  refine ⟨m, hm, fun calls => ?_⟩
  have haudited := create_audited hcreate
  have hbounded := haudited.toBounded
  obtain ⟨m', hends, hm'⟩ := follows_perform hbounded hmirrors calls
  obtain ⟨_, hkept⟩ := (perform_moves hbounded calls).audited haudited
  exact ⟨m', hends, hm', hm'.within hkept.codec_eq hkept.blockSize_eq⟩

end InPlace

end Writer

namespace Reader

namespace InPlace

/-- What is in view is a part of its buffer, and of a block that is not too large. -/
structure Within (m : InPlace) : Prop where
  pos : m.pos ≤ m.len
  len : m.len ≤ m.uncompressed.length
  bounded : m.len ≤ maxBlockSize

variable {codec : Codec} {m m' : InPlace} {r : Reader} {view : Bytes}

theorem Mirrors.within (h : Mirrors m r) : m.Within := ⟨h.pos_le, h.len_le, h.len_max⟩

/-- A block is in view only if the codec has declared its size and has reported that it made as many
bytes. -/
theorem gives_nextBlock? (h : Mirrors m r) (hcodec : r.codec = codec)
    (hnext : m.nextBlock? = some (.ok (some view), m')) :
    codec.Gives m.lengthCalls m.decompressCalls m'.compressed view := by
  obtain ⟨m'', hends, hm''⟩ := follows_nextBlock h
  have hsame := hends.symm.trans hnext
  generalize houtcome : r.nextBlock = outcome at hsame hm''
  obtain ⟨result, r'⟩ := outcome
  cases hsame
  have hgives := gives_nextBlock houtcome
  rwa [hcodec, h.lengthCalls, h.decompressCalls, hm''.payload] at hgives

/-- Whatever is asked of a reader in place, it does not trap, and its places stay in their order. -/
theorem session_within {source : Source} {header : Header}
    (hopen : Reader.ofParts source header codec = .ok r) :
    ∃ m, ofParts source header codec = .ok m ∧ ∀ calls : List Call,
      ∃ m', m.perform? calls = some ((r.perform calls).1, m') ∧ Mirrors m' (r.perform calls).2 ∧
        m'.Within ∧
        (∀ {view : Bytes} {m'' : InPlace}, m'.nextBlock? = some (.ok (some view), m'') →
          codec.Gives m'.lengthCalls m'.decompressCalls m''.compressed view) ∧
        (r.AllFit calls → m.checked? calls = m.perform? calls) ∧
        (¬r.AllFit calls → m.checked? calls = none) := by
  obtain ⟨m, hm, hmirrors⟩ := exists_mirror hopen
  refine ⟨m, hm, fun calls => ?_⟩
  have hstart : r.codec = codec := (remembers_ofParts hopen).1
  obtain ⟨m', hends, hm'⟩ := follows_perform hmirrors calls
  obtain ⟨-, hcodec⟩ := (invariant_stream r.header codec).run ⟨rfl, hstart⟩ calls
  exact ⟨m', hends, hm', hm'.within, gives_nextBlock? hm' hcodec, checked?_of_allFit hmirrors,
    checked?_eq_none hmirrors⟩

end InPlace

end Reader

/-- With any codec, whatever it reports or refuses, over any sink and any source, and whatever is
asked in any order: a writer in place and a reader in place slice no buffer outside of its range and
take no difference below zero, and they tell and leave what a `Writer` and a `Reader` do. After any
calls the cursor of the writer is inside the buffer, which is as long as a block, and its room is as
long as the codec asked for. What the reader has in view is a part of its buffer, and of no more
than `maxBlockSize` bytes. And wherever it views a next block, the codec has declared that length,
which is between 1 and `maxBlockSize`, and has reported that it made as many bytes. Where the sums
of places and counts are checked too, nothing but a sum that exceeds a word is a trap. -/
theorem sessions_never_trap (codec : Codec) :
    (∀ {sink start : Sink} {blockSize : Nat} {w : Writer},
      Writer.create sink codec blockSize = (.ok w, start) →
      ∃ m, Writer.InPlace.create sink codec blockSize = (.ok m, start) ∧
        ∀ calls : List Call, ∃ m', m.perform? calls = some ((w.perform calls).1, m') ∧
          m'.Mirrors (w.perform calls).2 ∧ m'.Within codec blockSize) ∧
    (∀ {source : Source} {header : Header} {r : Reader},
      Reader.ofParts source header codec = .ok r →
      ∃ m, Reader.InPlace.ofParts source header codec = .ok m ∧
        ∀ calls : List Reader.Call, ∃ m', m.perform? calls = some ((r.perform calls).1, m') ∧
          m'.Mirrors (r.perform calls).2 ∧ m'.Within ∧
          (∀ {view : Bytes} {m'' : Reader.InPlace},
            m'.nextBlock? = some (.ok (some view), m'') →
              codec.Gives m'.lengthCalls m'.decompressCalls m''.compressed view) ∧
          (r.AllFit calls → m.checked? calls = m.perform? calls) ∧
          (¬r.AllFit calls → m.checked? calls = none)) := by
  constructor
  · intro sink start blockSize w hcreate
    exact Writer.InPlace.session_within hcreate
  · intro source header r hopen
    exact Reader.InPlace.session_within hopen

/-- A codec that lies in each of its operations: it reports more than its room at first, later more
than it has put there, and a size of a block that is none of those it has declared. -/
def Codec.liar : Codec where
  id := 7
  name := "liar"
  maxCompressedLength _ := 3
  compress call _ _ := if call = 0 then .ok ⟨2 ^ 40, [1, 2, 3, 4, 5]⟩ else .ok ⟨3, [9]⟩
  declaredLength call _ := if call = 0 then .ok 2 else .ok 5
  decompress call _ _ := if call = 0 then .ok ⟨2, [7, 6, 5]⟩ else .ok ⟨2 ^ 40, [8]⟩

/-- A block that was refused is sent once the codec reports a size that is possible. A reader views
one block of such a codec, and may be told to leave out as many bytes as fit a word; the room has
grown for the next one when that is refused. -/
theorem sessions_never_trap_liar :
    (∃ w start m answers m', Writer.create .unlimited .liar 2 = (.ok w, start) ∧
      Writer.InPlace.create .unlimited .liar 2 = (.ok m, start) ∧
      m.perform? [.writeBytes [1, 2, 3] 0 3, .writeByte 4, .finish] = some (answers, m') ∧
      m'.Within .liar 2 ∧
      m'.sink.toList.drop headerSize = [0, 0, 0, 3, 9, 2, 3, 0, 0, 0, 3, 9, 2, 3]) ∧
    ∃ r m replies m' m'',
      Reader.ofParts (.ofBytes [0, 0, 0, 1, 0, 0, 0, 0, 1, 0]) (.current 7) .liar = .ok r ∧
      Reader.InPlace.ofParts (.ofBytes [0, 0, 0, 1, 0, 0, 0, 0, 1, 0]) (.current 7) .liar = .ok m ∧
      m.nextBlock? = some (.ok (some [7, 6]), m'') ∧ Codec.liar.Gives 0 0 [0] [7, 6] ∧
      m.perform? [.read 1, .consume (2 ^ 64 - 2), .read 2, .nextBlock] = some (replies, m') ∧
      m.checked? [.read 1, .consume (2 ^ 64 - 2), .read 2, .nextBlock] = some (replies, m') ∧
      m'.Within ∧ m'.len = 0 ∧ m'.uncompressed.length = 5 := by
  obtain ⟨w, start, hcreate⟩ : ∃ w start, Writer.create .unlimited .liar 2 = (.ok w, start) :=
    ⟨_, _, rfl⟩
  obtain ⟨r, hopen⟩ : ∃ r, Reader.ofParts (.ofBytes [0, 0, 0, 1, 0, 0, 0, 0, 1, 0]) (.current 7)
      .liar = .ok r := ⟨_, rfl⟩
  obtain ⟨hwriter, hreader⟩ := sessions_never_trap .liar
  obtain ⟨m, hm, hwrites⟩ := hwriter hcreate
  obtain ⟨m', hwrote, hmirrors, hwithin⟩ :=
    hwrites [.writeBytes [1, 2, 3] 0 3, .writeByte 4, .finish]
  obtain ⟨n, hn, hreads⟩ := hreader hopen
  obtain ⟨n₀, hnothing, -, -, hgives, -⟩ := hreads []
  obtain ⟨n', hread, hshows, hordered, -, hchecked, -⟩ :=
    hreads [.read 1, .consume (2 ^ 64 - 2), .read 2, .nextBlock]
  have hfit : r.AllFit [.read 1, .consume (2 ^ 64 - 2), .read 2, .nextBlock] := by
    have hposition : ((Reader.Call.read 1).perform r).2.position = 1 := by
      cases hopen
      decide +kernel
    refine ⟨trivial, ?_, trivial, trivial, trivial⟩
    show _ + (2 ^ 64 - 2) < 2 ^ 64
    omega
  obtain ⟨n₁, hnext, hpayload⟩ : ∃ n₁, n.nextBlock? = some (.ok (some [7, 6]), n₁) ∧
      n₁.compressed = [0] := by
    cases hn
    exact ⟨_, rfl, rfl⟩
  have hgrown : (n.perform? [.read 1, .consume (2 ^ 64 - 2), .read 2, .nextBlock]).map
      (fun outcome => outcome.2.uncompressed.length) = some 5 := by
    cases hn
    decide +kernel
  refine ⟨⟨w, start, m, _, m', hcreate, hm, hwrote, hwithin, ?_⟩,
    r, n, _, n', n₁, hopen, hn, hnext, ?_, hread, (hchecked hfit).trans hread, hordered, ?_, ?_⟩
  · rw [← hmirrors.sink]
    cases hcreate
    decide +kernel
  · cases hn
    cases hnothing
    have hblock := hgives hnext
    rwa [hpayload] at hblock
  · rw [← hshows.length_block]
    cases hopen
    decide +kernel
  · rw [hread] at hgrown
    exact Option.some.inj hgrown

end FramedStream
