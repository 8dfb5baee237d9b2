import FramedStream.Proofs.Codec.Packing
import FramedStream.Proofs.Writer.FailingCodec
import FramedStream.Proofs.Writer.Session

/-!
# Streams that a writer has finished

`Writer.Finished` says of a stream that there is a writer which has added it to its sink and was
finished without a failure. Nothing is asked of the sink, which may fail later or not at all, and
nothing of the calls, of which some may have been refused. `Writer.framed_of_finished` is what all
these streams have in common.
-/

namespace FramedStream

namespace Writer

/-- A stream that a writer has left behind its sink's former contents when it was finished, and the
data that it had accepted by then. -/
def Finished (codec : Codec) (blockSize : Nat) (data stream : Bytes) : Prop :=
  ∃ (sink start : Sink) (w w' : Writer) (calls : List Call),
    create sink codec blockSize = (.ok w, start) ∧ w.accepted calls = data ∧
      (w.perform calls).2.finish = (.ok (), w') ∧ w'.sink.toList = sink.toList ++ stream

variable {codec : Codec} {blockSize : Nat} {data stream : Bytes} {pack : Bytes → Bytes}

/-- A new writer of a valid block size, which has sent the header. -/
theorem create_ok {sink start : Sink} {w : Writer}
    (h : create sink codec blockSize = (.ok w, start)) :
    0 < blockSize ∧ blockSize ≤ maxBlockSize ∧ w = fresh start codec blockSize ∧
      start.toList = sink.toList ++ (Header.current codec.id).encode := by
  have hsize : ¬(blockSize = 0 ∨ maxBlockSize < blockSize) := by
    intro hbad
    rw [create, if_pos hbad] at h
    cases h
  have hpos : 0 < blockSize := by omega
  have hmax : blockSize ≤ maxBlockSize := by omega
  rw [create_eq hpos hmax] at h
  have hwrote := sink.wrote_writeAll (Header.current codec.id).encode
  generalize sink.writeAll (Header.current codec.id).encode = outcome at h hwrote
  cases hwrote with
  | whole contents =>
    cases h
    exact ⟨hpos, hmax, rfl, contents⟩
  | torn => cases h

theorem usable_of_finish {w w' : Writer} (h : w.finish = (.ok (), w')) : w.phase = .accepting := by
  by_contra hne
  obtain ⟨e, hunusable⟩ := unusable?_of_ne hne
  simp only [finish, flush, hunusable] at h
  cases h

/-- A payload that such a codec makes is the one that it always makes of this block. -/
theorem eq_pack_of_makes (hpacks : codec.Packs blockSize pack) {call : Nat} {raw payload : Bytes}
    (hne : raw ≠ []) (hsize : raw.length ≤ blockSize)
    (h : codec.Makes call raw (codec.maxCompressedLength blockSize) payload) :
    payload = pack raw := by
  obtain ⟨output, hcompress, -, -, hlength, hfront⟩ := h
  obtain ⟨more, hmore⟩ := hpacks.compress call raw hne hsize
  cases hcompress.symm.trans hmore
  rw [List.take_left] at hfront
  exact (hfront.eq_of_length hlength.symm).symm

theorem recordsOf_eq_records {sent : List (Bytes × Bytes)}
    (h : ∀ block ∈ sent, block.2 = pack block.1) :
    recordsOf sent = records pack (sent.map Prod.fst) := by
  rw [recordsOf, records, List.flatMap_map]
  exact List.flatMap_congr fun block hmem => by rw [h block hmem]

theorem Finished.inRange (h : Finished codec blockSize data stream) :
    0 < blockSize ∧ blockSize ≤ maxBlockSize := by
  obtain ⟨sink, start, w, w', calls, hcreate, -⟩ := h
  obtain ⟨hpos, hmax, -⟩ := create_ok hcreate
  exact ⟨hpos, hmax⟩

/-- A finished stream is the header and the records of blocks that hold the data, each as the codec
has made it. -/
theorem sent_of_finished (h : Finished codec blockSize data stream) :
    ∃ sent, stream = (Header.current codec.id).encode ++ recordsOf sent ∧
      sent.flatMap Prod.fst = data ∧
      ∀ block ∈ sent, 1 ≤ block.1.length ∧ block.1.length ≤ blockSize ∧
        ∃ call, codec.Makes call block.1 (codec.maxCompressedLength blockSize) block.2 := by
  obtain ⟨sink, start, w, w', calls, hcreate, hdata, hfinish, hstream⟩ := h
  obtain ⟨hpos, -, rfl, hstart⟩ := create_ok hcreate
  have hopen := usable_of_finish hfinish
  obtain ⟨sent, hsends⟩ := perform_sends (bounded_fresh hpos start codec) rfl hopen
  obtain ⟨last, w₁, hlast, hnil, hsink⟩ :=
    sends_flushes (c := .finish) hsends.bounded hopen trivial hfinish
  have hall := hsends.trans hlast
  refine ⟨sent ++ last, ?_, ?_, fun block hmem => ?_⟩
  · -- what is in the sink behind its former contents, once as the stream and once as what was sent
    have hcontents : w'.sink.toList = start.toList ++ recordsOf (sent ++ last) :=
      (congrArg Sink.toList hsink).trans hall.contents
    rw [hstream, hstart, List.append_assoc] at hcontents
    exact List.append_cancel_left hcontents
  · have hcarried := hall.carried
    rwa [hnil, List.append_nil, List.append_nil, hdata] at hcarried
  · obtain ⟨hone, hsize⟩ := hall.sizes block hmem
    exact ⟨hone, hsize, hall.made block hmem⟩

/-- A finished stream consists of blocks that hold the data. -/
theorem framed_of_finished (hpacks : codec.Packs blockSize pack)
    (h : Finished codec blockSize data stream) :
    ∃ blocks, stream = framed codec.id pack blocks ∧ blocks.flatten = data ∧
      ∀ block ∈ blocks, block ≠ [] ∧ block.length ≤ blockSize := by
  obtain ⟨sent, hstream, hdata, hsent⟩ := sent_of_finished h
  have hsizes : ∀ block ∈ sent, block.1 ≠ [] ∧ block.1.length ≤ blockSize := by
    intro block hmem
    obtain ⟨hone, hsize, -⟩ := hsent block hmem
    exact ⟨List.length_pos_iff.1 hone, hsize⟩
  have hpayloads : ∀ block ∈ sent, block.2 = pack block.1 := by
    intro block hmem
    obtain ⟨-, -, call, hmakes⟩ := hsent block hmem
    exact eq_pack_of_makes hpacks (hsizes block hmem).1 (hsizes block hmem).2 hmakes
  refine ⟨sent.map Prod.fst, ?_, ?_, fun block hmem => ?_⟩
  · rw [hstream, recordsOf_eq_records hpayloads]
    rfl
  · rw [← List.flatMap_def]
    exact hdata
  · obtain ⟨sent, hsent, rfl⟩ := List.mem_map.1 hmem
    exact hsizes sent hsent

/-- Whatever data there is, it can be written and finished. -/
theorem exists_finished (hpos : 0 < blockSize) (hmax : blockSize ≤ maxBlockSize)
    (hpacks : codec.Packs blockSize pack) (data : Bytes) :
    ∃ stream, Finished codec blockSize data stream := by
  obtain ⟨w, start, hcreate, hw, -⟩ :=
    create_feedable Sink.neverFails_unlimited hpos hmax hpacks
  have hfeeds : (Call.write data).Feeds := trivial
  have hends : Call.finish.Ends := trivial
  obtain ⟨w₁, done, hwrite, hfed⟩ := Call.operate_feedable hw hfeeds
  obtain ⟨w₂, hfinish, -⟩ := Call.operate_end hfed.feedable hends
  have hperform : (w.perform [.write data]).2 = w₁ := by
    rw [perform_cons, hwrite]
    rfl
  have haccepted : w.accepted [.write data] = data := by
    rw [accepted, Call.accepted, hwrite]
    simp [Call.items, accepted]
  exact ⟨w₂.letGo.sink.toList, .unlimited, start, w, w₂.letGo, [.write data], hcreate, haccepted,
    by rw [hperform]; exact hfinish, rfl⟩

end Writer

end FramedStream
