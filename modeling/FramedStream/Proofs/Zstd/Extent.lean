import FramedStream.Proofs.Zstd.Frame

/-!
# A frame ends where it ends

Everything in a frame says how long it is, so what a decoder reads does not depend on what follows,
and a frame that is cut is not a frame.

* `decodeFrame_append` and the lemmas before it: bytes that follow are left over;
* `decodeBlocks_rest`: where the blocks end does not depend on what they make;
* `FrameOf` is one frame that states the size of its content. It can neither be cut
  (`FrameOf.cut`) nor followed by bytes that are no frame (`FrameOf.trailing`), and whatever room
  it is given, it makes as many bytes as it states or fails (`FrameOf.size_of_decode`).
-/

namespace FramedStream.Zstd

open Bytes (toNatLE split?)

/-! ### What follows is left over -/

theorem split?_more {count : Nat} {bytes front rest : Bytes}
    (h : split? count bytes = some (front, rest)) (more : Bytes) :
    split? count (bytes ++ more) = some (front, rest ++ more) := by
  obtain ⟨rfl, hlength⟩ := Bytes.split?_eq_some.1 h
  rw [List.append_assoc]
  exact Bytes.split?_append hlength (rest ++ more)

theorem FrameHeader.read_append {bytes rest : Bytes} {header : FrameHeader}
    (h : read bytes = .ok (header, rest)) (more : Bytes) :
    read (bytes ++ more) = .ok (header, rest ++ more) := by
  cases bytes with
  | nil => cases h
  | cons descriptor bytes =>
    simp only [read] at h
    simp only [List.cons_append, read]
    split at h
    · cases h
    next window afterWindow h₁ =>
    rw [split?_more h₁ more]
    simp only
    split at h
    · cases h
    next dictionary afterDictionary h₂ =>
    rw [split?_more h₂ more]
    simp only
    split at h
    · cases h
    next field afterField h₃ =>
    rw [split?_more h₃ more]
    simp only
    split at h
    · cases h
    next hplain =>
    rw [if_neg hplain]
    split at h
    · cases h
      rfl
    split at h
    · cases h
    · cases h
      rfl

theorem decodeBlock_append {bounds : Bounds} {blockMax : Nat} {s s' : FrameState} {isLast : Bool}
    {bytes rest : Bytes} (h : decodeBlock bounds blockMax s bytes = .ok (s', isLast, rest))
    (more : Bytes) :
    decodeBlock bounds blockMax s (bytes ++ more) = .ok (s', isLast, rest ++ more) := by
  unfold decodeBlock at h ⊢
  split at h
  · cases h
  next field after hfield =>
  rw [split?_more hfield more]
  simp only at h ⊢
  -- the header says how the block is stored, and so how much of what follows it takes
  split at h
  · split at h
    · cases h
    next content rest' hcontent =>
    rw [split?_more hcontent more]
    simp only
    split at h
    · cases h
    next hroom =>
    cases h
    rw [if_neg hroom]
  · split at h
    · cases h
    split at h
    · cases h
    next hroom =>
    cases h
    simp only [List.cons_append]
    rw [if_neg hroom]
  · split at h
    · cases h
    next content rest' hcontent =>
    rw [split?_more hcontent more]
    simp only
    split at h
    · cases h
    next hsize =>
    rw [if_neg hsize]
    split at h
    · cases h
    · cases h
      rfl
  · cases h

theorem decodeBlocks_append {bounds : Bounds} {blockMax : Nat} {s : FrameState}
    {out : Array UInt8} {bytes rest : Bytes}
    (h : decodeBlocks bounds blockMax s bytes = .ok (out, rest)) (more : Bytes) :
    decodeBlocks bounds blockMax s (bytes ++ more) = .ok (out, rest ++ more) := by
  fun_induction decodeBlocks bounds blockMax s bytes with
  | case1 => cases h
  | case2 s bytes s' rest' hblock =>
    cases h
    rw [decodeBlocks_of_decodeBlock (decodeBlock_append hblock more)]
    rfl
  | case3 s bytes s' rest' hblock _ ih =>
    rw [decodeBlocks_of_decodeBlock (decodeBlock_append hblock more), if_neg Bool.false_ne_true]
    exact ih h

theorem checkContent_append {header : FrameHeader} {content : Array UInt8} {bytes rest : Bytes}
    (h : checkContent header content bytes = .ok rest) (more : Bytes) :
    checkContent header content (bytes ++ more) = .ok (rest ++ more) := by
  unfold checkContent at h ⊢
  split at h
  · cases h
  next hsize =>
  rw [if_neg hsize]
  split at h
  · next hchecksum =>
    rw [if_pos hchecksum]
    split at h
    · cases h
    next field rest' hfield =>
    rw [split?_more hfield more]
    simp only
    split at h
    · next hdigest =>
      cases h
      rw [if_pos hdigest]
    · cases h
  · next hchecksum =>
    cases h
    rw [if_neg hchecksum]

/-- A frame is read up to its end, whatever follows. -/
theorem decodeFrame_append {room : Nat} {out made : Array UInt8} {bytes rest : Bytes}
    (h : decodeFrame room out bytes = .ok (made, rest)) (more : Bytes) :
    decodeFrame room out (bytes ++ more) = .ok (made, rest ++ more) := by
  unfold decodeFrame at h ⊢
  split at h
  · cases h
  next header blocks hheader =>
  rw [FrameHeader.read_append hheader more]
  simp only
  split at h
  · cases h
  next made' trailer hblocks =>
  rw [decodeBlocks_append hblocks more]
  simp only
  cases hcheck : checkContent header (made'.extract out.size made'.size) trailer with
  | error fault => rw [hcheck] at h; cases h
  | ok rest' =>
    rw [hcheck] at h
    cases h
    rw [checkContent_append hcheck more]
    rfl

/-! ### Where blocks end -/

/-- How many bytes a block takes behind its header, which holds this number. -/
def blockLength (number : Nat) : Nat := if number / 2 % 4 = 1 then 1 else number / 8

theorem split?_one (byte : UInt8) (rest : Bytes) : split? 1 (byte :: rest) = some ([byte], rest) :=
  rfl

/-- The mark and the end of a block are told by its header. -/
theorem split?_of_decodeBlock {bounds : Bounds} {blockMax : Nat} {s s' : FrameState}
    {isLast : Bool} {bytes rest : Bytes}
    (h : decodeBlock bounds blockMax s bytes = .ok (s', isLast, rest)) :
    ∃ field after content, split? 3 bytes = some (field, after) ∧
      isLast = decide (toNatLE field % 2 = 1) ∧
      split? (blockLength (toNatLE field)) after = some (content, rest) := by
  unfold decodeBlock at h
  split at h
  · cases h
  next field after hfield =>
  simp only at h
  split at h
  · next hkind =>
    have hlength : blockLength (toNatLE field) = toNatLE field / 8 := if_neg (by omega)
    split at h
    · cases h
    next content rest' hcontent =>
    split at h
    · cases h
    cases h
    exact ⟨field, after, content, hfield, rfl, hlength ▸ hcontent⟩
  · next hkind =>
    have hlength : blockLength (toNatLE field) = 1 := if_pos hkind
    split at h
    · cases h
    next byte rest' =>
    split at h
    · cases h
    cases h
    exact ⟨field, _, [byte], hfield, rfl, hlength ▸ split?_one byte rest⟩
  · next hkind =>
    have hlength : blockLength (toNatLE field) = toNatLE field / 8 := if_neg (by omega)
    split at h
    · cases h
    next content rest' hcontent =>
    split at h
    · cases h
    split at h
    · cases h
    cases h
    exact ⟨field, after, content, hfield, rfl, hlength ▸ hcontent⟩
  · cases h

theorem decodeBlock_rest {bounds bounds' : Bounds} {blockMax blockMax' : Nat}
    {s s₁ s' s₁' : FrameState} {isLast isLast' : Bool} {bytes rest rest' : Bytes}
    (h : decodeBlock bounds blockMax s bytes = .ok (s₁, isLast, rest))
    (h' : decodeBlock bounds' blockMax' s' bytes = .ok (s₁', isLast', rest')) :
    isLast' = isLast ∧ rest' = rest := by
  obtain ⟨field, after, content, hfield, hlast, hcontent⟩ := split?_of_decodeBlock h
  obtain ⟨field', after', content', hfield', hlast', hcontent'⟩ := split?_of_decodeBlock h'
  cases hfield.symm.trans hfield'
  cases hcontent.symm.trans hcontent'
  exact ⟨hlast'.trans hlast.symm, rfl⟩

/-- Blocks that decode start with one that does. -/
theorem exists_decodeBlock {bounds : Bounds} {blockMax : Nat} {s : FrameState}
    {out : Array UInt8} {bytes rest : Bytes}
    (h : decodeBlocks bounds blockMax s bytes = .ok (out, rest)) :
    ∃ s' isLast after, decodeBlock bounds blockMax s bytes = .ok (s', isLast, after) := by
  rw [decodeBlocks] at h
  split at h
  · cases h
  · next heq => exact ⟨_, _, _, heq⟩
  · next heq => exact ⟨_, _, _, heq⟩

/-- Two readings of the same blocks end at the same place, whatever they make. -/
theorem decodeBlocks_rest {bounds bounds' : Bounds} {blockMax blockMax' : Nat}
    {s s' : FrameState} {out out' : Array UInt8} {bytes rest rest' : Bytes}
    (h : decodeBlocks bounds blockMax s bytes = .ok (out, rest))
    (h' : decodeBlocks bounds' blockMax' s' bytes = .ok (out', rest')) : rest' = rest := by
  obtain ⟨s₁', isLast', after', hblock'⟩ := exists_decodeBlock h'
  rw [decodeBlocks_of_decodeBlock hblock'] at h'
  fun_induction decodeBlocks bounds blockMax s bytes generalizing s' s₁' isLast' after' with
  | case1 => cases h
  | case2 s bytes s₁ after hblock =>
    cases h
    obtain ⟨rfl, rfl⟩ := decodeBlock_rest hblock hblock'
    cases h'
    rfl
  | case3 s bytes s₁ after hblock _ ih =>
    obtain ⟨rfl, rfl⟩ := decodeBlock_rest hblock hblock'
    rw [if_neg Bool.false_ne_true] at h'
    obtain ⟨s₂', isLast₂, after₂, hblock₂⟩ := exists_decodeBlock h'
    rw [decodeBlocks_of_decodeBlock hblock₂] at h'
    exact ih h s₂' isLast₂ after₂ h' hblock₂

/-! ### One frame -/

/-- Bytes that are one frame, which states the size of its content. -/
inductive FrameOf : (content body : Bytes) → Prop
  | intro {after blocks : Bytes} {made : Array UInt8} {header : FrameHeader}
      (read : FrameHeader.read after = .ok (header, blocks))
      (size : header.contentSize = some made.size)
      (decodes : decodeFrame made.size #[] after = .ok (made, [])) :
      FrameOf made.toList (frameMagic ++ after)

/-- Bytes whose first one no magic number starts with. -/
def StartsNoFrame (bytes : Bytes) : Prop := ∃ first rest, bytes = first :: rest ∧ first.toNat < 0x22

section Frames

variable {room : Nat} {out made : Array UInt8} {bytes after : Bytes}

/-- Something that decodes is at least as long as a magic number. -/
theorem exists_magic (h : decodeFrames room out bytes = .ok made) (hne : bytes ≠ []) :
    ∃ magic after, bytes = magic ++ after ∧ magic.length = 4 := by
  rw [decodeFrames, if_neg (by simpa using hne)] at h
  split at h
  · cases h
  · next magic after hmagic => exact ⟨magic, after, Bytes.split?_eq_some.1 hmagic⟩

theorem exists_decodeFrame (h : decodeFrames room out (frameMagic ++ after) = .ok made) :
    ∃ out' rest, decodeFrame room out after = .ok (out', rest) ∧
      decodeFrames room out' rest = .ok made := by
  cases hframe : decodeFrame room out after with
  | ok outcome =>
    obtain ⟨out', rest⟩ := outcome
    rw [decodeFrames_of_decodeFrame hframe] at h
    exact ⟨out', rest, rfl, h⟩
  | error fault =>
    have hsplit : split? 4 (frameMagic ++ after) = some (frameMagic, after) :=
      Bytes.split?_append (show frameMagic.length = 4 from rfl) after
    have hskip : ∀ bytes, skipFrame? frameMagic bytes = none := fun _ => if_neg (by decide)
    rw [decodeFrames, if_neg (by simp [frameMagic])] at h
    split at h
    · cases h
    next heq =>
    rw [hsplit] at heq
    cases heq
    split at h
    · cases h
    · next heq => rw [hskip] at heq; cases heq
    rw [if_neg (not_not_intro rfl)] at h
    split at h
    · cases h
    · next heq => rw [hframe] at heq; cases heq

theorem decodeFrames_startsNoFrame (hbytes : StartsNoFrame bytes) :
    decodeFrames room out bytes ≠ .ok made := by
  obtain ⟨first, rest, rfl, hfirst⟩ := hbytes
  intro h
  rw [decodeFrames, if_neg (by simp)] at h
  split at h
  · cases h
  next magic after hmagic =>
  obtain ⟨hbytes, hlength⟩ := Bytes.split?_eq_some.1 hmagic
  cases magic with
  | nil => cases hlength
  | cons first' magic =>
    obtain ⟨rfl, -⟩ := List.cons.inj hbytes
    -- neither of the two kinds of magic numbers starts with so small a byte
    have hskip : ∀ bytes, skipFrame? (first :: magic) bytes = none := by
      intro bytes
      refine if_neg ?_
      rw [toNatLE]
      omega
    have hmagic : first :: magic ≠ frameMagic := by
      rintro heq
      obtain ⟨rfl, -⟩ := List.cons.inj heq
      exact absurd hfirst (by decide)
    split at h
    · cases h
    · next heq => rw [hskip] at heq; cases heq
    rw [if_pos hmagic] at h
    cases h

theorem decode_eq_ok {raw : Bytes} (h : decode room bytes = .ok raw) :
    ∃ made, decodeFrames room #[] bytes = .ok made ∧ made.toList = raw := by
  rw [decode] at h
  cases hframes : decodeFrames room #[] bytes with
  | error fault => rw [hframes] at h; cases h
  | ok made =>
    rw [hframes] at h
    exact ⟨made, rfl, Except.ok.inj h⟩

end Frames

variable {content body part extra : Bytes}

/-- What is left of a frame that is cut does not decode. -/
theorem FrameOf.cut (h : FrameOf content body) (hpart : part <+: body) (hne : part ≠ [])
    (hshort : part ≠ body) (raw : Bytes) : decode content.length part ≠ .ok raw := by
  intro hdecode
  obtain ⟨out, hframes, -⟩ := decode_eq_ok hdecode
  obtain ⟨more, hmore⟩ := hpart
  cases h with
  | @intro after blocks made header read size decodes =>
    obtain ⟨magic, rest, rfl, hmagic⟩ := exists_magic hframes hne
    rw [List.append_assoc] at hmore
    obtain ⟨rfl, rfl⟩ := List.append_inj hmore hmagic
    obtain ⟨out', left, hframe, -⟩ := exists_decodeFrame hframes
    -- the part would be a frame, and what was cut off would be left over
    have hwhole := decodeFrame_append hframe more
    rw [Array.length_toList, decodes] at hwhole
    have hnil := congrArg Prod.snd (Except.ok.inj hwhole)
    obtain ⟨-, rfl⟩ := List.append_eq_nil_iff.1 hnil.symm
    exact hshort (by rw [List.append_nil])

/-- A frame is not followed by bytes that start no frame. -/
theorem FrameOf.trailing (h : FrameOf content body) (hextra : StartsNoFrame extra) (raw : Bytes) :
    decode content.length (body ++ extra) ≠ .ok raw := by
  intro hdecode
  obtain ⟨out, hframes, -⟩ := decode_eq_ok hdecode
  cases h with
  | @intro after blocks made header read size decodes =>
    have hframe := decodeFrame_append decodes extra
    rw [Array.length_toList, List.append_assoc, decodeFrames_of_decodeFrame hframe] at hframes
    exact decodeFrames_startsNoFrame hextra hframes

/-- What a frame makes has the size that it states, and its end is told by that of its blocks. -/
theorem decodeFrame_eq_ok {room : Nat} {out made : Array UInt8} {after blocks rest : Bytes}
    {header : FrameHeader} {size : Nat} (h : decodeFrame room out after = .ok (made, rest))
    (hread : FrameHeader.read after = .ok (header, blocks))
    (hsize : header.contentSize = some size) :
    (made.extract out.size made.size).size = size ∧ ∃ trailer,
      decodeBlocks ⟨room, out.size⟩ (min header.windowSize maxBlock) ⟨out, none, none, .initial⟩
        blocks = .ok (made, trailer) ∧
      rest = if header.hasChecksum then trailer.drop 4 else trailer := by
  rw [decodeFrame, hread] at h
  simp only at h
  split at h
  · cases h
  next made' trailer hblocks =>
  cases hcheck : checkContent header (made'.extract out.size made'.size) trailer with
  | error fault => rw [hcheck] at h; cases h
  | ok rest' =>
    rw [hcheck] at h
    cases h
    rw [checkContent, hsize] at hcheck
    split at hcheck
    · cases hcheck
    next hstated =>
    have hstated : size = made.size - out.size := by simpa using hstated
    refine ⟨by simp [hstated], trailer, hblocks, ?_⟩
    split at hcheck
    · next hchecksum =>
      split at hcheck
      · cases hcheck
      next field after' hfield =>
      obtain ⟨rfl, hlength⟩ := Bytes.split?_eq_some.1 hfield
      split at hcheck
      · cases hcheck
        rw [if_pos hchecksum, List.drop_left' hlength]
      · cases hcheck
    · next hchecksum =>
      cases hcheck
      rw [if_neg hchecksum]

/-- In any room a frame makes as much as it states, or fails. -/
theorem FrameOf.size_of_decode (h : FrameOf content body) {room : Nat} {raw : Bytes}
    (hdecode : decode room body = .ok raw) : raw.length = content.length := by
  obtain ⟨out, hframes, rfl⟩ := decode_eq_ok hdecode
  cases h with
  | @intro after blocks made header read size decodes =>
    obtain ⟨out', rest, hframe, hrest⟩ := exists_decodeFrame hframes
    obtain ⟨-, trailer, hblocks, hend⟩ := decodeFrame_eq_ok decodes read size
    obtain ⟨hsize, trailer', hblocks', hend'⟩ := decodeFrame_eq_ok hframe read size
    -- nothing is left behind this frame in the other room either
    rw [decodeBlocks_rest hblocks hblocks', ← hend] at hend'
    rw [hend', decodeFrames] at hrest
    cases hrest
    simpa using hsize

/-- What is encoded is one frame. -/
theorem frameOf_encode (level : Int) (h : content.length < 2 ^ 32) :
    FrameOf content (encode level content) := by
  obtain ⟨after, hmagic, hread, hframe⟩ := decodeFrame_encode level h
  have hsize : ((#[] : Array UInt8) ++ content).size = content.length := by simp
  have hframeOf := FrameOf.intro hread (congrArg some hsize.symm) (by rwa [hsize])
  rwa [Array.toList_appendList, List.nil_append, ← hmagic] at hframeOf

end FramedStream.Zstd
