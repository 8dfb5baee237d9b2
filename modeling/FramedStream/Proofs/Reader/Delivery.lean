import FramedStream.Proofs.Reader.Blocks

/-!
# How a source delivers

A source is steady if it only takes its time: each read gives at least a byte while there are any,
or is interrupted and tried again. What a reader makes of its bytes does not depend on the pieces in
which they arrive.

* `Source.Steady.fill`: filling a buffer from a steady source gives what filling it from memory
  gives;
* `Twin` are two readers that differ only in the pieces in which the same bytes will arrive, one of
  which may have them in memory (`twin_inMemory`). Once both are broken, what is in their payload
  buffers may differ as well, for that is up to the source;
* `Fetched` is what comes of a record, and `nextBlock_twin` says that twins give the same.
-/

namespace FramedStream

/-- What a steady source does when it is read. -/
def ReadStep.goesOn : ReadStep → Bool
  | .deliverAtMost count => count ≠ 0
  | .fail failure => failure.kind = .interrupted

namespace Source

/-- A source that delivers all its bytes, in pieces of any size and with any interruptions. -/
structure Steady (s : Source) : Prop where
  script : ∀ step ∈ s.script, step.goesOn
  pieceLimit : s.pieceLimit ≠ some 0

theorem steady_ofBytes (bytes : Bytes) : (ofBytes bytes).Steady :=
  ⟨List.forall_mem_nil _, by simp [ofBytes]⟩

/-- What arrives when a buffer is filled, and what is left. -/
def Fills (s : Source) (count : Nat) (filled : Filled) : Prop :=
  filled.bytes = s.rest.take count ∧
    filled.stop = (if count ≤ s.rest.length then .full else .ended) ∧
    filled.source.Steady ∧ filled.source.rest = s.rest.drop count

theorem Steady.pull {s : Source} (hs : s.Steady) (count : Nat) : s.Fills count (s.pull count) := by
  unfold Source.pull
  split
  · next hzero =>
    subst hzero
    exact ⟨rfl, rfl, hs, rfl⟩
  rw [if_neg hs.pieceLimit]
  refine ⟨rfl, ?_, ⟨hs.script, hs.pieceLimit⟩, rfl⟩
  simp only [List.length_take]
  by_cases hle : count ≤ s.rest.length
  · rw [if_pos hle, if_pos (Nat.min_eq_left hle)]
  · rw [if_neg hle, if_neg (by omega)]

/-- A piece that arrives leaves the rest to be delivered. -/
theorem Fills.after_piece {s : Source} {size count : Nat} {filled : Filled} (hsize : size ≤ count)
    (h : Fills { s with rest := s.rest.drop size } (count - (s.rest.take size).length) filled) :
    s.Fills count { filled with bytes := s.rest.take size ++ filled.bytes } := by
  obtain ⟨hbytes, hstop, hsteady, hrest⟩ := h
  simp only [List.length_drop, List.drop_drop] at hbytes hstop hrest
  have hcount : count - (s.rest.take size).length = count - min size s.rest.length := by
    rw [List.length_take]
  rw [hcount] at hbytes hstop hrest
  by_cases hle : size ≤ s.rest.length
  · rw [Nat.min_eq_left hle] at hbytes hstop hrest
    refine ⟨?_, ?_, hsteady, ?_⟩
    · have h := List.take_add (l := s.rest) (i := size) (j := count - size)
      rw [Nat.add_sub_cancel' hsize] at h
      rw [h, ← hbytes]
    · rw [hstop]
      by_cases hlong : count ≤ s.rest.length
      · rw [if_pos hlong, if_pos (by omega)]
      · rw [if_neg hlong, if_neg (by omega)]
    · rw [hrest, Nat.add_sub_cancel' hsize]
  · -- the piece was the end of what there is
    have hnil : s.rest.drop size = [] := List.drop_of_length_le (by omega)
    rw [hnil, List.take_nil] at hbytes
    refine ⟨?_, ?_, hsteady, ?_⟩
    · rw [hbytes, List.append_nil, List.take_of_length_le (by omega),
        List.take_of_length_le (by omega)]
    · rw [hstop, if_neg (by omega), if_neg (by omega)]
    · rw [hrest, List.drop_of_length_le (by omega), List.drop_of_length_le (by omega)]

theorem Steady.fillAlong (script : List ReadStep) {s : Source} (hs : { s with script }.Steady)
    (count : Nat) : s.Fills count (Source.fillAlong script s count) := by
  induction script generalizing s count with
  | nil => exact Steady.pull hs count
  | cons step script ih =>
    have hstep : step.goesOn := hs.script step List.mem_cons_self
    have hrest : ∀ step' ∈ script, step'.goesOn :=
      fun step' h => hs.script step' (List.mem_cons_of_mem _ h)
    simp only [Source.fillAlong]
    split
    · next hzero =>
      subst hzero
      exact ⟨rfl, rfl, hs, rfl⟩
    next hzero =>
    cases step with
    | fail failure =>
      have hagain : failure.kind = .interrupted := by simpa [ReadStep.goesOn] using hstep
      simp only [if_pos hagain]
      exact ih ⟨hrest, hs.pieceLimit⟩ count
    | deliverAtMost most =>
      have hmost : most ≠ 0 := by simpa [ReadStep.goesOn] using hstep
      simp only
      split
      · next hempty =>
        -- nothing arrives although something was asked for, so nothing was left
        have hnil : s.rest = [] := by
          have h := List.take_eq_nil_iff.1 (List.isEmpty_iff.1 hempty)
          rcases h with h | h
          · omega
          · exact h
        refine ⟨by rw [hnil, List.take_nil], ?_, ⟨hrest, hs.pieceLimit⟩, ?_⟩
        · rw [hnil, if_neg (by simpa using hzero)]
        · rw [hnil, List.drop_nil]
      · exact Fills.after_piece (Nat.min_le_right _ _)
          (ih (s := { s with rest := s.rest.drop (min most count) }) ⟨hrest, hs.pieceLimit⟩ _)

/-- A buffer is filled with what comes next, or with all there is. -/
theorem Steady.fill {s : Source} (hs : s.Steady) (count : Nat) : s.Fills count (s.fill count) :=
  Steady.fillAlong s.script hs count

/-- Two sources that deliver the same bytes, each in its own pieces. -/
structure Same (s s' : Source) : Prop where
  rest : s'.rest = s.rest
  steady : s.Steady
  steady' : s'.Steady

theorem Same.fill {s s' : Source} (h : s.Same s') (count : Nat) :
    (s'.fill count).bytes = (s.fill count).bytes ∧ (s'.fill count).stop = (s.fill count).stop ∧
      (s.fill count).source.Same (s'.fill count).source := by
  obtain ⟨hbytes, hstop, hsteady, hrest⟩ := h.steady.fill count
  obtain ⟨hbytes', hstop', hsteady', hrest'⟩ := h.steady'.fill count
  rw [h.rest] at hbytes' hstop' hrest'
  exact ⟨hbytes'.trans hbytes.symm, hstop'.trans hstop.symm, hrest'.trans hrest.symm, hsteady,
    hsteady'⟩

end Source

namespace Reader

/-- Two readers that differ only in the pieces in which the same bytes will arrive, and in what
their sources have left in the payload buffer if they are broken. -/
inductive Twin (r : Reader) : Reader → Prop
  | intro {s : Source} {buffer : Buffer} (same : r.source.Same s)
      (shown : r.isBroken = false → buffer = r.buffer) : Twin r { r with source := s, buffer }

/-- The same result twice, and readers that are twins. -/
inductive Agrees {α : Type} : Except Error α × Reader → Except Error α × Reader → Prop
  | intro {result : Except Error α} {r r' : Reader} (twin : Twin r r') :
      Agrees (result, r) (result, r')

variable {r r' : Reader}

/-- The same reader with its bytes in memory. -/
def inMemory (r : Reader) : Reader := { r with source := .ofBytes r.source.rest }

/-- Readers that are alike but for their sources. -/
theorem twin_of_same {s : Source} (same : r.source.Same s) : Twin r { r with source := s } :=
  .intro same fun _ => rfl

theorem twin_inMemory (hr : r.source.Steady) : Twin r.inMemory r :=
  twin_of_same (r := r.inMemory) ⟨rfl, Source.steady_ofBytes _, hr⟩

/-- What comes twice of a part of decoding: the same failure, behind which the payload buffers need
not be the same, or else the same result and readers that are alike but for their sources. -/
inductive Fetched {α : Type} : Except Error α × Reader → Except Error α × Reader → Prop
  | failed {e : Error} {r : Reader} {s : Source} {buffer : Buffer} (same : r.source.Same s) :
      Fetched (.error e, r) (.error e, { r with source := s, buffer })
  | got {a : α} {r : Reader} {s : Source} (same : r.source.Same s) :
      Fetched (.ok a, r) (.ok a, { r with source := s })

variable {s : Source}

/-- Where the payload buffers are still the same. -/
theorem fetched_of_same {α : Type} (result : Except Error α) (same : r.source.Same s) :
    Fetched (result, r) (result, { r with source := s }) := by
  cases result with
  | error e => exact .failed same
  | ok a => exact .got same

theorem fetchLength_fetched (same : r.source.Same s) :
    Fetched r.fetchLength { r with source := s }.fetchLength := by
  obtain ⟨hbytes, hstop, hsame⟩ := same.fill blockLengthSize
  simp only [fetchLength, hbytes, hstop]
  exact fetched_of_same (r := { r with source := (r.source.fill blockLengthSize).source }) _ hsame

theorem fetchPayload_fetched (same : r.source.Same s) (length : Nat) :
    Fetched (r.fetchPayload length) ({ r with source := s }.fetchPayload length) := by
  have hlimit : { r with source := s }.maxPayload = r.maxPayload := rfl
  unfold fetchPayload
  rw [hlimit]
  split
  · exact .failed same
  split
  · exact .failed same
  obtain ⟨hbytes, hstop, hsame⟩ := same.fill length
  simp only [hbytes, hstop]
  cases hfull : (r.source.fill length).stop with
  | full =>
    -- all has arrived, so nothing is left to what the sources do with the buffer
    have hlength := r.source.length_fill_full length hfull
    have hfront : ∀ s' : Source, s'.front length (r.source.fill length).bytes =
        (r.source.fill length).bytes := fun s' => s'.front_of_length hlength
    simp only [hfront]
    exact Fetched.got (r := { r with
      source := (r.source.fill length).source
      buffer := r.buffer.refill length (r.source.fill length).bytes }) hsame
  | ended => exact .failed hsame
  | failed failure =>
    simp only
    split
    · exact .failed hsame
    · exact .failed hsame

/-- Unpacking has nothing to do with the source. -/
theorem unpack_fetched (same : r.source.Same s) :
    Fetched r.unpack { r with source := s }.unpack := by
  simp only [unpack, payload]
  split
  · exact .failed same
  split
  · exact .failed same
  split
  · exact .failed same
  split
  · exact .failed same
  · exact .got same

theorem fetch_fetched (same : r.source.Same s) : Fetched r.fetch { r with source := s }.fetch := by
  have hlength := fetchLength_fetched same
  unfold fetch
  generalize r.fetchLength = outcome at hlength ⊢
  generalize { r with source := s }.fetchLength = outcome' at hlength ⊢
  cases hlength with
  | failed same => exact .failed same
  | @got length r₁ s₁ same =>
  cases length with
  | none => exact .got same
  | some length =>
  have hpayload := fetchPayload_fetched same length
  simp only
  generalize r₁.fetchPayload length = outcome at hpayload ⊢
  generalize { r₁ with source := s₁ }.fetchPayload length = outcome' at hpayload ⊢
  cases hpayload with
  | failed same => exact .failed same
  | @got _ r₂ s₂ same =>
  have hunpack := unpack_fetched same
  simp only
  generalize r₂.unpack = outcome at hunpack ⊢
  generalize { r₂ with source := s₂ }.unpack = outcome' at hunpack ⊢
  cases hunpack with
  | failed same => exact .failed same
  | @got block r₃ s₃ same =>
    exact Fetched.got (r := { r₃ with blocksRead := r₃.blocksRead + 1, block }) same

/-- However the bytes arrive, the block is the same. -/
theorem nextBlock_twin (h : Twin r r') : Agrees r.nextBlock r'.nextBlock := by
  obtain @⟨s, buffer, same, shown⟩ := h
  unfold nextBlock
  by_cases hbroken : r.isBroken = true
  · simp only [if_pos hbroken]
    exact .intro (.intro same shown)
  simp only [if_neg hbroken]
  obtain rfl := shown (by simpa using hbroken)
  have hfetch := fetch_fetched (r := r.cleared) same
  have hcleared : ({ r with source := s } : Reader).cleared = { r.cleared with source := s } := rfl
  rw [hcleared]
  generalize r.cleared.fetch = outcome at hfetch ⊢
  generalize { r.cleared with source := s }.fetch = outcome' at hfetch ⊢
  cases hfetch with
  | @failed e r₁ s₁ _ same =>
    exact .intro (.intro (r := { r₁ with isBroken := true }) same nofun)
  | got same => exact .intro (twin_of_same same)

end Reader

end FramedStream
