import FramedStream.Proofs.Header
import FramedStream.Proofs.Slices

/-!
# A field that is read in place

A source that is filled from is read once and again, each time into what is still free of a buffer,
until that is full, the input ends or a read fails for good. A read that is interrupted is made
again.

* `Source.read` is one read, and `fill_eq_read` how filling begins with it;
* `Source.readRounds?` is the loop, with a trap where it slices the buffer. `readRounds?_eq` says
  that it does not trap, comes to its end, and leaves in the buffer what filling gives.
-/

namespace FramedStream

/-- What was filled, with a piece that had arrived before. -/
def Filled.behind (piece : Bytes) (filled : Filled) : Filled :=
  { filled with bytes := piece ++ filled.bytes }

namespace Source

/-- What one read gives that has room for some bytes. -/
def read (s : Source) (room : Nat) : Except IoFailure Bytes × Source :=
  match s.script with
  | .fail failure :: script => (.error failure, { s with script })
  | .deliverAtMost most :: script =>
      (.ok (s.rest.take (min most room)), { s with script, rest := s.rest.drop (min most room) })
  | [] =>
      let count := min (s.pieceLimit.getD room) room
      (.ok (s.rest.take count), { s with rest := s.rest.drop count })

variable {s : Source} {count : Nat}

/-- A read never gives more than there is room for. -/
theorem length_read {bytes : Bytes} {s' : Source} (h : s.read count = (.ok bytes, s')) :
    bytes.length ≤ count ∧ s'.script.length ≤ s.script.length := by
  unfold read at h
  split at h
  · cases h
  · next most script hscript =>
    cases h
    rw [List.length_take, hscript, List.length_cons]
    exact ⟨by omega, Nat.le_succ _⟩
  · next hscript =>
    cases h
    rw [List.length_take, hscript]
    exact ⟨by omega, Nat.le_refl _⟩

/-- A read that fails uses up a part of the script. -/
theorem script_read_error {failure : IoFailure} {s' : Source}
    (h : s.read count = (.error failure, s')) : s'.script.length < s.script.length := by
  unfold read at h
  split at h
  · next hscript =>
    cases h
    rw [hscript]
    exact Nat.lt_succ_self _
  · cases h
  · cases h

/-! ### Filling, one read at a time -/

/-- What filling makes of the first read. -/
def afterRead (count : Nat) : Except IoFailure Bytes × Source → Filled
  | (.error failure, s) =>
      if failure.kind = .interrupted then s.fill count else ⟨[], .failed failure, s⟩
  | (.ok bytes, s) =>
      if bytes = [] then ⟨[], .ended, s⟩ else (s.fill (count - bytes.length)).behind bytes

/-- The script that a source has is not looked at once one is given. -/
theorem fillAlong_script (script script' : List ReadStep) (s : Source) (count : Nat) :
    fillAlong script { s with script := script' } count = fillAlong script s count := by
  induction script generalizing s count with
  | nil => rfl
  | cons step script ih =>
    cases step with
    | deliverAtMost most =>
      have h := ih { s with rest := s.rest.drop (min most count) }
        (count - (s.rest.take (min most count)).length)
      simp only [fillAlong]
      simp only at h
      rw [h]
    | fail failure =>
      simp only [fillAlong]
      rw [ih s count]

/-- A first piece of what is asked for leaves the rest of it to be pulled. -/
theorem pull_piece {size : Nat} (hlimit : s.pieceLimit ≠ some 0) (hsize : size ≤ count)
    (hne : s.rest.take size ≠ []) :
    s.pull count = ({ s with rest := s.rest.drop size }.pull
      (count - (s.rest.take size).length)).behind (s.rest.take size) := by
  have hpiece : (s.rest.take size).length = min size s.rest.length := List.length_take
  have hpos := List.length_pos_iff.2 hne
  by_cases hall : count - (s.rest.take size).length = 0
  · -- the piece is all that was asked for
    have hsame : size = count := by omega
    have hfull : (s.rest.take count).length = count := by
      rw [← hsame]
      omega
    rw [hall, hsame, pull, if_neg (by omega), if_neg hlimit]
    simp only [if_pos hfull, pull, if_true, Filled.behind, List.append_nil]
  by_cases hleft : size ≤ s.rest.length
  · have hlength : (s.rest.take size).length = size := List.length_take_of_le hleft
    rw [hlength] at hall ⊢
    have hsplit : s.rest.take count =
        s.rest.take size ++ (s.rest.drop size).take (count - size) := by
      have h := List.take_add (l := s.rest) (i := size) (j := count - size)
      rwa [Nat.add_sub_cancel' hsize] at h
    have hrest : s.rest.drop count = (s.rest.drop size).drop (count - size) := by
      rw [List.drop_drop, Nat.add_sub_cancel' hsize]
    have hstop : (s.rest.take count).length = count ↔
        ((s.rest.drop size).take (count - size)).length = count - size := by
      rw [hsplit, List.length_append, hlength]
      omega
    unfold pull
    rw [if_neg (by omega), if_neg hlimit, if_neg hall, if_neg hlimit]
    simp only [Filled.behind, hrest, ← hsplit, hstop]
  · -- the piece is all that there was
    have hnil : s.rest.drop size = [] := List.drop_of_length_le (by omega)
    have hwhole : s.rest.take size = s.rest := List.take_of_length_le (by omega)
    have htake : s.rest.take count = s.rest := List.take_of_length_le (by omega)
    have hdrop : s.rest.drop count = [] := List.drop_of_length_le (by omega)
    rw [hwhole] at hall ⊢
    unfold pull
    rw [if_neg (by omega), if_neg hlimit, if_neg hall, if_neg hlimit]
    simp only [Filled.behind, hnil, htake, hdrop, List.take_nil, List.drop_nil, List.append_nil,
      List.length_nil]
    rw [if_neg (by omega), if_neg (by omega)]

theorem fill_of_nil (h : s.script = []) : s.fill count = s.pull count := by
  cases s
  subst h
  rfl

/-- Nothing is taken with nothing. -/
theorem drop_of_take_nil {bytes : Bytes} (h : bytes.take count = []) :
    bytes.drop count = bytes := by
  have hsplit := List.take_append_drop count bytes
  rwa [h, List.nil_append] at hsplit

/-- Without a script the first read is of a piece, and an end where there is none. -/
theorem pull_eq_read (hscript : s.script = []) (hcount : 0 < count) {size : Nat}
    (hsize : size = min (s.pieceLimit.getD count) count) :
    s.pull count =
      afterRead count (.ok (s.rest.take size), { s with rest := s.rest.drop size }) := by
  simp only [afterRead]
  by_cases hempty : s.rest.take size = []
  · rw [if_pos hempty, drop_of_take_nil hempty, pull, if_neg (by omega)]
    by_cases hlimit : s.pieceLimit = some 0
    · rw [if_pos hlimit]
    · have hpos : 0 < size := by
        cases hpieces : s.pieceLimit with
        | none =>
          rw [hpieces, Option.getD_none] at hsize
          omega
        | some most =>
          rw [hpieces, Option.getD_some] at hsize
          have hmost : most ≠ 0 := fun h => hlimit (by rw [hpieces, h])
          omega
      have hnil : s.rest = [] := by
        rcases List.take_eq_nil_iff.1 hempty with hzero | hnil
        · omega
        · exact hnil
      have hnone : ¬([] : Bytes).length = count := by
        rw [List.length_nil]
        omega
      rw [if_neg hlimit, hnil, List.take_nil, List.drop_nil]
      simp only [if_neg hnone]
  · have hlimit : s.pieceLimit ≠ some 0 := by
      intro hzero
      rw [hzero, Option.getD_some, Nat.zero_min] at hsize
      exact hempty (by rw [hsize, List.take_zero])
    rw [if_neg hempty, fill_of_nil (s := { s with rest := s.rest.drop size }) hscript]
    exact pull_piece hlimit (by omega) hempty

/-- Filling goes on with what the first read has left to do. -/
theorem fill_eq_read (s : Source) (hcount : 0 < count) :
    s.fill count = afterRead count (s.read count) := by
  have hsome : ¬count = 0 := by omega
  unfold read
  cases hscript : s.script with
  | nil =>
    have hpull := pull_eq_read hscript hcount rfl
    rw [hscript] at hpull
    rw [fill_of_nil hscript]
    exact hpull
  | cons step script =>
    unfold fill
    rw [hscript]
    cases step with
    | fail failure => simp only [fillAlong, if_neg hsome, afterRead, fill, fillAlong_script]
    | deliverAtMost most =>
      have hmore := fillAlong_script script script { s with rest := s.rest.drop (min most count) }
        (count - (s.rest.take (min most count)).length)
      simp only [fillAlong, if_neg hsome, afterRead, fill, List.isEmpty_iff]
      by_cases hempty : s.rest.take (min most count) = []
      · rw [if_pos hempty, if_pos hempty, drop_of_take_nil hempty]
      · rw [if_neg hempty, if_neg hempty, ← hmore]
        rfl

/-! ### The loop -/

/-- Read into what is free of a buffer until it is full, the input ends, or a read fails for good.
The loop traps too if it has not come to its end in a number of rounds. -/
def readRounds? : (rounds : Nat) → Source → (buffer : Bytes) → (filled : Nat) →
    Option (Except IoFailure (Bytes × Nat) × Source)
  | 0, s, buffer, filled => if buffer.length ≤ filled then some (.ok (buffer, filled), s) else none
  | rounds + 1, s, buffer, filled =>
      if buffer.length ≤ filled then some (.ok (buffer, filled), s)
      else do
        let free ← buffer.slice? filled buffer.length
        match s.read free.length with
        | (.error failure, s) =>
            if failure.kind = .interrupted then readRounds? rounds s buffer filled
            else some (.error failure, s)
        | (.ok bytes, s) =>
            if bytes = [] then some (.ok (buffer, filled), s)
            else do
              let buffer ← buffer.put? filled (filled + bytes.length) bytes
              readRounds? rounds s buffer (filled + bytes.length)

/-- A buffer that was filled up to some place, and then further. -/
def placed (buffer : Bytes) (filled : Nat) (more : Filled) :
    Except IoFailure (Bytes × Nat) × Source :=
  match more.stop with
  | .failed failure => (.error failure, more.source)
  | _ => (.ok (buffer.splice filled more.bytes, filled + more.bytes.length), more.source)

variable {buffer bytes : Bytes} {filled : Nat}

/-- A piece that was put there may be counted with what comes next. -/
theorem placed_behind (hfilled : filled ≤ buffer.length) (more : Filled) :
    placed (buffer.splice filled bytes) (filled + bytes.length) more =
      placed buffer filled (more.behind bytes) := by
  obtain ⟨rest, stop, source⟩ := more
  cases stop with
  | failed failure => rfl
  | full | ended =>
    simp only [placed, Filled.behind, Bytes.splice_splice hfilled, List.length_append,
      Nat.add_assoc]

theorem fill_zero (s : Source) : s.fill 0 = ⟨[], .full, s⟩ := by
  obtain ⟨rest, script, pieceLimit⟩ := s
  cases script with
  | nil => rfl
  | cons step script => rfl

/-- The loop does not trap, and it leaves in the buffer what filling gives. Each round uses up a
part of the script or of the room, but for the last one. -/
theorem readRounds?_eq {rounds : Nat} (hfilled : filled ≤ buffer.length)
    (hrounds : s.script.length + (buffer.length - filled) < rounds) :
    readRounds? rounds s buffer filled =
      some (placed buffer filled (s.fill (buffer.length - filled))) := by
  induction rounds generalizing s buffer filled with
  | zero => exact absurd hrounds (Nat.not_lt_zero _)
  | succ rounds ih =>
    rw [readRounds?]
    by_cases hfull : buffer.length ≤ filled
    · have hplace : filled = buffer.length := Nat.le_antisymm hfilled hfull
      rw [if_pos hfull, hplace, Nat.sub_self, fill_zero]
      simp only [placed, Bytes.splice_nil, List.length_nil, Nat.add_zero]
    have hfree : (buffer.drop filled).length = buffer.length - filled := List.length_drop
    rw [if_neg hfull, Bytes.slice?_back hfilled, Option.bind_eq_bind, Option.bind_some, hfree,
      fill_eq_read s (by omega)]
    rcases hread : s.read (buffer.length - filled) with ⟨failure | bytes, s'⟩
    · have hscript := script_read_error hread
      simp only [afterRead]
      by_cases hagain : failure.kind = .interrupted
      · rw [if_pos hagain, if_pos hagain]
        exact ih hfilled (by omega)
      · rw [if_neg hagain, if_neg hagain]
        rfl
    · obtain ⟨hlength, hscript⟩ := length_read hread
      simp only [afterRead]
      by_cases hempty : bytes = []
      · rw [if_pos hempty, if_pos hempty]
        simp only [placed, Bytes.splice_nil, List.length_nil, Nat.add_zero]
      · have hpos := List.length_pos_iff.2 hempty
        have hroom : filled + bytes.length ≤ buffer.length := by omega
        have hsame := Bytes.length_splice hroom
        rw [if_neg hempty, if_neg hempty, Bytes.put?_at hroom, Option.bind_some,
          ih (by omega) (by omega), placed_behind hfilled, hsame, Nat.sub_sub]

end Source

end FramedStream
