import FramedStream.Bytes
import Std.Data.HashMap

/-!
# Factoring bytes into literals and copies

A sequence of bytes is factored into phrases, each some literals and then a copy of bytes that
came shortly before, and a last run of literals. Compressors differ in how they write phrases
down and in which phrases they can write (`Limits`); the factoring is the same.

* `expand` undoes a factoring;
* `search` looks for copies. Nothing depends on what it finds, because `factor` checks the result
  (`Factoring.fits`) and falls back to literals only;
* `expand_factor`, `valid_factor`: a factoring expands to what was factored and keeps to the
  limits.
-/

namespace FramedStream

/-- Some literals, then a copy of `length` bytes that start `distance` bytes back. The copy may
overlap what it makes. -/
structure Phrase where
  literals : Bytes
  distance : Nat
  length : Nat
  deriving Repr, DecidableEq

/-- Phrases, then the literals that are left. -/
structure Factoring where
  phrases : List Phrase
  tail : Bytes
  deriving Repr, DecidableEq

/-- Which copies a format can write: how long and how far back they may be, how far from the end
the last one has to start, and how many bytes after it have to be literals. -/
structure Limits where
  leastLength : Nat
  greatestDistance : Nat
  startBeforeEnd : Nat
  literalsAtEnd : Nat

/-- Append `count` bytes, each a copy of the one `distance` bytes back. -/
def copyBack (out : Array UInt8) (distance : Nat) : (count : Nat) → Array UInt8
  | 0 => out
  | count + 1 => copyBack (out.push (out.getD (out.size - distance) 0)) distance count

@[simp] theorem size_copyBack (out : Array UInt8) (distance count : Nat) :
    (copyBack out distance count).size = out.size + count := by
  induction count generalizing out with
  | zero => rfl
  | succ count ih => simp [copyBack, ih]; omega

/-- A copy of what has been made is the same whatever was there before. -/
theorem copyBack_append (before out : Array UInt8) {distance : Nat} (count : Nat)
    (hle : distance ≤ out.size) :
    copyBack (before ++ out) distance count = before ++ copyBack out distance count := by
  induction count generalizing out with
  | zero => rfl
  | succ count ih =>
    have hplace : (before ++ out).size - distance = before.size + (out.size - distance) := by
      rw [Array.size_append]
      omega
    have hbyte : (before ++ out).getD ((before ++ out).size - distance) 0 =
        out.getD (out.size - distance) 0 := by
      rw [hplace]
      simp [Array.getD_eq_getD_getElem?, Array.getElem?_append_right]
    rw [copyBack, hbyte, Array.push_append, ih _ (by rw [Array.size_push]; omega), copyBack]

@[simp] theorem size_append_bytes (out : Array UInt8) (bytes : Bytes) :
    (out ++ bytes).size = out.size + bytes.length := by
  rw [← Array.length_toList, Array.toList_appendList, List.length_append, Array.length_toList]

theorem append_append_bytes (before out : Array UInt8) (bytes : Bytes) :
    before ++ out ++ bytes = before ++ (out ++ bytes) := by
  apply Array.toList_inj.1
  simp

section Series

variable {α : Type} {make : Array UInt8 → α → Array UInt8} {size : α → Nat}
  (hsize : ∀ out x, (make out x).size = out.size + size x)

include hsize

/-- What is made from several things, one after the other, holds what was there before. -/
theorem size_le_foldl (out : Array UInt8) (xs : List α) : out.size ≤ (xs.foldl make out).size := by
  induction xs generalizing out with
  | nil => exact Nat.le_refl _
  | cons x xs ih =>
    have hrest := ih (make out x)
    rw [hsize] at hrest
    rw [List.foldl_cons]
    omega

/-- It also holds what any of them makes. -/
theorem add_size_le_foldl {x : α} {xs : List α} (hmem : x ∈ xs) (out : Array UInt8) :
    out.size + size x ≤ (xs.foldl make out).size := by
  induction xs generalizing out with
  | nil => cases hmem
  | cons first xs ih =>
    rw [List.foldl_cons]
    cases hmem with
    | head =>
      rw [← hsize]
      exact size_le_foldl hsize _ _
    | tail _ hmem =>
      have hrest := ih hmem (make out first)
      rw [hsize] at hrest
      omega

end Series

/-- Append what a phrase stands for. -/
def Phrase.expandOnto (out : Array UInt8) (p : Phrase) : Array UInt8 :=
  copyBack (out ++ p.literals) p.distance p.length

/-- How many bytes a phrase stands for. -/
def Phrase.size (p : Phrase) : Nat := p.literals.length + p.length

theorem Phrase.size_expandOnto (out : Array UInt8) (p : Phrase) :
    (p.expandOnto out).size = out.size + p.size := by
  rw [expandOnto, size_copyBack, size_append_bytes, size, Nat.add_assoc]

/-- Whether a phrase can be written after `size` bytes. -/
def Phrase.fits (limits : Limits) (size : Nat) (p : Phrase) : Bool :=
  1 ≤ p.distance && p.distance ≤ limits.greatestDistance &&
    p.distance ≤ size + p.literals.length && limits.leastLength ≤ p.length

theorem Phrase.fits_iff {limits : Limits} {size : Nat} {p : Phrase} :
    p.fits limits size = true ↔
      1 ≤ p.distance ∧ p.distance ≤ limits.greatestDistance ∧
        p.distance ≤ size + p.literals.length ∧ limits.leastLength ≤ p.length := by
  simp [fits, and_assoc]

/-- What a phrase that fits stands for is the same whatever was there before. -/
theorem Phrase.expandOnto_append {limits : Limits} (before : Array UInt8) {out : Array UInt8}
    {p : Phrase} (hfits : p.fits limits out.size = true) :
    p.expandOnto (before ++ out) = before ++ p.expandOnto out := by
  obtain ⟨-, -, hle, -⟩ := fits_iff.1 hfits
  rw [expandOnto, append_append_bytes, copyBack_append _ _ _ (by rwa [size_append_bytes]),
    expandOnto]

namespace Factoring

/-- What a factoring stands for. -/
def expand (f : Factoring) : Bytes :=
  (f.phrases.foldl Phrase.expandOnto #[]).toList ++ f.tail

/-- Whether the phrases can be written one after the other, after `size` bytes. -/
def phrasesFit (limits : Limits) : (size : Nat) → List Phrase → Bool
  | _, [] => true
  | size, p :: ps =>
      p.fits limits size && phrasesFit limits (size + p.size) ps

/-- What phrases that fit stand for is the same whatever was there before. -/
theorem foldl_expandOnto_append {limits : Limits} (before : Array UInt8) {out : Array UInt8}
    {phrases : List Phrase} (hfits : phrasesFit limits out.size phrases = true) :
    phrases.foldl Phrase.expandOnto (before ++ out) =
      before ++ phrases.foldl Phrase.expandOnto out := by
  induction phrases generalizing out with
  | nil => rfl
  | cons p phrases ih =>
    rw [phrasesFit, Bool.and_eq_true] at hfits
    obtain ⟨hfits, hrest⟩ := hfits
    rw [← p.size_expandOnto] at hrest
    rw [List.foldl_cons, p.expandOnto_append before hfits, ih hrest, List.foldl_cons]

/-- Whether a factoring keeps to the limits and stands for these bytes. -/
def fits (limits : Limits) (raw : Bytes) (f : Factoring) : Bool :=
  phrasesFit limits 0 f.phrases && f.expand == raw

/-- The factoring without a copy. -/
def ofLiterals (raw : Bytes) : Factoring := ⟨[], raw⟩

@[simp] theorem expand_ofLiterals (raw : Bytes) : (ofLiterals raw).expand = raw := by
  simp [ofLiterals, expand]

end Factoring

/-! ### The search -/

/-- The length of the longest equal run at two places, `count` bytes of which are known to be equal,
and at most `most` more. -/
def commonLength (raw : Array UInt8) (a b count : Nat) : (most : Nat) → Nat
  | 0 => count
  | most + 1 =>
      if raw.getD (a + count) 0 = raw.getD (b + count) 0 then
        commonLength raw a b (count + 1) most
      else count

/-- The four bytes at a place, as one number. -/
def quad (raw : Array UInt8) (place : Nat) : UInt32 :=
  (raw.getD place 0).toUInt32 ||| (raw.getD (place + 1) 0).toUInt32 <<< 8 |||
    (raw.getD (place + 2) 0).toUInt32 <<< 16 ||| (raw.getD (place + 3) 0).toUInt32 <<< 24

/-- Go through the bytes from `place` and take, greedily, each copy of the latest place with the
same four bytes. Literals start at `anchor`; the phrases come out last first, with the place
where the last one ends. -/
def search (limits : Limits) (raw : Array UInt8) (seen : Std.HashMap UInt32 Nat)
    (anchor place : Nat) (found : List Phrase) : List Phrase × Nat :=
  if hplace : raw.size < place + max 4 limits.startBeforeEnd then (found, anchor)
  else
    let key := quad raw place
    let earlier := seen.getD key place
    let distance := place - earlier
    let length :=
      if distance = 0 ∨ limits.greatestDistance < distance then 0
      else commonLength raw earlier place 0 (raw.size - limits.literalsAtEnd - place)
    let seen := seen.insert key place
    if hlength : limits.leastLength ≤ length ∧ 0 < length then
      let phrase : Phrase := ⟨(raw.extract anchor place).toList, distance, length⟩
      have : raw.size - (place + length) < raw.size - place := by
        have := hlength.2
        omega
      search limits raw seen (place + length) (place + length) (phrase :: found)
    else
      have : raw.size - (place + 1) < raw.size - place := by omega
      search limits raw seen anchor (place + 1) found
termination_by raw.size - place

/-- Factor bytes within limits. -/
def factor (limits : Limits) (raw : Bytes) : Factoring :=
  let (found, anchor) := search limits raw.toArray {} 0 0 []
  let f : Factoring := ⟨found.reverse, raw.drop anchor⟩
  if f.fits limits raw then f else .ofLiterals raw

/-- A factoring expands to what was factored. -/
theorem expand_factor (limits : Limits) (raw : Bytes) : (factor limits raw).expand = raw := by
  unfold factor
  simp only
  split
  · next h =>
    simp only [Factoring.fits, Bool.and_eq_true, beq_iff_eq] at h
    exact h.2
  · simp

/-- A factoring keeps to the limits. -/
theorem valid_factor (limits : Limits) (raw : Bytes) :
    Factoring.phrasesFit limits 0 (factor limits raw).phrases = true := by
  unfold factor
  simp only
  split
  · next h =>
    simp only [Factoring.fits, Bool.and_eq_true] at h
    exact h.1
  · rfl

end FramedStream
