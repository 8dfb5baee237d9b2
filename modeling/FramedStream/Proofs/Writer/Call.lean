import FramedStream.Writer
import FramedStream.Proofs.Writer.Reference

/-!
# Calls on a writer

A session with a writer is a list of calls. Every way to use a writer is one of them, the I/O
interface and the end of a writer included; `Call.perform` carries a call out and gives what the
caller is told. To write all of a buffer as I/O is no call of its own, it comes to a number of
writes of that buffer.

* `Call.perform_eq`: whatever the entry point, a call is one operation (`Call.operate`) that
  succeeds or fails, and the answer only puts its result into the form of the entry point;
* `Writer.perform` carries out many calls, one after the other;
* `Writer.writeAll_eq_some` says which writes come of `writeAll`, and that it ends just if one of
  them is not interrupted;
* `Call.items` are the items that a call adds to a stream, if it is one of those that only write
  and flush (`Call.Feeds`);
* `Writer.perform_unusable`: no call does anything with a writer that accepts nothing, except that
  a broken one may let go of its sink.
-/

namespace FramedStream

/-- A call on a writer. -/
inductive Call
  | writeBytes (buffer : Bytes) (offset length : Nat)
  | writeByte (byte : UInt8)
  | writeElements (t : ElementType) (array : List t.Word) (offset count : Nat)
  | writeAllElements (t : ElementType) (array : List t.Word)
  | write (buffer : Bytes)
  | flush
  | flushIo
  | close
  | finish
  | drop

/-- What a caller is told. Nobody is told how the end of a writer went that is given up. -/
inductive Answer
  | plain (result : Except Error Unit)
  | io (result : Except IoFailure Unit)
  | counted (result : Except IoFailure Nat)
  | silence
  deriving DecidableEq

namespace Call

/-- The operation behind a call. -/
def operate : Call → Writer → Except Error Unit × Writer
  | .writeBytes buffer offset length, w => w.writeBytes buffer offset length
  | .writeByte byte, w => w.writeByte byte
  | .writeElements t array offset count, w => w.writeElements t array offset count
  | .writeAllElements t array, w => w.writeAllElements t array
  | .write buffer, w => w.writeBytes buffer 0 buffer.length
  | .flush, w | .flushIo, w => w.flush
  | .close, w => w.close
  | .finish, w => w.finish
  | .drop, w => (.ok (), w.drop)

/-- The form in which a caller gets the result of the operation. -/
def answer : Call → Except Error Unit → Answer
  | .write buffer, result => .counted ((result.map fun _ => buffer.length).mapError Error.toIo)
  | .flushIo, result => .io (result.mapError Error.toIo)
  | .drop, _ => .silence
  | _, result => .plain result

/-- Carry a call out. -/
def perform : Call → Writer → Answer × Writer
  | .writeBytes buffer offset length, w => (w.writeBytes buffer offset length).map .plain id
  | .writeByte byte, w => (w.writeByte byte).map .plain id
  | .writeElements t array offset count, w => (w.writeElements t array offset count).map .plain id
  | .writeAllElements t array, w => (w.writeAllElements t array).map .plain id
  | .write buffer, w => (w.write buffer).map .counted id
  | .flush, w => w.flush.map .plain id
  | .flushIo, w => w.flush.map (fun result => .io (result.mapError Error.toIo)) id
  | .close, w => w.close.map .plain id
  | .finish, w => w.finish.map .plain id
  | .drop, w => (.silence, w.drop)

/-- Whatever the entry point, the answer is that of one operation. -/
theorem perform_eq (c : Call) (w : Writer) :
    c.perform w = (c.operate w).map c.answer id := by
  cases c with
  | write buffer =>
    simp only [perform, operate, Writer.write]
    rcases w.writeBytes buffer 0 buffer.length with ⟨_ | _, w'⟩ <;> rfl
  | _ => rfl

/-- The calls that write within their buffer or flush. -/
def Feeds : Call → Prop
  | .writeBytes buffer offset length => offset + length ≤ buffer.length
  | .writeElements _ array offset count => offset + count ≤ array.length
  | .close | .finish | .drop => False
  | _ => True

/-- The calls that end a writer. -/
def Ends : Call → Prop
  | .close | .finish | .drop => True
  | _ => False

/-- What a call adds to the stream. -/
def items : Call → List Item
  | .writeBytes buffer offset length => Item.ofBytes ((buffer.drop offset).take length)
  | .writeByte byte => Item.ofBytes [byte]
  | .writeElements t array offset count => Item.ofBytes (t.bytesOf ((array.drop offset).take count))
  | .writeAllElements t array => Item.ofBytes (t.bytesOf array)
  | .write buffer => Item.ofBytes buffer
  | .flush | .flushIo => [.flush]
  | .close | .finish | .drop => []

end Call

namespace Writer

/-- Carry out calls, one after the other. -/
def perform (w : Writer) : List Call → List Answer × Writer
  | [] => ([], w)
  | c :: cs =>
      let (answer, w) := c.perform w
      let (answers, w) := w.perform cs
      (answer :: answers, w)

@[simp] theorem perform_nil (w : Writer) : w.perform [] = ([], w) := rfl

theorem perform_cons (w : Writer) (c : Call) (cs : List Call) :
    w.perform (c :: cs) =
      (c.answer (c.operate w).1 :: ((c.operate w).2.perform cs).1,
        ((c.operate w).2.perform cs).2) := by
  simp [perform, Call.perform_eq]

theorem perform_append (w : Writer) (cs ds : List Call) :
    w.perform (cs ++ ds) =
      ((w.perform cs).1 ++ ((w.perform cs).2.perform ds).1, ((w.perform cs).2.perform ds).2) := by
  induction cs generalizing w with
  | nil => rfl
  | cons c cs ih => simp [perform_cons, ih]

/-! ### Writing all of a buffer -/

theorem writeAll_nil (w : Writer) : w.writeAll [] = some (.ok (), w) := by
  rw [writeAll]
  rfl

theorem writeAll_eq {buffer : Bytes} (hne : buffer ≠ []) (w : Writer) :
    w.writeAll buffer =
      match w.write buffer with
      | (.ok _, w) => some (.ok (), w)
      | (.error failure, w) =>
          if failure.kind = .interrupted then w.writeAll buffer else some (.error failure, w) := by
  rewrite [writeAll, if_neg (mt List.isEmpty_iff.1 hne)]
  rcases w.write buffer with ⟨_ | _, w'⟩ <;> rfl

/-- A write that is not interrupted is the last one. -/
theorem writeAll_of_uninterrupted {buffer : Bytes} (hne : buffer ≠ []) {w : Writer}
    (h : ∀ failure, (w.write buffer).1 = .error failure → failure.kind ≠ .interrupted) :
    w.writeAll buffer = some ((w.write buffer).1.map fun _ => (), (w.write buffer).2) := by
  rw [writeAll_eq hne]
  rcases hwrite : w.write buffer with ⟨failure | count, w'⟩
  · exact if_neg (h failure (by rw [hwrite]))
  · rfl

/-- How all of a buffer is written: by writes of which all but the last are interrupted, and the
last one is not. -/
structure WritesAll (w : Writer) (buffer : Bytes) (interruptions : List IoFailure)
    (last : Except IoFailure Nat) (w' : Writer) : Prop where
  perform : w.perform (List.replicate (interruptions.length + 1) (.write buffer)) =
    (interruptions.map (fun failure => .counted (.error failure)) ++ [.counted last], w')
  interrupted : ∀ failure ∈ interruptions, failure.kind = .interrupted
  final : ∀ failure, last = .error failure → failure.kind ≠ .interrupted

theorem perform_write (w : Writer) (buffer : Bytes) (cs : List Call) :
    w.perform (.write buffer :: cs) =
      (.counted (w.write buffer).1 :: ((w.write buffer).2.perform cs).1,
        ((w.write buffer).2.perform cs).2) :=
  rfl

theorem WritesAll.cons {w w₁ w' : Writer} {buffer : Bytes} {failure : IoFailure}
    {interruptions : List IoFailure} {last : Except IoFailure Nat}
    (hwrite : w.write buffer = (.error failure, w₁)) (hkind : failure.kind = .interrupted)
    (h : WritesAll w₁ buffer interruptions last w') :
    WritesAll w buffer (failure :: interruptions) last w' where
  perform := by
    rw [List.length_cons, List.replicate_succ, perform_write, hwrite, h.perform]
    rfl
  interrupted := List.forall_mem_cons.2 ⟨hkind, h.interrupted⟩
  final := h.final

/-- A write that is not interrupted is all there is to it. -/
theorem WritesAll.single {w w' : Writer} {buffer : Bytes} {last : Except IoFailure Nat}
    (hwrite : w.write buffer = (last, w'))
    (hfinal : ∀ failure, last = .error failure → failure.kind ≠ .interrupted) :
    WritesAll w buffer [] last w' where
  perform := (perform_write w buffer []).trans (by rw [hwrite]; rfl)
  interrupted := List.forall_mem_nil _
  final := hfinal

/-- Such a run of writes is what `writeAll` comes to. -/
theorem WritesAll.writeAll_eq {w w' : Writer} {buffer : Bytes} (hne : buffer ≠ [])
    {interruptions : List IoFailure} {last : Except IoFailure Nat}
    (h : WritesAll w buffer interruptions last w') :
    w.writeAll buffer = some (last.map fun _ => (), w') := by
  obtain ⟨hperform, hinterrupted, hfinal⟩ := h
  induction interruptions generalizing w with
  | nil =>
    have hwrite : w.write buffer = (last, w') := by
      have h := (perform_write w buffer []).symm.trans hperform
      simp only [perform_nil, List.map_nil, List.nil_append, Prod.mk.injEq, List.cons.injEq,
        Answer.counted.injEq, and_true] at h
      exact Prod.ext h.1 h.2
    have h := writeAll_of_uninterrupted hne (w := w) (by rw [hwrite]; exact hfinal)
    rwa [hwrite] at h
  | cons failure interruptions ih =>
    obtain ⟨hkind, hrest⟩ := List.forall_mem_cons.1 hinterrupted
    rw [List.length_cons, List.replicate_succ, perform_write] at hperform
    simp only [List.map_cons, List.cons_append, Prod.mk.injEq, List.cons.injEq,
      Answer.counted.injEq] at hperform
    obtain ⟨⟨hfirst, hanswers⟩, hlast⟩ := hperform
    rw [Writer.writeAll_eq hne]
    rcases hwrite : w.write buffer with ⟨result, w₁⟩
    rw [hwrite] at hfirst hanswers hlast
    obtain rfl : result = .error failure := hfirst
    simp only [if_pos hkind]
    exact ih (Prod.ext hanswers hlast) hrest

/-- `writeAll` is a run of writes, and it ends just if one of them is not interrupted. -/
theorem writeAll_eq_some {w w' : Writer} {buffer : Bytes} (hne : buffer ≠ [])
    {result : Except IoFailure Unit} :
    w.writeAll buffer = some (result, w') ↔
      ∃ interruptions last, WritesAll w buffer interruptions last w' ∧
        result = last.map fun _ => () := by
  constructor
  · -- on the rounds of the loop
    refine writeAll.partial_correctness buffer (fun w outcome => ∃ interruptions last,
      WritesAll w buffer interruptions last outcome.2 ∧ outcome.1 = last.map fun _ => ()) ?_ w
      (result, w')
    intro again ih w outcome h
    rw [if_neg (mt List.isEmpty_iff.1 hne)] at h
    rcases hwrite : w.write buffer with ⟨failure | count, w₁⟩
    · rw [hwrite] at h
      simp only at h
      by_cases hkind : failure.kind = .interrupted
      · rw [if_pos hkind] at h
        obtain ⟨interruptions, last, hall, hresult⟩ := ih w₁ outcome h
        exact ⟨failure :: interruptions, last, hall.cons hwrite hkind, hresult⟩
      · rw [if_neg hkind] at h
        cases h
        refine ⟨[], .error failure, .single hwrite ?_, rfl⟩
        rintro _ ⟨⟩
        exact hkind
    · rw [hwrite] at h
      cases h
      refine ⟨[], .ok count, .single hwrite ?_, rfl⟩
      rintro _ ⟨⟩
  · rintro ⟨interruptions, last, hall, rfl⟩
    exact hall.writeAll_eq hne

/-! ### Writers that accept nothing -/

variable {w : Writer}

theorem letGo_of_closed (hw : w.phase = .closed) : w.letGo = w := by
  cases w
  subst hw
  rfl

theorem unusable?_of_ne (hw : w.phase ≠ .accepting) : ∃ e, w.unusable? = some e := by
  unfold unusable?
  split
  · next h => exact absurd h hw
  · exact ⟨_, rfl⟩
  · exact ⟨_, rfl⟩

theorem accepting_of_usable (hw : w.unusable? = none) : w.phase = .accepting := by
  by_contra hne
  obtain ⟨e, h⟩ := unusable?_of_ne hne
  rw [h] at hw
  cases hw

theorem writeBytes_unusable (hw : w.phase ≠ .accepting) (buffer : Bytes) (offset length : Nat) :
    (w.writeBytes buffer offset length).2 = w := by
  obtain ⟨e, h⟩ := unusable?_of_ne hw
  simp only [writeBytes, h]

theorem writeElements_unusable (hw : w.phase ≠ .accepting) (t : ElementType)
    (array : List t.Word) (offset count : Nat) : (w.writeElements t array offset count).2 = w := by
  unfold writeElements
  split
  · rfl
  · exact writeBytes_unusable hw _ _ _

theorem flush_unusable (hw : w.phase ≠ .accepting) : w.flush.2 = w := by
  obtain ⟨e, h⟩ := unusable?_of_ne hw
  simp only [flush, h]

theorem drop_unusable (hw : w.phase ≠ .accepting) : w.drop = w := by
  rw [drop, if_neg hw]

theorem operate_unusable (hw : w.phase ≠ .accepting) (c : Call) :
    (c.operate w).2 = w ∨ (c.operate w).2 = w.letGo := by
  cases c with
  | writeBytes buffer offset length => exact .inl (writeBytes_unusable hw _ _ _)
  | writeByte byte =>
    obtain ⟨e, h⟩ := unusable?_of_ne hw
    exact .inl (by simp only [Call.operate, writeByte, h])
  | writeElements t array offset count => exact .inl (writeElements_unusable hw _ _ _ _)
  | writeAllElements t array => exact .inl (writeElements_unusable hw _ _ _ _)
  | write buffer => exact .inl (writeBytes_unusable hw _ _ _)
  | flush | flushIo => exact .inl (flush_unusable hw)
  | close =>
    simp only [Call.operate, close]
    cases hphase : w.phase with
    | accepting => exact absurd hphase hw
    | broken => exact .inr rfl
    | closed => exact .inl rfl
  | finish =>
    obtain ⟨e, h⟩ := unusable?_of_ne hw
    refine .inl ?_
    simp only [Call.operate, finish, flush, h]
    exact drop_unusable hw
  | drop => exact .inl (drop_unusable hw)

theorem perform_unusable (hw : w.phase ≠ .accepting) (cs : List Call) :
    (w.perform cs).2 = w ∨ (w.perform cs).2 = w.letGo := by
  induction cs generalizing w with
  | nil => exact .inl rfl
  | cons c cs ih =>
    rw [perform_cons]
    rcases operate_unusable hw c with h | h
    · rw [h]
      exact ih hw
    · rw [h]
      exact .inr (or_self_iff.1 (ih (by simp [letGo])))

/-- Its sink is left alone. -/
theorem sink_perform_unusable (hw : w.phase ≠ .accepting) (cs : List Call) :
    (w.perform cs).2.sink = w.sink := by
  rcases perform_unusable hw cs with h | h
  · rw [h]
  · rw [h, letGo]

theorem perform_closed (hw : w.phase = .closed) (cs : List Call) : (w.perform cs).2 = w := by
  have hne : w.phase ≠ .accepting := by
    rw [hw]
    decide
  have h := perform_unusable hne cs
  rwa [letGo_of_closed hw, or_self_iff] at h

end Writer

end FramedStream
