import IONet.Core.RoundTrip
import IONet.Lib.Machine

namespace IONet.Core

open Lib.Machine

inductive WriterOp
  | write (op : WriteOp) : WriterOp
  | data : WriterOp
  | size : WriterOp
  | take : WriterOp
  | clear : WriterOp

inductive Handed (β : Type)
  | data (content : β) : Handed β
  | size (n : Nat) : Handed β
  | taken (content : β) : Handed β

def Handed.map {β γ : Type} (g : β → γ) : Handed β → Handed γ
  | .data content => .data (g content)
  | .size n => .size n
  | .taken content => .taken (g content)

namespace WriterOp

def step (host : Host) : Step ByteBufferWriter WriterOp (Handed (List UInt8))
  | w, .write op => (none, op.run host w)
  | w, .data => (some (.data w.data), w)
  | w, .size => (some (.size w.size), w)
  | w, .take => (some (.taken w.take.1), w.take.2)
  | w, .clear => (none, w.clear)

end WriterOp

def encoded (host : Host) (ops : List WriteOp) : List UInt8 := ops.flatMap (WriteOp.appended host)

def WriterOp.pending (host : Host) : Step (List WriteOp) WriterOp (Handed (List WriteOp))
  | ops, .write op => (none, ops ++ [op])
  | ops, .data => (some (.data ops), ops)
  | ops, .size => (some (.size (encoded host ops).length), ops)
  | ops, .take => (some (.taken ops), [])
  | _, .clear => (none, [])

theorem encoded_append (host : Host) (ops ops' : List WriteOp) :
    encoded host (ops ++ ops') = encoded host ops ++ encoded host ops' := List.flatMap_append

theorem simulates_pending (host : Host) :
    Simulates (WriterOp.step host) (WriterOp.pending host)
      (fun w ops => w.buffer = encoded host ops) (Handed.map (encoded host)) fun _ => True where
  output w ops c _ h := by
    cases c with
    | write op => rfl
    | data => exact congrArg (fun bytes => some (Handed.data bytes)) h
    | size => exact congrArg (fun bytes => some (Handed.size bytes.length)) h
    | take => exact congrArg (fun bytes => some (Handed.taken bytes)) h
    | clear => rfl
  next w ops c _ h := by
    cases c with
    | write op =>
      change (op.run host w).buffer = encoded host (ops ++ [op])
      rw [buffer_run, h, encoded_append]
      simp [encoded]
    | data => exact h
    | size => exact h
    | take => rfl
    | clear => rfl

theorem runs_pending (host : Host) (commands : List WriterOp) :
    (run (WriterOp.step host) {} commands).1 =
        (run (WriterOp.pending host) [] commands).1.map (Handed.map (encoded host)) ∧
      (run (WriterOp.step host) {} commands).2.buffer =
        encoded host (run (WriterOp.pending host) [] commands).2 :=
  (simulates_pending host).runs (fun _ _ => trivial) rfl

theorem readEach_encoded (host : Host) (ops : List WriteOp)
    (h : (encoded host ops).length < 2 ^ 63) :
    readEach host (ops.map WriteOp.matching) ⟨encoded host ops, 0⟩ =
      (.ok (ops.map WriteOp.datum), ⟨encoded host ops, (encoded host ops).length⟩) := by
  have hread := readEach_from host ops [] [] (by simpa [encoded] using h)
  simpa [encoded] using hread

inductive ReadsBack (host : Host) : Handed (List UInt8) → Handed (List WriteOp) → Prop
  | data {bytes : List UInt8} {ops : List WriteOp} (h : bytes.length < 2 ^ 63 →
      readEach host (ops.map WriteOp.matching) ⟨bytes, 0⟩ =
        (.ok (ops.map WriteOp.datum), ⟨bytes, bytes.length⟩)) :
    ReadsBack host (.data bytes) (.data ops)
  | size {n : Nat} : ReadsBack host (.size n) (.size n)
  | taken {bytes : List UInt8} {ops : List WriteOp} (h : bytes.length < 2 ^ 63 →
      readEach host (ops.map WriteOp.matching) ⟨bytes, 0⟩ =
        (.ok (ops.map WriteOp.datum), ⟨bytes, bytes.length⟩)) :
    ReadsBack host (.taken bytes) (.taken ops)

/-- Whatever is done with a writer, each buffer that it hands out reads back as
the data of what was written since it was last emptied. -/
theorem writer_reads_back (host : Host) (commands : List WriterOp) :
    List.Forall₂ (ReadsBack host) (run (WriterOp.step host) {} commands).1
      (run (WriterOp.pending host) [] commands).1 := by
  rw [(runs_pending host commands).1, List.forall₂_map_left_iff, List.forall₂_same]
  intro handed _
  cases handed with
  | data ops => exact .data (readEach_encoded host ops)
  | size n => exact .size
  | taken ops => exact .taken (readEach_encoded host ops)

def takenOf {α : Type} (handed : List (Handed (List α))) : List α :=
  handed.flatMap fun
    | .taken content => content
    | _ => []

def writes (commands : List WriterOp) : List WriteOp :=
  commands.filterMap fun
    | .write op => some op
    | _ => none

theorem takenOf_map (host : Host) (handed : List (Handed (List WriteOp))) :
    takenOf (handed.map (Handed.map (encoded host))) = encoded host (takenOf handed) := by
  induction handed with
  | nil => rfl
  | cons out handed ih =>
    cases out <;> simp_all [takenOf, Handed.map, encoded]

/-- The writes that were taken, followed by those that are left. -/
def delivered (host : Host) (ops : List WriteOp) (commands : List WriterOp) : List WriteOp :=
  takenOf (run (WriterOp.pending host) ops commands).1 ++
    (run (WriterOp.pending host) ops commands).2

section

variable (host : Host) (ops : List WriteOp) (commands : List WriterOp)

theorem delivered_nil : delivered host ops [] = ops := rfl

theorem delivered_write (op : WriteOp) :
    delivered host ops (.write op :: commands) = delivered host (ops ++ [op]) commands := rfl

theorem delivered_data : delivered host ops (.data :: commands) = delivered host ops commands := rfl

theorem delivered_size : delivered host ops (.size :: commands) = delivered host ops commands := rfl

theorem delivered_take :
    delivered host ops (.take :: commands) = ops ++ delivered host [] commands :=
  List.append_assoc ..

theorem delivered_clear : delivered host ops (.clear :: commands) = delivered host [] commands :=
  rfl

end

theorem delivered_sublist (host : Host) (ops : List WriteOp) (commands : List WriterOp) :
    (delivered host ops commands).Sublist (ops ++ writes commands) := by
  induction commands generalizing ops with
  | nil => simp [delivered_nil]
  | cons c commands ih =>
    cases c with
    | write op =>
      rw [delivered_write]
      simpa [writes] using ih (ops ++ [op])
    | data =>
      rw [delivered_data]
      exact ih ops
    | size =>
      rw [delivered_size]
      exact ih ops
    | take =>
      rw [delivered_take]
      exact (ih []).append_left ops
    | clear =>
      rw [delivered_clear]
      exact (ih []).trans (List.sublist_append_right ops _)

theorem delivered_eq (host : Host) (ops : List WriteOp) {commands : List WriterOp}
    (h : .clear ∉ commands) : delivered host ops commands = ops ++ writes commands := by
  induction commands generalizing ops with
  | nil => simp [delivered_nil, writes]
  | cons c commands ih =>
    rw [List.mem_cons, not_or] at h
    have hrest := fun ops => ih ops h.2
    cases c with
    | write op =>
      rw [delivered_write, hrest]
      simp [writes]
    | data =>
      rw [delivered_data]
      exact hrest ops
    | size =>
      rw [delivered_size]
      exact hrest ops
    | take =>
      rw [delivered_take, hrest]
      rfl
    | clear => exact absurd rfl h.1

theorem stream_eq (host : Host) (commands : List WriterOp) :
    takenOf (run (WriterOp.step host) {} commands).1 ++
      (run (WriterOp.step host) {} commands).2.buffer =
        encoded host (delivered host [] commands) := by
  obtain ⟨houtput, hbuffer⟩ := runs_pending host commands
  rw [houtput, hbuffer, takenOf_map, delivered, encoded_append]

/-- However a writer is emptied along the way, the contents that were taken and
what is left make one stream of its writes, each at most once and in order, and
all of them unless some were cleared. -/
theorem writer_stream (host : Host) (commands : List WriterOp) : ∃ ops,
    ops.Sublist (writes commands) ∧ (.clear ∉ commands → ops = writes commands) ∧
      takenOf (run (WriterOp.step host) {} commands).1 ++
        (run (WriterOp.step host) {} commands).2.buffer = encoded host ops ∧
      ((encoded host ops).length < 2 ^ 63 →
        readEach host (ops.map WriteOp.matching) ⟨encoded host ops, 0⟩ =
          (.ok (ops.map WriteOp.datum), ⟨encoded host ops, (encoded host ops).length⟩)) := by
  refine ⟨delivered host [] commands, ?_, ?_, stream_eq host commands, readEach_encoded host _⟩
  · exact delivered_sublist host [] commands
  · exact delivered_eq host []

end IONet.Core
