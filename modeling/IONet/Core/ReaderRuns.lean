import IONet.Core.Cursor

namespace IONet.Core

open ByteBufferReader Lib.Slots

def refusal (needed : Nat) (tooLong : Option String) (r : ByteBufferReader) : Option String :=
  match r.checkRemaining needed with
  | .error what => some what
  | .ok () => tooLong

def ReadOp.tooLong : ReadOp → Option String
  | .bytes count =>
    if count.toNat > maxLength then some "cannot create std::vector larger than max_size()"
    else none
  | .string size => if size.toNat > maxLength then some "basic_string::_M_create" else none
  | _ => none

def ReadOp.thrown (op : ReadOp) : ByteBufferReader → Option String := refusal op.count op.tooLong

/-- An operation throws this text and leaves the reader as it found it, or returns. -/
def ReadM.Throws (m : ReadM α) (what : ByteBufferReader → Option String) : Prop :=
  ∀ r, (∃ text, what r = some text ∧ m r = (.error text, r)) ∨
    (what r = none ∧ ∃ a, (m r).1 = .ok a)

theorem ReadM.Throws.map {m : ReadM α} {what : ByteBufferReader → Option String}
    (h : m.Throws what) (g : α → β) : (m.map g).Throws what := by
  intro r
  rcases h r with ⟨text, hwhat, hm⟩ | ⟨hwhat, a, ha⟩
  · exact .inl ⟨text, hwhat, by simp [ReadM.map, hm]⟩
  · refine .inr ⟨hwhat, g a, ?_⟩
    rw [ReadM.map_eq (Prod.ext ha rfl) g]

theorem throws_readFixed (needed : Nat) (combine : (Fin needed → UInt8) → α) :
    (readFixed needed combine).Throws (refusal needed none) := by
  intro r
  unfold refusal readFixed
  cases r.checkRemaining needed with
  | error what => exact .inl ⟨what, rfl, rfl⟩
  | ok => exact .inr ⟨rfl, _, rfl⟩

theorem throws_readBlock (tooLong : String) (count : UInt64) :
    (readBlock tooLong count).Throws
      (refusal count.toNat (if count.toNat > maxLength then some tooLong else none)) := by
  intro r
  unfold refusal readBlock
  cases r.checkRemaining count.toNat with
  | error what => exact .inl ⟨what, rfl, rfl⟩
  | ok =>
    by_cases hmax : count.toNat > maxLength
    · exact .inl ⟨tooLong, by simp [hmax], by simp [hmax]⟩
    · exact .inr ⟨by simp [hmax], by simp [hmax]⟩

theorem Scalar.throws_read (host : Host) (s : Scalar) (order : ByteOrder) :
    (s.read host order).Throws (refusal s.width none) := by
  have h16 : (readUInt16 host order).Throws (refusal 2 none) := throws_readFixed 2 _
  have h32 : (readUInt32 host order).Throws (refusal 4 none) := throws_readFixed 4 _
  have h64 : (readUInt64 host order).Throws (refusal 8 none) := throws_readFixed 8 _
  cases s with
  | int16 => exact h16.map _
  | int32 => exact h32.map _
  | int64 => exact h64.map _
  | uint16 => exact h16
  | uint32 | float32 => exact h32
  | uint64 | float64 => exact h64

theorem ReadOp.throws (host : Host) (op : ReadOp) : (op.run host).Throws op.thrown := by
  cases op with
  | int8 => exact (throws_readFixed 1 _).map _
  | uint8 => exact (throws_readFixed 1 _).map _
  | scalar s order => exact (s.throws_read host order).map _
  | bytes count => exact (throws_readBlock _ count).map _
  | string size => exact (throws_readBlock _ size).map _

section

variable {host : Host} {op : ReadOp} {r r' : ByteBufferReader}

theorem ReadOp.thrown_congr (hpos : r'.pos = r.pos) (hsize : r'.size = r.size) :
    op.thrown r' = op.thrown r := by
  have hremaining : r'.remaining = r.remaining := by rw [remaining, remaining, hpos, hsize]
  have hcheck : r'.checkRemaining op.count = r.checkRemaining op.count := by
    rw [checkRemaining, checkRemaining, hpos, hsize, hremaining]
  rw [thrown, refusal, hcheck]
  rfl

theorem ReadOp.run_of_thrown {what : String} (h : op.thrown r = some what) :
    op.run host r = (.error what, r) := by
  rcases op.throws host r with ⟨text, htext, hrun⟩ | ⟨hnone, -⟩
  · rw [h] at htext
    cases htext
    exact hrun
  · rw [h] at hnone
    cases hnone

theorem ReadOp.thrown_eq_none_iff (hr : r.Valid) :
    op.thrown r = none ↔ r.pos + op.count ≤ r.size := by
  have hreads := op.run_reads .x86
  rcases op.throws .x86 r with ⟨text, htext, hrun⟩ | ⟨hnone, a, ha⟩
  · rw [htext]
    refine iff_of_false nofun fun hfit => ?_
    obtain ⟨a, -, ha⟩ := hreads.fits r hr hfit
    rw [hrun] at ha
    cases ha
  · refine iff_of_true hnone (not_lt.mp fun hlt => ?_)
    obtain ⟨what, hwhat⟩ := hreads.short r hr hlt
    rw [hwhat] at ha
    cases ha

theorem ReadOp.run_of_fits (host : Host) (hr : r.Valid) (hfit : r.pos + op.count ≤ r.size) :
    ∃ datum, op.run host r = (.ok datum, { r with pos := r.pos + op.count }) := by
  obtain ⟨datum, -, hrun⟩ := (op.run_reads host).fits r hr hfit
  exact ⟨datum, hrun⟩

theorem ReadOp.run_congr (hr : r.Valid) (hr' : r'.Valid) (hfit : r.pos + op.count ≤ r.size)
    (hfit' : r'.pos + op.count ≤ r'.size)
    (hwindow : window r'.data r'.pos op.count = window r.data r.pos op.count) {datum : Datum}
    (h : op.run host r = (.ok datum, { r with pos := r.pos + op.count })) :
    op.run host r' = (.ok datum, { r' with pos := r'.pos + op.count }) := by
  have hreads := op.run_reads host
  obtain ⟨a, hwin, hrun⟩ := hreads.fits r hr hfit
  obtain ⟨a', hwin', hrun'⟩ := hreads.fits r' hr' hfit'
  rw [hwindow, hwin, Except.ok.injEq] at hwin'
  rw [hrun, Prod.mk.injEq, Except.ok.injEq] at h
  rw [hrun', ← hwin', h.1]

theorem ReadOp.run_cases (host : Host) (op : ReadOp) (hr : r.Valid) :
    (r.pos + op.count ≤ r.size ∧
      ∃ datum, op.run host r = (.ok datum, { r with pos := r.pos + op.count })) ∨
    ∃ what, op.thrown r = some what ∧ op.run host r = (.error what, r) := by
  cases hthrown : op.thrown r with
  | none =>
    have hfit := (thrown_eq_none_iff hr).mp hthrown
    exact .inl ⟨hfit, run_of_fits host hr hfit⟩
  | some what => exact .inr ⟨what, rfl, run_of_thrown hthrown⟩

end

def leaves (host : Host) (ops : List ReaderOp) (r : ByteBufferReader) : ByteBufferReader :=
  ops.foldl (fun r op => (op.run host r).2) r

def returned (host : Host) : List ReadOp → ByteBufferReader → List (Option Datum)
  | [], _ => []
  | op :: ops, r => (op.run host r).1.toOption :: returned host ops (op.run host r).2

/-- A run of safe steps that accesses nothing but the bytes that the cursor
passes. -/
structure Bounded (host : Host) (ops : List ReaderOp) (r : ByteBufferReader) : Prop where
  buffer : (leaves host ops r).data = r.data
  forward : r.position ≤ (leaves host ops r).position
  inside : (leaves host ops r).position ≤ r.size
  safe : ∀ step ∈ steps host ops r, step.1.Safe host step.2
  accesses : ∀ step ∈ steps host ops r, ∀ i ∈ step.1.accessed host step.2,
    r.position ≤ i ∧ i < (leaves host ops r).position

section

variable {r : ByteBufferReader}

theorem run_read (host : Host) (hr : r.Valid) (op : ReadOp) :
    ∃ q, r.pos ≤ q ∧ q ≤ r.size ∧ ((ReaderOp.read op).run host r).2 = { r with pos := q } ∧
      ∀ i ∈ (ReaderOp.read op).accessed host r, r.pos ≤ i ∧ i < q := by
  rcases op.run_cases host hr with ⟨hfit, datum, hrun⟩ | ⟨what, -, hrun⟩
  · refine ⟨r.pos + op.count, by omega, hfit, ?_, fun i hi => ?_⟩
    · simp [ReaderOp.run, ReadM.map, hrun]
    · simp only [ReaderOp.accessed, hrun, List.mem_map, List.mem_range] at hi
      omega
  · refine ⟨r.pos, le_rfl, hr.pos_le, ?_, ?_⟩
    · simp [ReaderOp.run, ReadM.map, hrun]
    · simp [ReaderOp.accessed, hrun]

theorem bounded_reads (host : Host) (hr : r.Valid) (ops : List ReadOp) :
    Bounded host (ops.map .read) r := by
  induction ops generalizing r with
  | nil => exact ⟨rfl, le_rfl, hr.pos_le, nofun, nofun⟩
  | cons op ops ih =>
    obtain ⟨q, hle, hq, hstep, haccessed⟩ := run_read host hr op
    have hrest := ih (hr.at hq)
    have hleaves : leaves host ((op :: ops).map .read) r =
        leaves host (ops.map .read) { r with pos := q } := by
      rw [List.map_cons, leaves, List.foldl_cons, hstep]
      rfl
    have hforward : q ≤ (leaves host ((op :: ops).map .read) r).position := hleaves ▸ hrest.forward
    constructor
    · rw [hleaves, hrest.buffer]
    · exact hle.trans hforward
    · rw [hleaves]
      exact hrest.inside
    · rw [List.map_cons, steps, hstep, List.forall_mem_cons]
      exact ⟨ReaderOp.safe_read hr op, hrest.safe⟩
    · rw [hleaves, List.map_cons, steps, hstep, List.forall_mem_cons]
      constructor
      · intro i hi
        have hi := haccessed i hi
        exact ⟨hi.1, hi.2.trans_le hrest.forward⟩
      · intro step hmem i hi
        have hi := hrest.accesses step hmem i hi
        exact ⟨hle.trans hi.1, hi.2⟩

end

end IONet.Core
