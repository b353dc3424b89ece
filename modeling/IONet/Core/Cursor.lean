import IONet.Core.RoundTrip

/-! Runs of a reader: operations in any order, with any arguments, where one
that throws is caught and the next one goes on from there. -/

namespace IONet.Core

inductive ReaderOp
  | read (op : ReadOp) : ReaderOp
  | skip (count : UInt64) : ReaderOp
  | seek (pos : UInt64) : ReaderOp
  | reset : ReaderOp

def ReadOp.count : ReadOp → Nat
  | .int8 | .uint8 => 1
  | .scalar s _ => s.width
  | .bytes count => count.toNat
  | .string size => size.toNat

namespace ReaderOp

def run (host : Host) : ReaderOp → ReadM Unit
  | .read op => (op.run host).map fun _ => ()
  | .skip count => ByteBufferReader.skip count
  | .seek pos => ByteBufferReader.seek pos
  | .reset => ByteBufferReader.reset

def count : ReaderOp → Option Nat
  | .read op => some op.count
  | .skip count => some count.toNat
  | .seek _ | .reset => none

/-- The indices into the buffer that an operation accesses: a read that throws
does so before it accesses any. -/
def accessed (host : Host) (op : ReaderOp) (r : ByteBufferReader) : List Nat :=
  match op with
  | .read op =>
    match (op.run host r).1 with
    | .ok _ => (List.range op.count).map (r.pos + ·)
    | .error _ => []
  | _ => []

/-- An operation keeps the cursor in the buffer, moves it by what was asked for
or throws and leaves it, and accesses nothing outside. -/
structure Safe (host : Host) (op : ReaderOp) (r : ByteBufferReader) : Prop where
  inside : (op.run host r).2.position ≤ r.size
  buffer : (op.run host r).2.data = r.data
  atomic : ∀ what, (op.run host r).1 = .error what → (op.run host r).2.position = r.position
  moves : ∀ k, op.count = some k → (op.run host r).1 = .ok () →
    k ≤ r.remaining ∧ (op.run host r).2.position = r.position + k
  accesses : ∀ i ∈ op.accessed host r, i < r.size

def Covered (host : Host) (op : ReaderOp) (r : ByteBufferReader) : Prop :=
  ∀ read datum, op = .read read → (read.run host r).1 = .ok datum →
    ∀ r' : ByteBufferReader, r'.Valid → r'.pos = r.pos → r'.size = r.size →
      (∀ i ∈ op.accessed host r, r'.data.getD i 0 = r.data.getD i 0) →
        (read.run host r').1 = .ok datum

/-- A skip so far that the sum of position and count exceeds a `size_t`. -/
def Wraps : ReaderOp → ByteBufferReader → Prop
  | .skip count, r => 2 ^ 64 ≤ r.position + count.toNat
  | _, _ => False

instance (op : ReaderOp) (r : ByteBufferReader) : Decidable (op.Wraps r) :=
  match op with
  | .skip count => inferInstanceAs (Decidable (2 ^ 64 ≤ r.position + count.toNat))
  | .read _ | .seek _ | .reset => inferInstanceAs (Decidable False)

end ReaderOp

def steps (host : Host) : List ReaderOp → ByteBufferReader → List (ReaderOp × ByteBufferReader)
  | [], _ => []
  | op :: ops, r => (op, r) :: steps host ops (op.run host r).2

variable {host : Host} {r : ByteBufferReader}

theorem Scalar.read_reads (host : Host) (s : Scalar) (order : ByteOrder) :
    (s.read host order).Reads s.width := by
  cases s with
  | int16 => exact ReadM.Reads.readInt16 host order
  | int32 => exact ReadM.Reads.readInt32 host order
  | int64 => exact ReadM.Reads.readInt64 host order
  | uint16 => exact ReadM.Reads.readUInt16 host order
  | uint32 => exact ReadM.Reads.readUInt32 host order
  | uint64 => exact ReadM.Reads.readUInt64 host order
  | float32 => exact ReadM.Reads.readFloat32 host order
  | float64 => exact ReadM.Reads.readFloat64 host order

theorem ReadOp.run_reads (host : Host) (op : ReadOp) : (op.run host).Reads op.count := by
  cases op with
  | int8 => exact ReadM.Reads.readInt8.map _
  | uint8 => exact ReadM.Reads.readUInt8.map _
  | scalar s order => exact (s.read_reads host order).map _
  | bytes count => exact (ReadM.Reads.readBlock _ _).map _
  | string size => exact (ReadM.Reads.readBlock _ _).map _

theorem ByteBufferReader.Valid.remaining_eq (hr : r.Valid) : r.remaining = r.size - r.pos := by
  have hpos := hr.pos_le
  have hsize := hr.size_lt
  rw [ByteBufferReader.remaining]
  omega

namespace ReaderOp

theorem safe_read (hr : r.Valid) (op : ReadOp) : (read op).Safe host r := by
  have hpos := hr.pos_le
  have hreads := op.run_reads host
  by_cases hfit : r.pos + op.count ≤ r.size
  · obtain ⟨a, -, hop⟩ := hreads.fits r hr hfit
    have hrun : (read op).run host r = (.ok (), { r with pos := r.pos + op.count }) :=
      ReadM.map_eq hop _
    refine ⟨?_, ?_, ?_, ?_, ?_⟩
    · rw [hrun]
      exact hfit
    · rw [hrun]
    · simp [hrun]
    · rintro k ⟨⟩ -
      rw [hrun, hr.remaining_eq]
      exact ⟨by omega, rfl⟩
    · intro i hi
      simp only [accessed, hop, List.mem_map, List.mem_range] at hi
      omega
  · obtain ⟨what, hop⟩ := hreads.short r hr (by omega)
    have hrun : (read op).run host r = (.error what, r) := by simp [run, ReadM.map, hop]
    refine ⟨?_, ?_, ?_, ?_, ?_⟩
    · rw [hrun]
      exact hpos
    · rw [hrun]
    · simp [hrun]
    · simp [hrun]
    · simp [accessed, hop]

theorem run_of_accessed {op : ReadOp} {r' : ByteBufferReader} (hr : r.Valid) (hr' : r'.Valid)
    (hpos : r'.pos = r.pos) (hsize : r'.size = r.size) {datum : Datum}
    (h : (op.run host r).1 = .ok datum)
    (hdata : ∀ i ∈ (read op).accessed host r, r'.data.getD i 0 = r.data.getD i 0) :
    (op.run host r').1 = .ok datum := by
  have hreads := op.run_reads host
  by_cases hfit : r.pos + op.count ≤ r.size
  · have hfit' : r'.pos + op.count ≤ r'.size := by omega
    have hbytes : r'.bytesAt op.count = r.bytesAt op.count := by
      funext i
      rw [ByteBufferReader.bytesAt, ByteBufferReader.bytesAt, hpos]
      exact hdata _ (by simp [accessed, h])
    have hwindow : Lib.Slots.window r'.data r'.pos op.count =
        Lib.Slots.window r.data r.pos op.count := by
      rw [← ByteBufferReader.ofFn_bytesAt hfit, ← ByteBufferReader.ofFn_bytesAt hfit', hbytes]
    obtain ⟨a, hwin, hop⟩ := hreads.fits r hr hfit
    obtain ⟨a', hwin', hop'⟩ := hreads.fits r' hr' hfit'
    rw [hwindow, hwin] at hwin'
    rw [hop', ← hwin', ← h, hop]
  · obtain ⟨what, hop⟩ := hreads.short r hr (by omega)
    rw [hop] at h
    cases h

theorem covered (hr : r.Valid) (op : ReaderOp) : op.Covered host r := by
  rintro read datum rfl h r' hr' hpos hsize hdata
  exact run_of_accessed hr hr' hpos hsize h hdata

theorem safe_seek (hr : r.Valid) (pos : UInt64) : (seek pos).Safe host r := by
  have hpos := hr.pos_le
  by_cases hpast : pos.toNat > r.size
  · have hrun : (seek pos).run host r = (.error "Seek past end of buffer", r) := by
      simp [run, ByteBufferReader.seek, hpast]
    constructor <;> simp [hrun, count, accessed, ByteBufferReader.position, hpos]
  · have hrun : (seek pos).run host r = (.ok (), { r with pos := pos.toNat }) := by
      simp [run, ByteBufferReader.seek, hpast]
    constructor <;> simp [hrun, count, accessed, ByteBufferReader.position]
    omega

theorem safe_reset (r : ByteBufferReader) : reset.Safe host r := by
  constructor <;> simp [run, ByteBufferReader.reset, count, accessed, ByteBufferReader.position]

theorem run_skip (host : Host) (hr : r.Valid) (k : UInt64) :
    (r.pos + k.toNat ≤ r.size ∧
      (skip k).run host r = (.ok (), { r with pos := r.pos + k.toNat })) ∨
    (r.size < r.pos + k.toNat ∧ r.pos + k.toNat < 2 ^ 64 ∧
      ∃ what, (skip k).run host r = (.error what, r)) ∨
    ∃ q, r.pos + k.toNat = q + 2 ^ 64 ∧ (skip k).run host r = (.ok (), { r with pos := q }) := by
  have hpos := hr.pos_le
  have hsize := hr.size_lt
  have hk := k.toNat_lt
  by_cases hfit : r.pos + k.toNat ≤ r.size
  · refine .inl ⟨hfit, ?_⟩
    simp only [run, ByteBufferReader.skip, ByteBufferReader.checkRemaining_ok hfit,
      ByteBufferReader.advance_eq hr hfit]
  by_cases hwrap : 2 ^ 64 ≤ r.pos + k.toNat
  · obtain ⟨q, hq⟩ : ∃ q, r.pos + k.toNat = q + 2 ^ 64 := ⟨_, (Nat.sub_add_cancel hwrap).symm⟩
    have hmod : (r.pos + k.toNat) % 2 ^ 64 = q := by omega
    have hcheck : r.checkRemaining k.toNat = .ok () := by
      rw [ByteBufferReader.checkRemaining, hmod, if_neg (by omega)]
    refine .inr (.inr ⟨q, hq, ?_⟩)
    simp only [run, ByteBufferReader.skip, hcheck, ByteBufferReader.advance, hmod]
  · have hmod : (r.pos + k.toNat) % 2 ^ 64 = r.pos + k.toNat := by omega
    refine .inr (.inl ⟨by omega, by omega, ?_⟩)
    simp only [run, ByteBufferReader.skip, ByteBufferReader.checkRemaining, hmod,
      if_pos (show r.pos + k.toNat > r.size by omega), Prod.mk.injEq, Except.error.injEq, and_true,
      exists_eq']

theorem safe_skip_iff (hr : r.Valid) (k : UInt64) :
    (skip k).Safe host r ↔ ¬(skip k).Wraps r := by
  have hpos := hr.pos_le
  have hk := k.toNat_lt
  simp only [Wraps, ByteBufferReader.position]
  rcases run_skip host hr k with ⟨hfit, hrun⟩ | ⟨hlt, hno, what, hrun⟩ | ⟨q, hq, hrun⟩
  · have hsize := hr.size_lt
    refine ⟨fun _ => by omega, fun _ => ?_⟩
    refine ⟨?_, ?_, ?_, ?_, ?_⟩
    · rw [hrun]
      exact hfit
    · rw [hrun]
    · simp [hrun]
    · rintro k' ⟨⟩ -
      rw [hrun, hr.remaining_eq]
      exact ⟨by omega, rfl⟩
    · simp [accessed]
  · refine ⟨fun _ => by omega, fun _ => ?_⟩
    constructor <;> simp [hrun, count, accessed, ByteBufferReader.position, hpos]
  · refine ⟨fun hsafe => ?_, fun hno => by omega⟩
    have hmoves := (hsafe.moves k.toNat rfl (by rw [hrun])).2
    rw [hrun] at hmoves
    simp only [ByteBufferReader.position] at hmoves
    omega

theorem safe_iff (host : Host) (hr : r.Valid) (op : ReaderOp) : op.Safe host r ↔ ¬op.Wraps r := by
  cases op with
  | read op => simp [Wraps, safe_read hr op]
  | skip k => exact safe_skip_iff hr k
  | seek pos => simp [Wraps, safe_seek hr pos]
  | reset => simp [Wraps, safe_reset r]

theorem valid_run (hr : r.Valid) (op : ReaderOp) : (op.run host r).2.Valid := by
  by_cases hwraps : op.Wraps r
  · cases op with
    | skip k =>
      have hpos := hr.pos_le
      have hk := k.toNat_lt
      simp only [Wraps, ByteBufferReader.position] at hwraps
      rcases run_skip host hr k with ⟨hfit, hrun⟩ | ⟨-, hno, -⟩ | ⟨q, hq, hrun⟩
      · rw [hrun]
        exact hr.at hfit
      · omega
      · rw [hrun]
        exact hr.at (by omega)
    | _ => exact hwraps.elim
  · have hsafe := (safe_iff host hr op).mpr hwraps
    have hsize : (op.run host r).2.size = r.size := congrArg List.length hsafe.buffer
    exact ⟨hsize ▸ hsafe.inside, hsize ▸ hr.size_lt⟩

end ReaderOp

theorem valid_of_mem_steps (host : Host) (ops : List ReaderOp) {r : ByteBufferReader}
    (hr : r.Valid) :
    ∀ step ∈ steps host ops r, step.2.Valid := by
  induction ops generalizing r with
  | nil => simp [steps]
  | cons op ops ih =>
    rw [steps, List.forall_mem_cons]
    exact ⟨hr, ih (op.valid_run hr)⟩

/-- In a run over a buffer the cursor never leaves it, a read returns what the
bytes it accesses say, and every step is safe exactly when no step is a skip that
wraps. -/
theorem run_safe_iff (host : Host) {data : List UInt8} (hdata : data.length < 2 ^ 63)
    (ops : List ReaderOp) :
    (∀ step ∈ steps host ops ⟨data, 0⟩,
      (step.1.run host step.2).2.position ≤ (step.1.run host step.2).2.size) ∧
    ((∀ step ∈ steps host ops ⟨data, 0⟩, step.1.Safe host step.2) ↔
      ∀ step ∈ steps host ops ⟨data, 0⟩, ¬step.1.Wraps step.2) ∧
    ∀ step ∈ steps host ops ⟨data, 0⟩, step.1.Covered host step.2 := by
  have hvalid := valid_of_mem_steps host ops (.mk_zero hdata)
  refine ⟨fun step hstep => (step.1.valid_run (hvalid step hstep)).pos_le, ?_, ?_⟩
  · exact forall₂_congr fun step hstep => step.1.safe_iff host (hvalid step hstep)
  · exact fun step hstep => step.1.covered (hvalid step hstep)

theorem run_safe_iff_frame :
    (steps .x86 [.read (.scalar .uint16 .big), .skip 3] ⟨[1, 2, 3, 4, 5], 0⟩).length = 2 ∧
    ∀ step ∈ steps .x86 [.read (.scalar .uint16 .big), .skip 3] ⟨[1, 2, 3, 4, 5], 0⟩,
      step.1.Safe .x86 step.2 := by
  have hiff := run_safe_iff .x86 (show [1, 2, 3, 4, 5].length < 2 ^ 63 by decide)
    [.read (.scalar .uint16 .big), .skip 3]
  exact ⟨rfl, hiff.2.1.mpr (by decide)⟩

/-- A skip by `2 ^ 64 - 3` from the end of five bytes goes back by three. -/
theorem skip_goes_back :
    steps .x86 [.seek 5, .skip 0xFFFFFFFFFFFFFFFD] ⟨[1, 2, 3, 4, 5], 0⟩ =
        [(.seek 5, ⟨[1, 2, 3, 4, 5], 0⟩), (.skip 0xFFFFFFFFFFFFFFFD, ⟨[1, 2, 3, 4, 5], 5⟩)] ∧
      ReaderOp.run .x86 (.skip 0xFFFFFFFFFFFFFFFD) ⟨[1, 2, 3, 4, 5], 5⟩ =
        (.ok (), ⟨[1, 2, 3, 4, 5], 2⟩) ∧
      ¬(ReaderOp.skip 0xFFFFFFFFFFFFFFFD).Safe .x86 ⟨[1, 2, 3, 4, 5], 5⟩ := by
  refine ⟨rfl, rfl, fun hsafe => ?_⟩
  have hmoves := (hsafe.moves 0xFFFFFFFFFFFFFFFD rfl rfl).2
  exact absurd hmoves (by decide)

end IONet.Core
