import IONet.Codec.ByName
import IONet.Codec.Refinement
import IONet.Codec.Reordered
import IONet.Lib.Machine

/-! A decoder at work.  It holds a reference to its schema, so what is added to
the schema later is seen by the next call. -/

namespace IONet.Codec

open IONet.Core Lib.LastIndex Lib.Machine Decoder

structure Session where
  schema : Schema
  options : DecodeOptions
  reader : ByteBufferReader

inductive Command
  | setInfo (info : SchemaInfo) : Command
  | setByteOrder (order : ByteOrder) : Command
  | addPacket (packet : Packet) : Command
  | setOptions (options : DecodeOptions) : Command
  | decode (packetId : UInt32) : Command
  | decodeData (packetId : UInt32) (data : List UInt8) : Command
  | decodeByName (packetName : String) (data : List UInt8) : Command
  | move (op : ReaderOp) : Command

inductive Outcome
  | decoded (result : Result DecodedPacket) : Outcome
  | moved (result : Except String Unit) : Outcome

namespace Session

def decoder (s : Session) : Decoder := ⟨s.schema, s.options⟩

def step (host : Host) : Step Session Command Outcome
  | s, .setInfo info => (none, { s with schema := s.schema.setInfo info })
  | s, .setByteOrder order => (none, { s with schema := s.schema.setByteOrder order })
  | s, .addPacket packet => (none, { s with schema := s.schema.addPacket packet })
  | s, .setOptions options => (none, { s with options := options })
  | s, .decode packetId =>
    let result := decode host s.decoder packetId s.reader
    (some (.decoded result.1), { s with reader := result.2 })
  | s, .decodeData packetId data => (some (.decoded (decodeData host s.decoder packetId data)), s)
  | s, .decodeByName packetName data =>
    (some (.decoded (decodeByName host s.decoder packetName data)), s)
  | s, .move op =>
    let result := op.run host s.reader
    (some (.moved result.1), { s with reader := result.2 })

end Session

theorem findPacketById_addPacket (s : Schema) (packet : Packet) (id : UInt32) :
    (s.addPacket packet).findPacketById id =
      if packet.id = id then some packet else s.findPacketById id := by
  rw [(s.addPacket packet).ids_leadToLast.found, s.ids_leadToLast.found, Schema.packets_addPacket,
    findRev?_concat]
  simp

theorem findPacketByName_addPacket (s : Schema) (packet : Packet) (name : String) :
    (s.addPacket packet).findPacketByName name =
      if packet.name = name then some packet else s.findPacketByName name := by
  rw [(s.addPacket packet).names_leadToLast.found, s.names_leadToLast.found,
    Schema.packets_addPacket, findRev?_concat]
  simp

/-- The ids and names that a session asks for. -/
structure Scope where
  ids : UInt32 → Bool
  names : String → Bool

namespace Scope

variable (scope : Scope)

def Closed (packet : Packet) : Prop := scope.names packet.name = true → scope.ids packet.id = true

def visible : Command → Bool
  | .setInfo _ => false
  | .addPacket packet => scope.ids packet.id || scope.names packet.name
  | _ => true

def Within : Command → Prop
  | .addPacket packet => scope.Closed packet
  | .decode packetId => scope.ids packetId = true
  | .decodeData packetId _ => scope.ids packetId = true
  | .decodeByName packetName _ => scope.names packetName = true
  | _ => True

/-- Two sessions that look the same to the commands within the scope. -/
structure Alike (s t : Session) : Prop where
  options : s.options = t.options
  reader : s.reader = t.reader
  byteOrder : s.schema.byteOrder = t.schema.byteOrder
  ids : ∀ id, scope.ids id = true → s.schema.findPacketById id = t.schema.findPacketById id
  names : ∀ name, scope.names name = true →
    s.schema.findPacketByName name = t.schema.findPacketByName name
  closed : ∀ name packet, scope.names name = true → s.schema.findPacketByName name = some packet →
    scope.ids packet.id = true

end Scope

section

variable {host : Host} {scope : Scope} {s t : Session}

theorem alike_of_closed (hclosed : ∀ packet ∈ s.schema.packets, scope.Closed packet) :
    scope.Alike s s where
  options := rfl
  reader := rfl
  byteOrder := rfl
  ids _ _ := rfl
  names _ _ := rfl
  closed name packet hname hfind := by
    obtain ⟨i, hlast, hpacket⟩ := s.schema.nameIndexed.find_eq_some_iff.mp hfind
    subst hpacket
    exact hclosed packet (List.mem_of_getElem? hlast.1) hname

theorem Scope.Alike.addHidden (h : scope.Alike s t) {packet : Packet}
    (hhidden : scope.visible (.addPacket packet) = false) :
    scope.Alike { s with schema := s.schema.addPacket packet } t := by
  rw [visible, Bool.or_eq_false_iff] at hhidden
  have hid : ∀ id, scope.ids id = true → packet.id ≠ id := by
    rintro _ hscope rfl
    rw [hhidden.1] at hscope
    cases hscope
  have hname : ∀ name, scope.names name = true → packet.name ≠ name := by
    rintro _ hscope rfl
    rw [hhidden.2] at hscope
    cases hscope
  refine ⟨h.options, h.reader, h.byteOrder, fun id hscope => ?_, fun name hscope => ?_,
    fun name found hscope hfind => ?_⟩
  · rw [findPacketById_addPacket, if_neg (hid id hscope)]
    exact h.ids id hscope
  · rw [findPacketByName_addPacket, if_neg (hname name hscope)]
    exact h.names name hscope
  · rw [findPacketByName_addPacket, if_neg (hname name hscope)] at hfind
    exact h.closed name found hscope hfind

theorem Scope.Alike.addPacket (h : scope.Alike s t) {packet : Packet}
    (hclosed : scope.Closed packet) :
    scope.Alike { s with schema := s.schema.addPacket packet }
      { t with schema := t.schema.addPacket packet } := by
  refine ⟨h.options, h.reader, h.byteOrder, fun id hscope => ?_, fun name hscope => ?_,
    fun name found hscope hfind => ?_⟩
  · rw [findPacketById_addPacket, findPacketById_addPacket, h.ids id hscope]
  · rw [findPacketByName_addPacket, findPacketByName_addPacket, h.names name hscope]
  · rw [findPacketByName_addPacket] at hfind
    split_ifs at hfind with hsame
    · cases hfind
      exact hclosed (hsame ▸ hscope)
    · exact h.closed name found hscope hfind

theorem Scope.Alike.decode (host : Host) (h : scope.Alike s t) {id : UInt32}
    (hid : scope.ids id = true) (r : ByteBufferReader) :
    Decoder.decode host s.decoder id r = Decoder.decode host t.decoder id r := by
  rw [Session.decoder, Session.decoder, h.options]
  exact decode_congr h.byteOrder (h.ids id hid) r

theorem Scope.Alike.decodeByName (host : Host) (h : scope.Alike s t) {name : String}
    (hname : scope.names name = true) (data : List UInt8) :
    Decoder.decodeByName host s.decoder name data =
      Decoder.decodeByName host t.decoder name data := by
  rw [Session.decoder, Session.decoder, h.options]
  exact decodeByName_congr h.byteOrder (h.names name hname)
    (fun p hp => h.ids p.id (h.closed name p hname hp)) data

/-- Commands within the scope see the two sessions alike, and keep them so. -/
theorem simulates_visible (host : Host) (scope : Scope) :
    Simulates (Session.step host) (Session.step host) scope.Alike id
      fun c => scope.Within c ∧ scope.visible c = true where
  output s t c hc h := by
    cases c with
    | decode packetId =>
      simp only [Session.step, h.reader, h.decode host hc.1, Option.map_some, id]
    | decodeData packetId data =>
      simp only [Session.step, decodeData, h.decode host hc.1, Option.map_some, id]
    | decodeByName packetName data =>
      simp only [Session.step, h.decodeByName host hc.1, Option.map_some, id]
    | move op => simp only [Session.step, h.reader, Option.map_some, id]
    | _ => rfl
  next s t c hc h := by
    cases c with
    | setInfo info => exact ⟨h.options, h.reader, h.byteOrder, h.ids, h.names, h.closed⟩
    | setByteOrder order => exact ⟨h.options, h.reader, rfl, h.ids, h.names, h.closed⟩
    | addPacket packet => exact h.addPacket hc.1
    | setOptions options => exact ⟨rfl, h.reader, h.byteOrder, h.ids, h.names, h.closed⟩
    | decode packetId =>
      have hreader := congrArg Prod.snd (h.decode host hc.1 t.reader)
      refine ⟨h.options, ?_, h.byteOrder, h.ids, h.names, h.closed⟩
      simp only [Session.step, h.reader, hreader]
    | decodeData packetId data => exact h
    | decodeByName packetName data => exact h
    | move op =>
      refine ⟨h.options, ?_, h.byteOrder, h.ids, h.names, h.closed⟩
      simp only [Session.step, h.reader]

def growing : List Command :=
  [.decode 1, .addPacket { id := 2, name := "other", fields := [{ name := "x" }] }, .decode 1]

def growingSession : Session where
  schema := Schema.addPackets [{ id := 1, name := "level", fields := [{ name := "level" }] }]
  options := {}
  reader := ⟨[7, 8], 0⟩

end

section

variable {host : Host} {s : Session}

def ComesFrom (packets : List Packet) (packet : DecodedPacket) : Prop :=
  ∃ p ∈ packets, packet.packetId = p.id ∧ packet.packetName = p.name ∧
    (packet.fields.map DecodedField.name).Sublist (p.fields.map Field.name)

theorem comesFrom_of_decode {d : Decoder} {id : UInt32} {r : ByteBufferReader}
    {packet : DecodedPacket} (h : (decode host d id r).1 = .ok packet) :
    ComesFrom d.schema.packets packet := by
  have hdecode : decode host d id r = (.ok packet, (decode host d id r).2) := Prod.ext h rfl
  obtain ⟨p, hid⟩ := find_of_decode hdecode
  obtain ⟨i, hlast, hp⟩ := d.schema.idIndexed.find_eq_some_iff.mp hid
  simp only [decode, hid] at hdecode
  have hnames := names_taken d (attempts host d.schema.byteOrder p.fields r).1
  rw [fst_attempts] at hnames
  refine ⟨p, List.mem_of_getElem? hlast.1, ?_, ?_, ?_⟩
  · rw [packet_of_decodeFields hdecode, DecodedPacket.packetId_foldl_addField, hp]
  · rw [packet_of_decodeFields hdecode, DecodedPacket.packetName_foldl_addField]
  · rw [packet_of_decodeFields hdecode, DecodedPacket.fields_foldl_addField]
    exact hnames

theorem comesFrom_of_step {c : Command} {packet : DecodedPacket}
    (h : (Session.step host s c).1 = some (.decoded (.ok packet))) :
    ComesFrom s.schema.packets packet := by
  cases c with
  | decode packetId =>
    simp only [Session.step, Option.some.injEq, Outcome.decoded.injEq] at h
    exact comesFrom_of_decode h
  | decodeData packetId data =>
    simp only [Session.step, Option.some.injEq, Outcome.decoded.injEq] at h
    exact comesFrom_of_decode h
  | decodeByName packetName data =>
    simp only [Session.step, Option.some.injEq, Outcome.decoded.injEq] at h
    cases hname : s.schema.findPacketByName packetName with
    | none => simp [decodeByName, Session.decoder, hname] at h
    | some p =>
      rw [decodeByName_of_find (d := s.decoder) hname] at h
      exact comesFrom_of_decode h
  | _ => simp [Session.step] at h

theorem packets_step (s : Session) (c : Command) :
    s.schema.packets <+: (Session.step host s c).2.schema.packets := by
  cases c with
  | addPacket packet => exact List.prefix_append _ _
  | _ => exact List.prefix_rfl

theorem packets_run (s : Session) (commands : List Command) :
    s.schema.packets <+: (run (Session.step host) s commands).2.schema.packets :=
  run_invariant (I := fun t => s.schema.packets <+: t.schema.packets)
    (fun t c h => h.trans (packets_step t c)) commands List.prefix_rfl

theorem ComesFrom.mono {packets packets' : List Packet} {packet : DecodedPacket}
    (h : ComesFrom packets packet) (hextends : packets <+: packets') :
    ComesFrom packets' packet := by
  obtain ⟨p, hp, hpacket⟩ := h
  exact ⟨p, hextends.subset hp, hpacket⟩

theorem comesFrom_of_run (s : Session) (commands : List Command) {packet : DecodedPacket}
    (h : .decoded (.ok packet) ∈ (run (Session.step host) s commands).1) :
    ComesFrom (run (Session.step host) s commands).2.schema.packets packet := by
  induction commands generalizing s with
  | nil => cases h
  | cons c commands ih =>
    rw [run, List.mem_append, Option.mem_toList] at h
    rcases h with h | h
    · exact (comesFrom_of_step h).mono ((packets_step s c).trans (packets_run _ commands))
    · exact ih _ h

def Inside (data : List UInt8) (r : ByteBufferReader) : Prop := r.data = data ∧ r.Valid

theorem inside_decode {data : List UInt8} {r : ByteBufferReader} (h : Inside data r) (host : Host)
    (d : Decoder) (id : UInt32) : Inside data (decode host d id r).2 := by
  obtain ⟨rfl, hr⟩ := h
  cases hid : d.schema.findPacketById id with
  | none =>
    rw [decode_unknown hid]
    exact ⟨rfl, hr⟩
  | some p =>
    obtain ⟨k, -, hreader, -⟩ := decodeFields_leaves host d d.schema.byteOrder p.fields
      { packetId := id, packetName := p.name } hr
    have hbounded := bounded_reads host hr (reads d.schema.byteOrder (p.fields.take k))
    have hsize : (leaves host _ r).size = r.size := congrArg List.length hbounded.buffer
    rw [decode_of_find hid, hreader]
    exact ⟨hbounded.buffer, hsize ▸ hbounded.inside, hsize ▸ hr.size_lt⟩

theorem inside_move {data : List UInt8} {r : ByteBufferReader} (h : Inside data r) (host : Host)
    (op : ReaderOp) : Inside data (op.run host r).2 := by
  obtain ⟨rfl, hr⟩ := h
  refine ⟨?_, op.valid_run hr⟩
  cases op with
  | skip k =>
    rcases ReaderOp.run_skip host hr k with ⟨-, hrun⟩ | ⟨-, -, what, hrun⟩ | ⟨q, -, hrun⟩ <;>
      rw [hrun]
  | read op => exact (ReaderOp.safe_read hr op).buffer
  | seek pos => exact (ReaderOp.safe_seek hr pos).buffer
  | reset => rfl

/-- In any run, whatever is added and changed on the way, packets only come from
the definitions that the schema has in the end, and the reader stays inside the
one buffer. -/
theorem session_sound (host : Host) {s : Session} (hr : s.reader.Valid) (commands : List Command) :
    (∀ packet, .decoded (.ok packet) ∈ (run (Session.step host) s commands).1 →
      ComesFrom (run (Session.step host) s commands).2.schema.packets packet) ∧
    (run (Session.step host) s commands).2.reader.data = s.reader.data ∧
    (run (Session.step host) s commands).2.reader.Valid := by
  refine ⟨fun packet => comesFrom_of_run s commands, ?_⟩
  refine run_invariant (I := fun t : Session => Inside s.reader.data t.reader) (fun t c h => ?_)
    commands ⟨rfl, hr⟩
  cases c with
  | decode packetId => exact inside_decode h host t.decoder packetId
  | move op => exact inside_move h host op
  | _ => exact h

theorem session_sound_growing :
    (run (Session.step .x86) growingSession growing).2.reader.data = [7, 8] ∧
      (run (Session.step .x86) growingSession growing).2.reader.Valid := by
  have hr : growingSession.reader.Valid := .mk_zero (by decide)
  exact (session_sound .x86 hr growing).2

end

end IONet.Codec
