import IONet.Codec.Session
import IONet.Schema.Expressible

namespace IONet.Codec

open IONet.Core Lib.Machine Decoder SchemaBuilder SchemaParserBase

variable {host : Host} {s t : Session} {a b : Schema}

theorem findPacketById_of_same (h : SameContent a b) (id : UInt32) :
    a.findPacketById id = b.findPacketById id := by
  rw [a.ids_leadToLast.found, b.ids_leadToLast.found, h.packets]

theorem findPacketByName_of_same (h : SameContent a b) (name : String) :
    a.findPacketByName name = b.findPacketByName name := by
  rw [a.names_leadToLast.found, b.names_leadToLast.found, h.packets]

theorem same_addPacket (h : SameContent a b) (packet : Packet) :
    SameContent (a.addPacket packet) (b.addPacket packet) where
  info := h.info
  byteOrder := h.byteOrder
  packets := by rw [Schema.packets_addPacket, Schema.packets_addPacket, h.packets]

structure SameSession (s t : Session) : Prop where
  schema : SameContent s.schema t.schema
  options : s.options = t.options
  reader : s.reader = t.reader

theorem decode_of_same (host : Host) (h : SameSession s t) (id : UInt32) (r : ByteBufferReader) :
    decode host s.decoder id r = decode host t.decoder id r := by
  rw [Session.decoder, Session.decoder, h.options]
  exact decode_congr h.schema.byteOrder (findPacketById_of_same h.schema id) r

theorem decodeByName_of_same (host : Host) (h : SameSession s t) (name : String)
    (data : List UInt8) :
    decodeByName host s.decoder name data = decodeByName host t.decoder name data := by
  rw [Session.decoder, Session.decoder, h.options]
  exact decodeByName_congr h.schema.byteOrder (findPacketByName_of_same h.schema name)
    (fun p _ => findPacketById_of_same h.schema p.id) data

theorem simulates_same (host : Host) :
    Simulates (Session.step host) (Session.step host) SameSession id fun _ => True where
  output s t c _ h := by
    cases c with
    | decode packetId =>
      simp only [Session.step, h.reader, decode_of_same host h, Option.map_some, id]
    | decodeData packetId data =>
      simp only [Session.step, decodeData, decode_of_same host h, Option.map_some, id]
    | decodeByName packetName data =>
      simp only [Session.step, decodeByName_of_same host h, Option.map_some, id]
    | move op => simp only [Session.step, h.reader, Option.map_some, id]
    | _ => rfl
  next s t c _ h := by
    obtain ⟨hschema, hoptions, hreader⟩ := h
    cases c with
    | setInfo info => exact ⟨⟨rfl, hschema.byteOrder, hschema.packets⟩, hoptions, hreader⟩
    | setByteOrder order => exact ⟨⟨hschema.info, rfl, hschema.packets⟩, hoptions, hreader⟩
    | addPacket packet => exact ⟨same_addPacket hschema packet, hoptions, hreader⟩
    | setOptions options => exact ⟨hschema, rfl, hreader⟩
    | decode packetId =>
      refine ⟨hschema, hoptions, ?_⟩
      simp only [Session.step, hreader, decode_of_same host ⟨hschema, hoptions, hreader⟩]
    | decodeData packetId data => exact ⟨hschema, hoptions, hreader⟩
    | decodeByName packetName data => exact ⟨hschema, hoptions, hreader⟩
    | move op => exact ⟨hschema, hoptions, congrArg (fun r => (op.run host r).2) hreader⟩

/-- A configuration that says nothing the builder has no method for can be given
up for calls to the builder: no session ever sees the difference. -/
theorem session_of_calls {ir : IRSchema} {schema : Schema} (h : buildSchema ir = .ok schema)
    (hplain : ∀ irPacket ∈ ir.packets, ∀ irField ∈ irPacket.fields, Plain irField) : ∃ calls,
    (∀ pre c post, calls = pre ++ c :: post → ¬c.Throws (SchemaBuilder.run pre)) ∧
      ∀ host options reader commands,
        (run (Session.step host) ⟨(SchemaBuilder.run calls).build, options, reader⟩ commands).1 =
          (run (Session.step host) ⟨schema, options, reader⟩ commands).1 := by
  obtain ⟨calls, hthrows, hsame⟩ := exists_calls ((expressible_iff_plain h).mpr hplain)
  refine ⟨calls, hthrows, fun host options reader commands => ?_⟩
  have hstart : SameSession ⟨(SchemaBuilder.run calls).build, options, reader⟩
      ⟨schema, options, reader⟩ := ⟨hsame, rfl, rfl⟩
  have hruns := (simulates_same host).runs (fun c (_ : c ∈ commands) => trivial) hstart
  exact hruns.1.trans (List.map_id _)

theorem session_of_calls_thermometer : ∃ schema, buildSchema thermometer = .ok schema ∧ ∃ calls,
    (run (Session.step .x86) ⟨(SchemaBuilder.run calls).build, {}, ⟨[7], 0⟩⟩ [.decode 1]).1 =
      (run (Session.step .x86) ⟨schema, {}, ⟨[7], 0⟩⟩ [.decode 1]).1 := by
  have hbuilds : ∃ schema, buildSchema thermometer = .ok schema := ⟨_, rfl⟩
  obtain ⟨schema, hschema⟩ := hbuilds
  have hplain : ∀ irPacket ∈ thermometer.packets, ∀ irField ∈ irPacket.fields, Plain irField := by
    simp only [thermometer, List.forall_mem_singleton]
    exact ⟨rfl, rfl, by simp, by simp, by simp⟩
  obtain ⟨calls, -, hsame⟩ := session_of_calls hschema hplain
  exact ⟨schema, hschema, calls, hsame .x86 {} ⟨[7], 0⟩ [.decode 1]⟩

end IONet.Codec
