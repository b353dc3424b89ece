import IONet.Codec.Decoder

namespace IONet.Codec

open IONet.Core Decoder

variable {host : Host} {options : DecodeOptions} {s s' : Schema}

theorem decodeFields_of_options (s s' : Schema) (order : ByteOrder) (fs : List Field)
    (result : DecodedPacket) (r : ByteBufferReader) :
    decodeFields host ⟨s, options⟩ order fs result r =
      decodeFields host ⟨s', options⟩ order fs result r := by
  induction fs generalizing result r with
  | nil => rfl
  | cons f fs ih =>
    have hfield : decodeField host ⟨s, options⟩ f order =
        decodeField host ⟨s', options⟩ f order := rfl
    simp only [decodeFields, hfield, ih]

theorem decode_congr {id : UInt32} (horder : s.byteOrder = s'.byteOrder)
    (hfind : s.findPacketById id = s'.findPacketById id) (r : ByteBufferReader) :
    decode host ⟨s, options⟩ id r = decode host ⟨s', options⟩ id r := by
  simp only [decode, hfind, horder, decodeFields_of_options s s']

theorem decodeByName_congr {name : String} (horder : s.byteOrder = s'.byteOrder)
    (hname : s.findPacketByName name = s'.findPacketByName name)
    (hid : ∀ p, s.findPacketByName name = some p →
      s.findPacketById p.id = s'.findPacketById p.id) (data : List UInt8) :
    decodeByName host ⟨s, options⟩ name data = decodeByName host ⟨s', options⟩ name data := by
  simp only [decodeByName, ← hname]
  cases hfind : s.findPacketByName name with
  | none => rfl
  | some p => simp only [decodeData, decode_congr horder (hid p hfind)]

structure Undisturbed (host : Host) (options : DecodeOptions) (s : Schema) (packet : Packet) :
    Prop where
  decode : ∀ id, id ≠ packet.id → ∀ r,
    decode host ⟨s.addPacket packet, options⟩ id r = decode host ⟨s, options⟩ id r
  decodeByName : ∀ name, name ≠ packet.name → ∀ data,
    decodeByName host ⟨s.addPacket packet, options⟩ name data =
      decodeByName host ⟨s, options⟩ name data

theorem undisturbed_of_fresh {packet : Packet} (hid : packet.id ∉ s.packets.map Packet.id) :
    Undisturbed host options s packet where
  decode id hne r :=
    decode_congr (s.byteOrder_addPacket packet) (Schema.findPacketById_addPacket_of_ne hne) r
  decodeByName name hne data := by
    have hname := Schema.findPacketByName_addPacket_of_ne (s := s) hne
    apply decodeByName_congr (s.byteOrder_addPacket packet) hname
    intro p hp
    rw [hname] at hp
    apply Schema.findPacketById_addPacket_of_ne
    intro hsame
    exact hid (hsame ▸ List.mem_map_of_mem (Schema.mem_of_findPacketByName hp))

theorem decode_of_perm (horder : s.byteOrder = s'.byteOrder) (hs : s.Valid)
    (hperm : s.packets.Perm s'.packets) (id : UInt32) (r : ByteBufferReader) :
    decode host ⟨s, options⟩ id r = decode host ⟨s', options⟩ id r :=
  decode_congr horder (Schema.findPacketById_of_perm hs hperm id) r

theorem decodeByName_of_perm (horder : s.byteOrder = s'.byteOrder) (hs : s.Valid)
    (hperm : s.packets.Perm s'.packets) (name : String) (data : List UInt8) :
    decodeByName host ⟨s, options⟩ name data = decodeByName host ⟨s', options⟩ name data :=
  decodeByName_congr horder (Schema.findPacketByName_of_perm hs hperm name)
    (fun p _ => Schema.findPacketById_of_perm hs hperm p.id) data

/-- Two accepted schemas with the same packets decode alike, in whatever order
the packets were added, and a packet that is new to a schema disturbs no other. -/
theorem decode_order_irrelevant (host : Host) (options : DecodeOptions) (s : Schema) :
    (∀ s' : Schema, s.byteOrder = s'.byteOrder → s.validate = .ok () → s'.validate = .ok () →
      s.packets.Perm s'.packets →
      (∀ id r, decode host ⟨s, options⟩ id r = decode host ⟨s', options⟩ id r) ∧
        ∀ name data, decodeByName host ⟨s, options⟩ name data =
          decodeByName host ⟨s', options⟩ name data) ∧
    ∀ packet : Packet, packet.id ∉ s.packets.map Packet.id →
      packet.name ∉ s.packets.map Packet.name → Undisturbed host options s packet := by
  constructor
  · intro s' horder hvalid _ hperm
    have hs := (Schema.validate_eq_ok_iff s).mp hvalid
    exact ⟨decode_of_perm horder hs hperm, decodeByName_of_perm horder hs hperm⟩
  · intro packet hid _
    exact undisturbed_of_fresh hid

def levelPacket : Packet where
  id := 1
  name := "level"
  fields := [{ name := "level" }]

def depthPacket : Packet where
  id := 2
  name := "depth"
  fields := [{ name := "depth", type := .int16 }]

theorem decode_order_irrelevant_swapped :
    (∀ id r, decode .x86 ⟨(({} : Schema).addPacket levelPacket).addPacket depthPacket, {}⟩ id r =
      decode .x86 ⟨(({} : Schema).addPacket depthPacket).addPacket levelPacket, {}⟩ id r) ∧
    Undisturbed .x86 {} (({} : Schema).addPacket levelPacket) depthPacket := by
  have hswapped := decode_order_irrelevant .x86 {}
    ((({} : Schema).addPacket levelPacket).addPacket depthPacket)
  have hfresh := decode_order_irrelevant .x86 {} (({} : Schema).addPacket levelPacket)
  constructor
  · exact (hswapped.1 ((({} : Schema).addPacket depthPacket).addPacket levelPacket) rfl (by decide)
      (by decide) (.swap depthPacket levelPacket [])).1
  · exact hfresh.2 depthPacket (by decide) (by decide)

end IONet.Codec
