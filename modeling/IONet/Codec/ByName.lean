import IONet.Codec.Options

namespace IONet.Codec

open IONet.Core Decoder Lib.LastIndex

def ownDecode (host : Host) (d : Decoder) (p : Packet) (data : List UInt8) : Result DecodedPacket :=
  (decodeFields host d d.schema.byteOrder p.fields { packetId := p.id, packetName := p.name }
    ⟨data, 0⟩).1

/-- Under any options and for any buffer, the packet that is decoded is the one
that was named. -/
structure DecodesNamed (host : Host) (s : Schema) (name : String) : Prop where
  decoded : ∀ o data packet, decodeByName host ⟨s, o⟩ name data = .ok packet →
    packet.packetName = name ∧ ∃ p own, s.findPacketByName name = some p ∧
      ownDecode host ⟨s, o⟩ p data = .ok own ∧ packet.fields = own.fields
  failed : ∀ o data p e, s.findPacketByName name = some p →
    ownDecode host ⟨s, o⟩ p data = .error e → ∃ e', decodeByName host ⟨s, o⟩ name data = .error e'

/-- The packet added last under the name is also the one added last under its id. -/
def Unovertaken (s : Schema) (name : String) : Prop :=
  ∀ i p, LastAt Packet.name s.packets i p → p.name = name → LastAt Packet.id s.packets i p

variable {host : Host} {s : Schema} {name : String} {p : Packet}

theorem decodeByName_of_find {d : Decoder} (hname : d.schema.findPacketByName name = some p)
    (data : List UInt8) : decodeByName host d name data = decodeData host d p.id data := by
  simp [decodeByName, hname]

theorem decodeData_eq_own {d : Decoder} (hid : d.schema.findPacketById p.id = some p)
    (data : List UInt8) : decodeData host d p.id data = ownDecode host d p data := by
  simp only [decodeData, decode, hid, ownDecode]

theorem packetName_of_decode {d : Decoder} {id : UInt32} (hid : d.schema.findPacketById id = some p)
    {r r' : ByteBufferReader} {packet : DecodedPacket} (h : decode host d id r = (.ok packet, r')) :
    packet.packetName = p.name := by
  simp only [decode, hid] at h
  rw [packet_of_decodeFields h, DecodedPacket.packetName_foldl_addField]

theorem decodesNamed_of_unovertaken (h : Unovertaken s name) : DecodesNamed host s name := by
  have hown : ∀ o data p, s.findPacketByName name = some p → p.name = name ∧
      s.findPacketById p.id = some p ∧
      decodeByName host ⟨s, o⟩ name data = ownDecode host ⟨s, o⟩ p data := by
    intro o data p hname
    obtain ⟨i, hlast, hp⟩ := s.nameIndexed.find_eq_some_iff.mp hname
    have hid : s.findPacketById p.id = some p :=
      s.idIndexed.find_eq_some_iff.mpr ⟨i, h i p hlast hp, rfl⟩
    refine ⟨hp, hid, ?_⟩
    rw [decodeByName_of_find (d := ⟨s, o⟩) hname, decodeData_eq_own (d := ⟨s, o⟩) hid]
  constructor
  · intro o data packet hdecode
    cases hname : s.findPacketByName name with
    | none => simp [decodeByName, hname] at hdecode
    | some p =>
      obtain ⟨hp, hid, heq⟩ := hown o data p hname
      refine ⟨?_, p, packet, rfl, heq ▸ hdecode, rfl⟩
      rw [decodeByName_of_find (d := ⟨s, o⟩) hname] at hdecode
      rw [← hp]
      exact packetName_of_decode (d := ⟨s, o⟩) hid (Prod.ext hdecode rfl)
  · intro o data p e hname he
    exact ⟨e, (hown o data p hname).2.2.trans he⟩

theorem unovertaken_of_decodesNamed (h : DecodesNamed host s name) : Unovertaken s name := by
  intro i p hlast hp
  have hname : s.findPacketByName name = some p := s.nameIndexed.find_eq_some_iff.mpr ⟨i, hlast, hp⟩
  refine ⟨hlast.1, fun j q hj hq hqid => ?_⟩
  obtain ⟨k, last, hjk, hlastid, hid⟩ := s.idIndexed.exists_lastAt hq
  have hid : s.findPacketById p.id = some last :=
    s.idIndexed.find_eq_some_iff.mpr ⟨k, hlastid, hid.trans hqid⟩
  -- Lenient decoding cannot fail, so the wrong name does come back.
  have hdecode := decode_lenient host (d := ⟨s, { stopOnError := false }⟩) hid rfl ⟨[], 0⟩
  have hok := (decodeByName_of_find (d := ⟨s, { stopOnError := false }⟩) hname []).trans
    (congrArg Prod.fst hdecode)
  have hwrong := (h.decoded _ [] _ hok).1
  rw [DecodedPacket.packetName_foldl_addField] at hwrong
  exact hlast.2 k last (by omega) hlastid.1 (hwrong.trans hp.symm)

theorem unovertaken_of_valid (hs : s.Valid) (name : String) : Unovertaken s name := by
  intro i p hlast _
  refine ⟨hlast.1, fun j q hj hq hqid => ?_⟩
  have hpid := (Schema.lookup_of_valid hs hlast.1).1
  have hqid' := (Schema.lookup_of_valid hs hq).1
  rw [hqid, hpid] at hqid'
  exact absurd (Option.some.inj hqid') (by omega)

/-- The name is resolved to an id and the id once more: the two agree unless the
id was taken over by a later packet, as it never is in a valid schema. -/
theorem decodeByName_iff (host : Host) (s : Schema) (name : String) :
    (DecodesNamed host s name ↔ Unovertaken s name) ∧ (s.Valid → Unovertaken s name) :=
  ⟨⟨unovertaken_of_decodesNamed, decodesNamed_of_unovertaken⟩,
    fun hs => unovertaken_of_valid hs name⟩

def overtaken : Schema := Schema.addPackets
  [{ id := 1, name := "first", fields := [{ name := "a" }] },
   { id := 1, name := "second", fields := [{ name := "b" }] }]

theorem overtaken_decodes_other :
    (∃ packet, decodeByName .x86 ⟨overtaken, {}⟩ "first" [7] = .ok packet ∧
      packet.packetName = "second") ∧ ¬DecodesNamed .x86 overtaken "first" := by
  have hother : ∃ packet, decodeByName .x86 ⟨overtaken, {}⟩ "first" [7] = .ok packet ∧
      packet.packetName = "second" := ⟨_, rfl, rfl⟩
  refine ⟨hother, fun h => ?_⟩
  obtain ⟨packet, hpacket, hsecond⟩ := hother
  have hfirst := (h.decoded {} [7] packet hpacket).1
  rw [hsecond] at hfirst
  exact absurd hfirst (by decide)

end IONet.Codec
