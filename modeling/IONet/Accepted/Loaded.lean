import IONet.Accepted.Described
import IONet.Accepted.Diagnosed
import IONet.Schema.SchemaLoader

namespace IONet.Accepted

open IONet.Core Codec Codec.Decoder SchemaParserBase SchemaLoader

/-- The source has a text of the document, which is taken for the format that it
is in, on request or as its first character says. -/
structure Supplies (env : Environment) (source : SchemaSource) (format : SchemaFormat)
    (doc : SchemaDoc) : Prop where
  json : env.json.Converts
  yaml : env.yaml.Converts
  text : ∃ text, source.read env = .ok text ∧
    (JsonText env.json doc text ∧ chosen format text = .json ∨
      YamlText env.yaml doc text ∧ chosen format text = .yaml)

theorem parsed_of_supplies {env : Environment} {source : SchemaSource} {format : SchemaFormat}
    {doc : SchemaDoc} (h : Supplies env source format doc) (hfits : doc.Fits InWidth) :
    ∃ text, source.read env = .ok text ∧
      createParser env (chosen format text) text = some (buildSchema doc.toIR) := by
  obtain ⟨hjson, hyaml, text, hread, hrendered⟩ := h
  refine ⟨text, hread, ?_⟩
  rcases hrendered with ⟨htext, hformat⟩ | ⟨htext, hformat⟩
  · simp only [hformat, createParser, json_parse hjson htext]
  · simp only [hformat, createParser, (yaml_parse hyaml htext).1 hfits]

/-- A document that the specification allows, in either format and from any
source, is loaded, and what is decoded by it is what it describes. -/
theorem document_decoded {env : Environment} {source : SchemaSource} {format : SchemaFormat}
    {doc : SchemaDoc} (hsupplies : Supplies env source format doc) (hfits : doc.Fits InWidth)
    (hdocumented : Documented doc.toIR) (hbytes : NoBytes doc.toIR) :
    ∃ s, load env source format = some (.ok s) ∧ OrderMatches doc.toIR.info s.byteOrder ∧
      ∀ host o, ∀ packetDoc ∈ doc.packets, ∀ r packet r', r.Valid →
        decode host ⟨s, o⟩ (UInt32.ofInt packetDoc.id.val) r = (.ok packet, r') →
          Described host s.byteOrder o packetDoc r packet r' := by
  obtain ⟨s, hs⟩ := accepts_iff.mpr ⟨hdocumented, hbytes⟩
  obtain ⟨text, hread, hparsed⟩ := parsed_of_supplies hsupplies hfits
  rw [hs] at hparsed
  refine ⟨s, load_eq_ok_iff.mpr ⟨text, hread, hparsed⟩, ?_, ?_⟩
  · exact (schemaMatches_of_buildSchema hs).byteOrder
  · intro host o packetDoc hpacketDoc r packet r' hr h
    have hpackets := buildSchema_packets hs
    rw [SchemaDoc.toIR, List.forall₂_map_left_iff] at hpackets
    obtain ⟨p, hp, hbuild⟩ := Lib.Throwing.exists_of_mem hpackets hpacketDoc
    have hid := Schema.findPacketById_of_mem (buildSchema_valid hs) hp
    rw [(packetMatches_of_buildPacket hbuild).id] at hid
    exact described_of_decode (hfits packetDoc hpacketDoc) hbuild hid hr h

def sevenEnvironment : Environment where
  files _ := ⟨false, "", false⟩
  json := jsonKnowing (beaconText seven) (beaconJson seven)
  yaml := yamlKnowing (beaconText seven) (beaconYaml seven) seven.val

theorem toList_append_eq_cons {c : Char} {a : String} (b : String) (h : ∃ cs, a.toList = c :: cs) :
    ∃ cs, (a ++ b).toList = c :: cs := by
  obtain ⟨cs, hcs⟩ := h
  exact ⟨cs ++ b.toList, by rw [String.toList_append, hcs, List.cons_append]⟩

theorem detectFormat_beaconText (id : StoredInteger) : detectFormat (beaconText id) = .json := by
  have hbrace : ∃ cs, (beaconText id).toList = '\x7b' :: cs := by
    unfold beaconText
    exact toList_append_eq_cons _ (toList_append_eq_cons _ (toList_append_eq_cons _ ⟨_, rfl⟩))
  obtain ⟨cs, hcs⟩ := hbrace
  exact (detectFormat_eq_json_iff _).mpr ⟨[], '\x7b', cs, hcs, by simp, by decide, .inl rfl⟩

theorem supplies_beacon :
    Supplies sevenEnvironment (.string (beaconText seven) "string") .auto (beacon seven) where
  json := converts_jsonKnowing _ _
  yaml := converts_yamlKnowing _ _ _
  text := ⟨_, rfl, .inl ⟨(rendered_beacon seven).json, detectFormat_beaconText seven⟩⟩

theorem document_decoded_beacon : ∃ s,
    load sevenEnvironment (.string (beaconText seven) "string") .auto = some (.ok s) ∧
      ∀ packet r', decode .x86 ⟨s, {}⟩ 7 ⟨[3], 0⟩ = (.ok packet, r') →
        packet.packetName = "beacon" ∧ ∃ field, packet.fields = [field] ∧ field.name = "level" ∧
          field.rawValue = .uint64 3 := by
  have haccepted : Documented (beacon seven).toIR ∧ NoBytes (beacon seven).toIR :=
    accepts_iff.mp ⟨_, rfl⟩
  have hr : (ByteBufferReader.mk [3] 0).Valid := .mk_zero (by decide)
  have hfits := (fits_beacon_iff seven).mpr (by decide)
  obtain ⟨s, hs, -, hdecoded⟩ := document_decoded supplies_beacon hfits haccepted.1 haccepted.2
  refine ⟨s, hs, fun packet r' h => ?_⟩
  have hpacket := hdecoded .x86 {} _ List.mem_cons_self _ packet r' hr h
  obtain ⟨results, hfields, hlaid⟩ := hpacket.fields
  refine ⟨hpacket.name, ?_⟩
  generalize r'.pos = q at hlaid
  cases hlaid with
  | missed hgoesOn => cases hgoesOn
  | @read _ _ _ _ n field _ htakes hfit hmeets hrest =>
    have hnamed : "uint8" = dataTypeToString .uint8 := rfl
    obtain rfl : n = 1 := htakes.word_inv hnamed rfl
    obtain ⟨w, hw, hval⟩ := hmeets.raw.unsigned_inv hnamed rfl
    have hw3 : w = 3 := UInt64.toNat_inj.mp (hval.trans (container_byte _ _ 3))
    cases hrest
    exact ⟨field, hfields, hmeets.name, hw3 ▸ hw⟩

/-- Any other document is refused with the first thing that is wrong with it, in
the same words for both formats. -/
theorem document_refused {env : Environment} {source : SchemaSource} {format : SchemaFormat}
    {doc : SchemaDoc} (hsupplies : Supplies env source format doc) (hfits : doc.Fits InWidth)
    (e : Error) : load env source format = some (.error e) ↔ ∃ complaint,
      Refused doc.toIR complaint ∧
        e.message = "Failed to parse " ++ source.description ++ ": " ++ complaint := by
  obtain ⟨text, hread, hparsed⟩ := parsed_of_supplies hsupplies hfits
  have hrefused : ∀ cause, buildSchema doc.toIR = .error cause ↔ Refused doc.toIR cause.message :=
    fun cause => by rw [buildSchema_eq_error_iff, refused_iff]
  rw [load_eq_error_iff]
  constructor
  · rintro (⟨cause, hcause, -⟩ | ⟨content, cause, hcontent, hcause, hmessage⟩)
    · rw [hread] at hcause
      cases hcause
    · cases hread.symm.trans hcontent
      rw [hparsed, Option.some.injEq] at hcause
      exact ⟨cause.message, (hrefused cause).mp hcause, hmessage⟩
  · rintro ⟨complaint, hcomplaint, hmessage⟩
    have hbuild := (hrefused ⟨complaint⟩).mpr hcomplaint
    exact .inr ⟨text, ⟨complaint⟩, hread, by rw [hparsed, hbuild], hmessage⟩

def mute : SchemaDoc where
  packets := [{ id := seven, name := "mute", fields := [] }]

def muteText : String := "packets:\n- id: 7\n  name: mute\n  fields: []\n"

def muteYaml : Yaml :=
  .map [("packets", .sequence [.map [("id", .scalar seven.val.repr), ("name", .scalar "mute"),
    ("fields", .sequence [])]])]

def muteEnvironment : Environment where
  files path := ⟨path = "mute.yaml", muteText, false⟩
  json := jsonKnowing "null" .null
  yaml := yamlKnowing muteText muteYaml seven.val

theorem yamlText_mute : YamlText muteEnvironment.yaml mute muteText := by
  refine ⟨muteYaml, by simp [muteEnvironment, yamlKnowing], _, ⟨_, rfl, rfl⟩, .none, _, rfl, _,
    ⟨_, rfl, rfl⟩, ?_⟩
  exact .cons ⟨_, ⟨_, rfl, rfl⟩, ⟨_, rfl, _, rfl, by simp [muteEnvironment, yamlKnowing]⟩,
    ⟨_, rfl, rfl⟩, .none, _, rfl, _, ⟨_, rfl, rfl⟩, .nil⟩ .nil

theorem supplies_mute : Supplies muteEnvironment (.file "mute.yaml") .auto mute where
  json := converts_jsonKnowing _ _
  yaml := converts_yamlKnowing _ _ _
  text := ⟨_, rfl, .inr ⟨yamlText_mute, rfl⟩⟩

theorem document_refused_mute : load muteEnvironment (.file "mute.yaml") .auto =
    some (.error ⟨"Failed to parse file: mute.yaml: Schema validation failed: " ++
      "Packet 'mute' has no fields"⟩) := by
  have hfits : mute.Fits InWidth := by
    intro packet hpacket
    rw [mute, List.mem_singleton] at hpacket
    subst hpacket
    exact ⟨by decide, by simp⟩
  have hloads : Loads mute.toIR := ⟨.inl rfl, by simp [mute, SchemaDoc.toIR, PacketDoc.toIR]⟩
  have hcomplaint : Refused mute.toIR _ :=
    .fields hloads (by simp [mute, SchemaDoc.toIR]) (by simp [mute, SchemaDoc.toIR])
      (List.nil_append _).symm (by simp) rfl
  exact (document_refused supplies_mute hfits _).mpr ⟨_, hcomplaint, rfl⟩

end IONet.Accepted
