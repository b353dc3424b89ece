import IONet.Accepted.Document
import IONet.Accepted.Language

namespace IONet.Accepted

open IONet.Core SchemaParserBase Lib.Throwing

def jsonFormat : Format Json where
  Mapping node get := ∃ members, node = .object members ∧ get = fun key => members.lookup key
  Sequence node nodes := node = .array nodes
  Text node s := node = .string s
  Number node x := node = .float x ∨ ∃ n : StoredInteger, node = .integer n ∧ Double.ofInt n.val = x
  Integer node n := node = .integer n

def yamlFormat (lib : YamlLibrary) : Format YamlNode where
  Mapping node get := ∃ entries, node = .valid (.map entries) ∧
    get = fun key => (entries.lookup key).map .valid
  Sequence node nodes := ∃ items, node = .valid (.sequence items) ∧ nodes = items.map .valid
  Text node s := node = .valid (.scalar s)
  Number node x := ∃ text, node = .valid (.scalar text) ∧ lib.number text = some x
  Integer node n := ∃ text, node = .valid (.scalar text) ∧ lib.integer text = some n.val

def InWidth (bits : Nat) (n : Int) : Prop := 0 ≤ n ∧ n < 2 ^ bits

instance (bits : Nat) (n : Int) : Decidable (InWidth bits n) :=
  inferInstanceAs (Decidable (0 ≤ n ∧ n < 2 ^ bits))

theorem json_reads {lib : JsonLibrary} (hlib : lib.Converts) :
    Reads (JsonSchemaParser.access lib) jsonFormat fun _ _ => True where
  contains := by
    rintro _ _ ⟨members, rfl, rfl⟩ key
    rfl
  subscript := by
    rintro _ _ ⟨members, rfl, rfl⟩ key child hchild
    simp [JsonSchemaParser.access, JsonSchemaParser.subscript, hchild]
  isSequence := by
    rintro _ nodes rfl
    rfl
  items := by
    rintro _ nodes rfl
    rfl
  text := by
    rintro _ s rfl
    simp [JsonSchemaParser.access, hlib.string, Stop.ofLibrary]
  number := by
    rintro _ x (rfl | ⟨n, rfl, rfl⟩)
    · simp [JsonSchemaParser.access, hlib.float, Stop.ofLibrary]
    · simp [JsonSchemaParser.access, hlib.double, Stop.ofLibrary]
  uint8 := by
    rintro _ n rfl
    exact Settles.of_eq (by simp [JsonSchemaParser.access, hlib.uint8, Stop.ofLibrary])
  uint32 := by
    rintro _ n rfl
    exact Settles.of_eq (by simp [JsonSchemaParser.access, hlib.uint32, Stop.ofLibrary])
  size := by
    rintro _ n rfl
    exact Settles.of_eq (by simp [JsonSchemaParser.access, hlib.size, Stop.ofLibrary])

theorem settles_of_checked {bits : Nat} {n : Int} {converted : Except String α} {a : α}
    (h : Checked bits n converted a) :
    Settles FromLibrary (InWidth bits n) (Stop.ofLibrary converted) a where
  returns hfits := by
    rw [h.fits hfits.1 hfits.2]
    rfl
  throws hnot := by
    obtain ⟨what, hwhat⟩ := h.refused hnot
    exact ⟨.library what, ⟨what, rfl⟩, by rw [hwhat]; rfl⟩

theorem yaml_reads {lib : YamlLibrary} (hlib : lib.Converts) :
    Reads (YamlSchemaParser.access lib) (yamlFormat lib) InWidth where
  contains := by
    rintro _ _ ⟨entries, rfl, rfl⟩ key
    simp only [YamlSchemaParser.access, YamlSchemaParser.subscript]
    cases entries.lookup key <;> rfl
  subscript := by
    rintro _ _ ⟨entries, rfl, rfl⟩ key child hchild
    obtain ⟨tree, htree, rfl⟩ := Option.map_eq_some_iff.mp hchild
    simp [YamlSchemaParser.access, YamlSchemaParser.subscript, htree]
  isSequence := by
    rintro _ _ ⟨items, rfl, rfl⟩
    rfl
  items := by
    rintro _ _ ⟨items, rfl, rfl⟩
    rfl
  text := by
    rintro _ s rfl
    simp [YamlSchemaParser.access, YamlSchemaParser.converted, hlib.string, Stop.ofLibrary]
  number := by
    rintro _ x ⟨text, rfl, hx⟩
    simp [YamlSchemaParser.access, YamlSchemaParser.converted, hlib.double text x hx,
      Stop.ofLibrary]
  uint8 := by
    rintro _ n ⟨text, rfl, hn⟩
    exact settles_of_checked (hlib.uint8 text n.val hn)
  uint32 := by
    rintro _ n ⟨text, rfl, hn⟩
    exact settles_of_checked (hlib.uint32 text n.val hn)
  size := by
    rintro _ n ⟨text, rfl, hn⟩
    exact settles_of_checked (hlib.size text n.val hn)

def Agree : Option (Result Schema) → Option (Result Schema) → Prop
  | some (.error _), some (.error _) => True
  | some (.ok s), some (.ok s') =>
    s.info = s'.info ∧ s.byteOrder = s'.byteOrder ∧ s.packets = s'.packets
  | _, _ => False

theorem agree_self (result : Result Schema) : Agree (some result) (some result) := by
  cases result with
  | error e => trivial
  | ok s => exact ⟨rfl, rfl, rfl⟩

theorem agree_error_iff {result : Result Schema} {e : Error} :
    Agree (some result) (some (.error e)) ↔ ¬∃ s, result = .ok s := by
  cases result <;> simp [Agree]

def JsonText (json : JsonLibrary) (doc : SchemaDoc) (text : String) : Prop :=
  ∃ root, json.parse text = .ok root ∧ Renders jsonFormat root doc

def YamlText (yaml : YamlLibrary) (doc : SchemaDoc) (text : String) : Prop :=
  ∃ root, yaml.load text = .ok root ∧ Renders (yamlFormat yaml) (.valid root) doc

structure Rendered (json : JsonLibrary) (yaml : YamlLibrary) (doc : SchemaDoc)
    (jsonText yamlText : String) : Prop where
  json : JsonText json doc jsonText
  yaml : YamlText yaml doc yamlText

section

variable {json : JsonLibrary} {yaml : YamlLibrary} {doc : SchemaDoc} {jsonText yamlText : String}

theorem json_parse (hjson : json.Converts) (h : JsonText json doc jsonText) :
    JsonSchemaParser.parse json jsonText = some (buildSchema doc.toIR) := by
  obtain ⟨root, hroot, hrenders⟩ := h
  have hwalk := ((json_reads hjson).root hrenders).returns
    fun _ _ => ⟨trivial, fun _ _ => ⟨fun _ _ => trivial, fun _ _ => trivial, fun _ _ => trivial⟩⟩
  simp [JsonSchemaParser.parse, JsonSchemaParser.parseToIR, hroot, Stop.ofLibrary, hwalk, concluded]

theorem yaml_parse (hyaml : yaml.Converts) (h : YamlText yaml doc yamlText) :
    (doc.Fits InWidth → YamlSchemaParser.parse yaml yamlText = some (buildSchema doc.toIR)) ∧
    (¬doc.Fits InWidth → ∃ e, YamlSchemaParser.parse yaml yamlText = some (.error e)) := by
  obtain ⟨root, hroot, hrenders⟩ := h
  have hwalk := (yaml_reads hyaml).root hrenders
  constructor
  · intro hfits
    simp [YamlSchemaParser.parse, YamlSchemaParser.parseToIR, hroot, Stop.ofLibrary,
      hwalk.returns hfits, concluded]
  · intro hnot
    obtain ⟨_, ⟨what, rfl⟩, hstop⟩ := hwalk.throws hnot
    simp [YamlSchemaParser.parse, YamlSchemaParser.parseToIR, hroot, Stop.ofLibrary, hstop,
      concluded]

/-- Where an integer does not fit, YAML refuses the document and JSON goes on with
another number, so they agree only when that one is refused for another reason. -/
theorem parse_agree_iff (hjson : json.Converts) (hyaml : yaml.Converts)
    (h : Rendered json yaml doc jsonText yamlText) :
    Agree (JsonSchemaParser.parse json jsonText) (YamlSchemaParser.parse yaml yamlText) ↔
      doc.Fits InWidth ∨ ¬(Documented doc.toIR ∧ NoBytes doc.toIR) := by
  rw [json_parse hjson h.json]
  by_cases hfits : doc.Fits InWidth
  · rw [(yaml_parse hyaml h.yaml).1 hfits]
    exact iff_of_true (agree_self _) (.inl hfits)
  · obtain ⟨e, he⟩ := (yaml_parse hyaml h.yaml).2 hfits
    rw [he, agree_error_iff, accepts_iff]
    exact ⟨.inr, fun h => h.resolve_left hfits⟩

end

def castJson (cast : Int → α) : Json → Except String α
  | .integer n => .ok (cast n.val)
  | _ => .error "type must be number"

def jsonKnowing (text : String) (root : Json) : JsonLibrary where
  parse s := if s = text then .ok root else .error "parse error"
  getString
    | .string s => .ok s
    | _ => .error "type must be string"
  getDouble
    | .float x => .ok x
    | j => castJson Double.ofInt j
  getUInt8 := castJson UInt8.ofInt
  getUInt32 := castJson UInt32.ofInt
  getSize := castJson UInt64.ofInt
  subscriptError _ := "cannot use operator[] with a string argument"

def castYaml (integer : String → Option Int) (bits : Nat) (cast : Int → α) : Yaml → Except String α
  | .scalar text =>
    match integer text with
    | some n => if 0 ≤ n ∧ n < 2 ^ bits then .ok (cast n) else .error "bad conversion"
    | none => .error "bad conversion"
  | _ => .error "bad conversion"

def yamlKnowing (text : String) (root : Yaml) (n : Int) : YamlLibrary where
  load s := if s = text then .ok root else .error "bad file"
  asString
    | .scalar text => .ok text
    | _ => .error "bad conversion"
  asDouble _ := .error "bad conversion"
  asUInt8 := castYaml (fun text => if text = n.repr then some n else none) 8 UInt8.ofInt
  asUInt32 := castYaml (fun text => if text = n.repr then some n else none) 32 UInt32.ofInt
  asSize := castYaml (fun text => if text = n.repr then some n else none) 64 UInt64.ofInt
  invalidNode key := "invalid node; first invalid key: " ++ key
  badSubscript key := "operator[] call on a scalar (key: " ++ key ++ ")"
  integer text := if text = n.repr then some n else none
  number _ := none

theorem converts_jsonKnowing (text : String) (root : Json) : (jsonKnowing text root).Converts where
  string _ := rfl
  float _ := rfl
  double _ := rfl
  uint8 _ := rfl
  uint32 _ := rfl
  size _ := rfl

theorem checked_castYaml {integer : String → Option Int} {text : String} {n : Int}
    (h : integer text = some n) (bits : Nat) (cast : Int → α) :
    Checked bits n (castYaml integer bits cast (.scalar text)) (cast n) where
  fits hlo hhi := by simp [castYaml, h, hlo, hhi]
  refused hnot := ⟨"bad conversion", by simp [castYaml, h, hnot]⟩

theorem converts_yamlKnowing (text : String) (root : Yaml) (n : Int) :
    (yamlKnowing text root n).Converts where
  string _ := rfl
  double _ _ h := by cases h
  uint8 _ _ h := checked_castYaml h 8 UInt8.ofInt
  uint32 _ _ h := checked_castYaml h 32 UInt32.ofInt
  size _ _ h := checked_castYaml h 64 UInt64.ofInt

def beacon (id : StoredInteger) : SchemaDoc where
  packets := [{ id := id, name := "beacon", fields := [{ name := "level", type := "uint8" }] }]

def beaconText (id : StoredInteger) : String :=
  "\x7b \"packets\": [\x7b \"id\": " ++ id.val.repr ++ ", \"name\": \"beacon\", \"fields\": " ++
    "[\x7b \"name\": \"level\", \"type\": \"uint8\" \x7d] \x7d] \x7d"

def beaconJson (id : StoredInteger) : Json :=
  .object [("packets", .array [.object [("id", .integer id), ("name", .string "beacon"),
    ("fields", .array [.object [("name", .string "level"), ("type", .string "uint8")]])]])]

def beaconYaml (id : StoredInteger) : Yaml :=
  .map [("packets", .sequence [.map [("id", .scalar id.val.repr), ("name", .scalar "beacon"),
    ("fields", .sequence [.map [("name", .scalar "level"), ("type", .scalar "uint8")]])]])]

theorem rendered_beacon (id : StoredInteger) :
    Rendered (jsonKnowing (beaconText id) (beaconJson id))
      (yamlKnowing (beaconText id) (beaconYaml id) id.val) (beacon id) (beaconText id)
      (beaconText id) where
  json := by
    refine ⟨beaconJson id, by simp [jsonKnowing], _, ⟨_, rfl, rfl⟩, .none, _, rfl, _, rfl, ?_⟩
    refine .cons ⟨_, ⟨_, rfl, rfl⟩, ⟨_, rfl, rfl⟩, ⟨_, rfl, rfl⟩, .none, _, rfl, _, rfl, ?_⟩ .nil
    exact .cons ⟨_, ⟨_, rfl, rfl⟩, ⟨_, rfl, rfl⟩, ⟨_, rfl, rfl⟩, .none, .none, .none, .none, .none,
      .none, .none, .none, .none⟩ .nil
  yaml := by
    refine ⟨beaconYaml id, by simp [yamlKnowing], _, ⟨_, rfl, rfl⟩, .none, _, rfl, _,
      ⟨_, rfl, rfl⟩, ?_⟩
    refine .cons ⟨_, ⟨_, rfl, rfl⟩, ⟨_, rfl, _, rfl, by simp [yamlKnowing]⟩, ⟨_, rfl, rfl⟩,
      .none, _, rfl, _, ⟨_, rfl, rfl⟩, ?_⟩ .nil
    exact .cons ⟨_, ⟨_, rfl, rfl⟩, ⟨_, rfl, rfl⟩, ⟨_, rfl, rfl⟩, .none, .none, .none, .none, .none,
      .none, .none, .none, .none⟩ .nil

theorem fits_beacon_iff (id : StoredInteger) : (beacon id).Fits InWidth ↔ InWidth 32 id.val := by
  constructor
  · exact fun h => (h _ List.mem_cons_self).id
  · intro h packet hpacket
    rw [beacon, List.mem_singleton] at hpacket
    subst hpacket
    refine ⟨h, fun field hfield => ?_⟩
    rw [List.mem_singleton] at hfield
    subst hfield
    exact ⟨by simp, by simp, by simp⟩

def seven : StoredInteger := ⟨7, by decide⟩

def tooWide : StoredInteger := ⟨4294967297, by decide⟩

theorem parse_agree_iff_beacon :
    Agree (JsonSchemaParser.parse (jsonKnowing (beaconText seven) (beaconJson seven))
      (beaconText seven))
      (YamlSchemaParser.parse (yamlKnowing (beaconText seven) (beaconYaml seven) seven.val)
        (beaconText seven)) := by
  have hiff := parse_agree_iff (converts_jsonKnowing _ _) (converts_yamlKnowing _ _ _)
    (rendered_beacon seven)
  exact hiff.mpr (.inl ((fits_beacon_iff seven).mpr (by decide)))

/-- JSON loads packet 1 where the document says 2^32 + 1, and YAML refuses it. -/
theorem beacon_truncated : ∃ json yaml, json.Converts ∧ yaml.Converts ∧
    Rendered json yaml (beacon tooWide) (beaconText tooWide) (beaconText tooWide) ∧
    (∃ s, JsonSchemaParser.parse json (beaconText tooWide) = some (.ok s) ∧
      s.packets.map Packet.id = [1]) ∧
    ¬Agree (JsonSchemaParser.parse json (beaconText tooWide))
      (YamlSchemaParser.parse yaml (beaconText tooWide)) := by
  have hrendered := rendered_beacon tooWide
  have hjson := json_parse (converts_jsonKnowing _ _) hrendered.json
  have hbuilds : ∃ s, buildSchema (beacon tooWide).toIR = .ok s ∧ s.packets.map Packet.id = [1] :=
    ⟨_, rfl, rfl⟩
  obtain ⟨s, hs, hids⟩ := hbuilds
  have hnot : ¬(beacon tooWide).Fits InWidth := by
    rw [fits_beacon_iff]
    decide
  obtain ⟨e, he⟩ := (yaml_parse (converts_yamlKnowing _ _ _) hrendered.yaml).2 hnot
  refine ⟨_, _, converts_jsonKnowing _ _, converts_yamlKnowing _ _ _, hrendered, ⟨s, ?_, hids⟩, ?_⟩
  · rw [hjson, hs]
  · rw [hjson, he, agree_error_iff, not_not]
    exact ⟨s, hs⟩

end IONet.Accepted
