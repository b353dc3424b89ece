import IONet.Accepted.Guards
import IONet.Schema.SchemaLoader

namespace IONet.Accepted

open IONet.Core Lib.Throwing SchemaLoader

def Caught (e : Stop) : Prop := e ≠ .undefined

/-- An access that throws or returns, whatever it is asked. -/
structure Total {Node : Type} (access : Access Node) : Prop where
  contains : ∀ node key, ThrowsOnly Caught (access.contains node key)
  subscript : ∀ node key, ThrowsOnly Caught (access.subscript node key)
  text : ∀ node, ThrowsOnly Caught (access.text node)
  number : ∀ node, ThrowsOnly Caught (access.number node)
  uint8 : ∀ node, ThrowsOnly Caught (access.uint8 node)
  uint32 : ∀ node, ThrowsOnly Caught (access.uint32 node)
  size : ∀ node, ThrowsOnly Caught (access.size node)

section

variable {Node : Type} {access : Access Node} (total : Total access)

include total

theorem Total.optional {convert : Node → Except Stop α}
    (hconvert : ∀ node, ThrowsOnly Caught (convert node)) (node : Node) (key : String) :
    ThrowsOnly Caught (access.optional convert node key) := by
  unfold Access.optional
  refine (total.contains node key).bind fun present => ?_
  cases present with
  | false => exact .ok none
  | true =>
    exact (total.subscript node key).bind fun child => (hconvert child).bind fun a => .ok (some a)

theorem Total.optionalText (node : Node) (key : String) :
    ThrowsOnly Caught (access.optionalText node key) :=
  (total.optional total.text node key).bind fun text => .ok (text.getD "")

theorem Total.mandatory {convert : Node → Except Stop α}
    (hconvert : ∀ node, ThrowsOnly Caught (convert node)) (node : Node) (key missing : String) :
    ThrowsOnly Caught (access.mandatory convert node key missing) := by
  unfold Access.mandatory
  refine (total.contains node key).bind fun present => ?_
  cases present with
  | false => exact .error nofun
  | true => exact (total.subscript node key).bind hconvert

theorem Total.sequence (node : Node) (key missing : String) :
    ThrowsOnly Caught (access.sequence node key missing) := by
  unfold Access.sequence
  refine (total.contains node key).bind fun present => ?_
  cases present with
  | false => exact .error nofun
  | true =>
    refine (total.subscript node key).bind fun child => ?_
    cases access.isSequence child with
    | false => exact .error nofun
    | true => exact (total.subscript node key).bind fun child => .ok (access.items child)

theorem Total.flag (node : Node) : ThrowsOnly Caught (access.parseIRBitFlag node) :=
  (total.subscript node "bit").bind fun bit => (total.uint8 bit).bind fun _ =>
    (total.subscript node "name").bind fun name => (total.text name).bind fun _ =>
    (total.optionalText node "description").bind fun _ => .ok _

theorem Total.field (node : Node) : ThrowsOnly Caught (access.parseIRField node) :=
  (total.mandatory total.text node "name" _).bind fun _ =>
    (total.mandatory total.text node "type" _).bind fun _ =>
    (total.optionalText node "description").bind fun _ =>
    (total.optionalText node "unit").bind fun _ =>
    (total.optional total.number node "scale").bind fun _ =>
    (total.optional total.number node "offset").bind fun _ =>
    (total.optional total.number node "min").bind fun _ =>
    (total.optional total.number node "max").bind fun _ =>
    (total.optional total.uint8 node "bits").bind fun _ =>
    (total.optional (fun flags => .mapM total.flag (access.items flags)) node "flags").bind fun _ =>
    (total.optional total.size node "size").bind fun _ => .ok _

theorem Total.packet (node : Node) : ThrowsOnly Caught (access.parseIRPacket node) :=
  (total.mandatory total.uint32 node "id" _).bind fun _ =>
    (total.mandatory total.text node "name" _).bind fun _ =>
    (total.optionalText node "description").bind fun _ =>
    (total.sequence node "fields" _).bind fun fields =>
    (ThrowsOnly.mapM total.field fields).bind fun _ => .ok _

theorem Total.info (node : Node) : ThrowsOnly Caught (access.parseInfo node) :=
  (total.optionalText node "name").bind fun _ => (total.optionalText node "version").bind fun _ =>
    (total.optionalText node "description").bind fun _ =>
    (total.optionalText node "byte_order").bind fun _ => .ok _

theorem Total.root (root : Node) : ThrowsOnly Caught (access.parseRoot root) :=
  (total.optional total.info root "schema").bind fun _ =>
    (total.sequence root "packets" _).bind fun packets =>
    (ThrowsOnly.mapM total.packet packets).bind fun _ => .ok _

end

theorem throwsOnly_ofLibrary (x : Except String α) : ThrowsOnly Caught (Stop.ofLibrary x) := by
  cases x with
  | ok a => exact .ok a
  | error what => exact .error nofun

theorem yaml_total (lib : YamlLibrary) : Total (YamlSchemaParser.access lib) := by
  have hconverted : ∀ {α : Type} (convert : Yaml → Except String α) (node : YamlNode),
      ThrowsOnly Caught (YamlSchemaParser.converted lib convert node) := by
    intro α convert node
    cases node with
    | invalid key => exact .error nofun
    | valid tree => exact throwsOnly_ofLibrary _
  have hsubscript : ∀ node key, ThrowsOnly Caught (YamlSchemaParser.subscript lib node key) := by
    intro node key
    cases node with
    | invalid key' => exact .error nofun
    | valid tree =>
      cases tree with
      | null | sequence items => exact .ok _
      | scalar text => exact .error nofun
      | map entries =>
        simp only [YamlSchemaParser.subscript]
        cases entries.lookup key <;> exact .ok _
  exact {
    contains := fun node key => (hsubscript node key).bind fun child => .ok child.isDefined
    subscript := hsubscript
    text := hconverted lib.asString
    number := hconverted lib.asDouble
    uint8 := hconverted lib.asUInt8
    uint32 := hconverted lib.asUInt32
    size := hconverted lib.asSize }

theorem concluded_eq_none_iff (format : String) (walk : Except Stop IRSchema) :
    concluded format walk = none ↔ walk = .error .undefined := by
  cases walk with
  | ok ir => simp [concluded]
  | error stop => cases stop <;> simp [concluded]

theorem yaml_handled (lib : YamlLibrary) (content : String) :
    YamlSchemaParser.parse lib content ≠ none := by
  rw [YamlSchemaParser.parse, ne_eq, concluded_eq_none_iff]
  intro hundefined
  have hwalk : ThrowsOnly Caught (YamlSchemaParser.parseToIR lib content) :=
    (throwsOnly_ofLibrary _).bind fun root => (yaml_total lib).root (.valid root)
  exact hwalk _ hundefined rfl

theorem json_parse_eq_none_iff (lib : JsonLibrary) (content : String) :
    JsonSchemaParser.parse lib content = none ↔
      ∃ root, lib.parse content = .ok root ∧ RootUnguarded lib root := by
  rw [JsonSchemaParser.parse, concluded_eq_none_iff, JsonSchemaParser.parseToIR]
  cases hparse : lib.parse content with
  | error what => simp [Stop.ofLibrary, bind, Except.bind]
  | ok root => simp [Stop.ofLibrary, parseRoot_undefined_iff]

/-- A load ends in a result, except on a text that is taken for JSON and has a
flag without its bit or its name. -/
theorem load_undefined_iff (env : Environment) (source : SchemaSource) (format : SchemaFormat) :
    load env source format = none ↔ ∃ content root, source.read env = .ok content ∧
      chosen format content = .json ∧ env.json.parse content = .ok root ∧
        RootUnguarded env.json root := by
  unfold load
  cases hread : source.read env with
  | error e => simp
  | ok content =>
    have hchosen : (if format = .auto then detectFormat content else format) =
        chosen format content := rfl
    simp only [hchosen, Option.map_eq_none_iff, Except.ok.injEq]
    cases hformat : chosen format content with
    | json =>
      rw [createParser, json_parse_eq_none_iff]
      constructor
      · rintro ⟨root, hroot, hunguarded⟩
        exact ⟨content, root, rfl, hformat, hroot, hunguarded⟩
      · rintro ⟨content', root, rfl, -, hroot, hunguarded⟩
        exact ⟨root, hroot, hunguarded⟩
    | yaml | auto =>
      refine iff_of_false (yaml_handled env.yaml content) ?_
      rintro ⟨content', root, rfl, hjson, -⟩
      rw [hformat] at hjson
      cases hjson

end IONet.Accepted
