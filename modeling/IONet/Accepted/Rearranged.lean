import IONet.Accepted.Frontends

/-! What of a document the walk never looks at: the order of the keys, and keys
that it does not know.  The documents need not be well formed. -/

namespace IONet.Accepted

open IONet.Core Lib.Throwing

section

variable {Node : Type} (format : Format Node) (access : Access Node)

/-- The same node, or two mappings whose values under the given keys are related
as the keys say. -/
def Mapped (keys : List (String × (Node → Node → Prop))) (node node' : Node) : Prop :=
  node = node' ∨ ∃ get get', format.Mapping node get ∧ format.Mapping node' get' ∧
    ∀ entry ∈ keys, Option.Rel entry.2 (get entry.1) (get' entry.1)

def Looped (R : Node → Node → Prop) (node node' : Node) : Prop :=
  List.Forall₂ R (access.items node) (access.items node')

/-- Two sequences with related items, or two nodes that are none. -/
structure Listed (R : Node → Node → Prop) (node node' : Node) : Prop where
  isSequence : access.isSequence node = access.isSequence node'
  items : access.isSequence node = true → Looped access R node node'

def FlagAlike : Node → Node → Prop :=
  Mapped format [("bit", Eq), ("name", Eq), ("description", Eq)]

/-- The loop over the flags has no guard, so there a mapping counts by its values. -/
def FieldAlike : Node → Node → Prop :=
  Mapped format [("name", Eq), ("type", Eq), ("description", Eq), ("unit", Eq), ("scale", Eq),
    ("offset", Eq), ("min", Eq), ("max", Eq), ("bits", Eq),
    ("flags", Looped access (FlagAlike format)), ("size", Eq)]

def PacketAlike : Node → Node → Prop :=
  Mapped format [("id", Eq), ("name", Eq), ("description", Eq),
    ("fields", Listed access (FieldAlike format access))]

def InfoAlike : Node → Node → Prop :=
  Mapped format [("name", Eq), ("version", Eq), ("description", Eq), ("byte_order", Eq)]

def RootAlike : Node → Node → Prop :=
  Mapped format [("schema", InfoAlike format),
    ("packets", Listed access (PacketAlike format access))]

structure Views (missing : String → Except Stop Node) : Prop where
  contains : ∀ {node get}, format.Mapping node get →
    ∀ key, access.contains node key = .ok (get key).isSome
  subscript : ∀ {node get}, format.Mapping node get →
    ∀ key, access.subscript node key = (get key).elim (missing key) .ok

inductive SameStop (Told : String → String → Prop) : Stop → Stop → Prop
  | undefined : SameStop Told .undefined .undefined
  | library {what what' : String} (h : Told what what') :
      SameStop Told (.library what) (.library what')
  | runtime (what : String) : SameStop Told (.runtime what) (.runtime what)

structure Mirrors (Told : String → String → Prop) (access access' : Access Node) : Prop where
  told : ∀ what, Told what what
  isSequence : access'.isSequence = access.isSequence
  items : access'.items = access.items
  contains : ∀ node key, Alike (SameStop Told) Eq (access.contains node key)
    (access'.contains node key)
  subscript : ∀ node key, Alike (SameStop Told) Eq (access.subscript node key)
    (access'.subscript node key)
  text : ∀ node, Alike (SameStop Told) Eq (access.text node) (access'.text node)
  number : ∀ node, Alike (SameStop Told) Eq (access.number node) (access'.number node)
  uint8 : ∀ node, Alike (SameStop Told) Eq (access.uint8 node) (access'.uint8 node)
  uint32 : ∀ node, Alike (SameStop Told) Eq (access.uint32 node) (access'.uint32 node)
  size : ∀ node, Alike (SameStop Told) Eq (access.size node) (access'.size node)

end

theorem SameStop.refl {Told : String → String → Prop} (h : ∀ what, Told what what) (stop : Stop) :
    SameStop Told stop stop := by
  cases stop with
  | undefined => exact .undefined
  | library what => exact .library (h what)
  | runtime what => exact .runtime what

theorem SameStop.eq {stop stop' : Stop} (h : SameStop Eq stop stop') : stop = stop' := by
  cases h with
  | library h => rw [h]
  | _ => rfl

section

variable {Node : Type} {format : Format Node} {Told : String → String → Prop}
  {access access' : Access Node} {missing : String → Except Stop Node} {node node' : Node}
  {R : Node → Node → Prop} {key : String}

structure SameAt (Told : String → String → Prop) (access access' : Access Node)
    (R : Node → Node → Prop) (key : String) (node node' : Node) : Prop where
  contains : Alike (SameStop Told) Eq (access.contains node key) (access'.contains node' key)
  subscript : Alike (SameStop Told) R (access.subscript node key) (access'.subscript node' key)

theorem mapped_refl (keys : List (String × (Node → Node → Prop))) (node : Node) :
    Mapped format keys node node := .inl rfl

theorem looped_refl (h : ∀ node, R node node) (node : Node) : Looped access R node node :=
  List.forall₂_same.mpr fun c _ => h c

theorem listed_refl (h : ∀ node, R node node) (node : Node) : Listed access R node node :=
  ⟨rfl, fun _ => looped_refl h node⟩

theorem sameAt (mirrors : Mirrors Told access access') (views : Views format access missing)
    (views' : Views format access' missing) (key : String)
    {keys : List (String × (Node → Node → Prop))} (h : Mapped format keys node node')
    (hkey : (key, R) ∈ keys) (hR : ∀ c, R c c) : SameAt Told access access' R key node node' := by
  rcases h with rfl | ⟨get, get', hget, hget', hkeys⟩
  · exact ⟨mirrors.contains node key, (mirrors.subscript node key).mono fun c c' hc => hc ▸ hR c⟩
  · have hrel : Option.Rel R (get key) (get' key) := hkeys _ hkey
    have hcontains := views.contains hget key
    have hcontains' := views'.contains hget' key
    have hsubscript := views.subscript hget key
    have hsubscript' := views'.subscript hget' key
    generalize get key = o at hrel hcontains hsubscript
    generalize get' key = o' at hrel hcontains' hsubscript'
    constructor
    · rw [hcontains, hcontains']
      cases hrel <;> exact .ok rfl
    · rw [hsubscript, hsubscript']
      cases hrel with
      | none => exact Alike.refl (SameStop.refl mirrors.told) hR (missing key)
      | some hchild => exact .ok hchild

theorem SameAt.optional (h : SameAt Told access access' R key node node')
    {convert convert' : Node → Except Stop α}
    (hconvert : ∀ c c', R c c' → Alike (SameStop Told) Eq (convert c) (convert' c')) :
    Alike (SameStop Told) Eq (access.optional convert node key)
      (access'.optional convert' node' key) := by
  refine h.contains.bind_eq fun present => ?_
  cases present with
  | false => exact .ok rfl
  | true => exact h.subscript.bind fun c c' hc => (hconvert c c' hc).bind_eq fun a => .ok rfl

theorem SameAt.mandatory (h : SameAt Told access access' Eq key node node')
    {convert convert' : Node → Except Stop α}
    (hconvert : ∀ c, Alike (SameStop Told) Eq (convert c) (convert' c)) (missing : String) :
    Alike (SameStop Told) Eq (access.mandatory convert node key missing)
      (access'.mandatory convert' node' key missing) := by
  refine h.contains.bind_eq fun present => ?_
  cases present with
  | false => exact .error (.runtime missing)
  | true => exact h.subscript.bind_eq hconvert

theorem SameAt.sequence (mirrors : Mirrors Told access access')
    (h : SameAt Told access access' (Listed access R) key node node')
    {convert convert' : Node → Except Stop α}
    (hconvert : ∀ c c', R c c' → Alike (SameStop Told) Eq (convert c) (convert' c'))
    (missing : String) :
    Alike (SameStop Told) Eq
      (access.sequence node key missing >>= fun nodes => nodes.mapM convert)
      (access'.sequence node' key missing >>= fun nodes => nodes.mapM convert') := by
  simp only [Access.sequence, bind_assoc, mirrors.isSequence, mirrors.items]
  refine h.contains.bind_eq fun present => ?_
  cases present with
  | false => exact .error (.runtime missing)
  | true =>
    have hsubscript := h.subscript
    generalize access.subscript node key = child? at hsubscript
    generalize access'.subscript node' key = child'? at hsubscript
    cases hsubscript with
    | error hstop => exact .error hstop
    | @ok child child' hchild =>
      simp only [ok_bind, ← hchild.isSequence]
      cases hsequence : access.isSequence child with
      | false => exact .error (.runtime missing)
      | true => exact Alike.mapM (hchild.items hsequence) hconvert

variable (mirrors : Mirrors Told access access') (views : Views format access missing)
  (views' : Views format access' missing)

include mirrors views views'

theorem sameText (key : String) {keys : List (String × (Node → Node → Prop))}
    (h : Mapped format keys node node') (hkey : (key, Eq) ∈ keys) :
    Alike (SameStop Told) Eq (access.optionalText node key) (access'.optionalText node' key) := by
  have hsame := sameAt mirrors views views' key h hkey fun _ => rfl
  have htext : Alike (SameStop Told) Eq (access.optional access.text node key)
      (access'.optional access'.text node' key) :=
    hsame.optional fun c c' hc => hc ▸ mirrors.text c
  exact htext.bind_eq fun text => .ok rfl

theorem flag_alike (h : FlagAlike format node node') :
    Alike (SameStop Told) Eq (access.parseIRBitFlag node) (access'.parseIRBitFlag node') := by
  have hsame : ∀ key, (key, Eq) ∈ _ → SameAt Told access access' Eq key node node' :=
    fun key hkey => sameAt mirrors views views' key h hkey fun _ => rfl
  have hdescription := sameText mirrors views views' "description" h (by simp)
  unfold Access.parseIRBitFlag
  refine (hsame "bit" (by simp)).subscript.bind_eq fun c => (mirrors.uint8 c).bind_eq fun bit => ?_
  refine (hsame "name" (by simp)).subscript.bind_eq fun c => (mirrors.text c).bind_eq fun name => ?_
  exact hdescription.bind_eq fun description => .ok rfl

theorem field_alike (h : FieldAlike format access node node') :
    Alike (SameStop Told) Eq (access.parseIRField node) (access'.parseIRField node') := by
  have hsame : ∀ key, (key, Eq) ∈ _ → SameAt Told access access' Eq key node node' :=
    fun key hkey => sameAt mirrors views views' key h hkey fun _ => rfl
  have hnumber : ∀ key, (key, Eq) ∈ _ → Alike (SameStop Told) Eq
      (access.optional access.number node key) (access'.optional access'.number node' key) :=
    fun key hkey => (hsame key hkey).optional fun c c' hc => hc ▸ mirrors.number c
  have hlooped := sameAt mirrors views views' "flags" h
    (R := Looped access (FlagAlike format)) (by simp) (looped_refl (mapped_refl _))
  have hflags := hlooped.optional fun c c' hc =>
    Alike.mapM hc fun _ _ => flag_alike mirrors views views'
  have hdescription := sameText mirrors views views' "description" h (by simp)
  have hunit := sameText mirrors views views' "unit" h (by simp)
  unfold Access.parseIRField
  simp only [mirrors.items]
  refine ((hsame "name" (by simp)).mandatory mirrors.text _).bind_eq fun name => ?_
  refine ((hsame "type" (by simp)).mandatory mirrors.text _).bind_eq fun type => ?_
  refine hdescription.bind_eq fun description => hunit.bind_eq fun unit => ?_
  refine (hnumber "scale" (by simp)).bind_eq fun scale => ?_
  refine (hnumber "offset" (by simp)).bind_eq fun offset => ?_
  refine (hnumber "min" (by simp)).bind_eq fun min => ?_
  refine (hnumber "max" (by simp)).bind_eq fun max => ?_
  refine ((hsame "bits" (by simp)).optional fun c c' hc => hc ▸ mirrors.uint8 c).bind_eq
    fun bits => ?_
  refine hflags.bind_eq fun flags => ?_
  exact ((hsame "size" (by simp)).optional fun c c' hc => hc ▸ mirrors.size c).bind_eq
    fun size => .ok rfl

theorem packet_alike (h : PacketAlike format access node node') :
    Alike (SameStop Told) Eq (access.parseIRPacket node) (access'.parseIRPacket node') := by
  have hsame : ∀ key, (key, Eq) ∈ _ → SameAt Told access access' Eq key node node' :=
    fun key hkey => sameAt mirrors views views' key h hkey fun _ => rfl
  have hfields := sameAt mirrors views views' "fields" h
    (R := Listed access (FieldAlike format access)) (by simp) (listed_refl (mapped_refl _))
  have hdescription := sameText mirrors views views' "description" h (by simp)
  unfold Access.parseIRPacket
  refine ((hsame "id" (by simp)).mandatory mirrors.uint32 _).bind_eq fun id => ?_
  refine ((hsame "name" (by simp)).mandatory mirrors.text _).bind_eq fun name => ?_
  refine hdescription.bind_eq fun description => ?_
  simp only [← bind_assoc]
  refine (hfields.sequence mirrors (fun _ _ => field_alike mirrors views views') _).bind_eq
    fun fields => .ok rfl

theorem info_alike (h : InfoAlike format node node') :
    Alike (SameStop Told) Eq (access.parseInfo node) (access'.parseInfo node') := by
  unfold Access.parseInfo
  refine (sameText mirrors views views' "name" h (by simp)).bind_eq fun name => ?_
  refine (sameText mirrors views views' "version" h (by simp)).bind_eq fun version => ?_
  refine (sameText mirrors views views' "description" h (by simp)).bind_eq fun description => ?_
  exact (sameText mirrors views views' "byte_order" h (by simp)).bind_eq fun order => .ok rfl

theorem root_alike (h : RootAlike format access node node') :
    Alike (SameStop Told) Eq (access.parseRoot node) (access'.parseRoot node') := by
  have hschema := sameAt mirrors views views' "schema" h (R := InfoAlike format) (by simp)
    (mapped_refl _)
  have hpackets := sameAt mirrors views views' "packets" h
    (R := Listed access (PacketAlike format access)) (by simp) (listed_refl (mapped_refl _))
  unfold Access.parseRoot
  refine (hschema.optional fun _ _ => info_alike mirrors views views').bind_eq fun info => ?_
  simp only [← bind_assoc]
  exact (hpackets.sequence mirrors (fun _ _ => packet_alike mirrors views views') _).bind_eq
    fun packets => .ok rfl

end

theorem json_views (lib : JsonLibrary) :
    Views jsonFormat (JsonSchemaParser.access lib) fun _ => .error .undefined where
  contains := by
    rintro _ _ ⟨members, rfl, rfl⟩ key
    rfl
  subscript := by
    rintro _ _ ⟨members, rfl, rfl⟩ key
    simp only [JsonSchemaParser.access, JsonSchemaParser.subscript]
    cases members.lookup key <;> rfl

theorem json_mirrors (lib : JsonLibrary) :
    Mirrors Eq (JsonSchemaParser.access lib) (JsonSchemaParser.access lib) := by
  have hrefl : ∀ {α} (x : Except Stop α), Alike (SameStop Eq) Eq x x :=
    fun x => Alike.refl (SameStop.refl fun _ => rfl) (fun _ => rfl) x
  exact ⟨fun _ => rfl, rfl, rfl, fun _ _ => hrefl _, fun _ _ => hrefl _, fun _ => hrefl _,
    fun _ => hrefl _, fun _ => hrefl _, fun _ => hrefl _, fun _ => hrefl _⟩

theorem yaml_views (lib lib' : YamlLibrary) :
    Views (yamlFormat lib) (YamlSchemaParser.access lib') fun key => .ok (.invalid key) where
  contains := by
    rintro _ _ ⟨entries, rfl, rfl⟩ key
    simp only [YamlSchemaParser.access, YamlSchemaParser.subscript]
    cases entries.lookup key <;> rfl
  subscript := by
    rintro _ _ ⟨entries, rfl, rfl⟩ key
    simp only [YamlSchemaParser.access, YamlSchemaParser.subscript]
    cases entries.lookup key <;> rfl

/-- The library at two documents: its texts say where in the document it stopped. -/
structure SameButTexts (lib lib' : YamlLibrary) : Prop where
  string : ∀ tree, (lib.asString tree).toOption = (lib'.asString tree).toOption
  double : ∀ tree, (lib.asDouble tree).toOption = (lib'.asDouble tree).toOption
  uint8 : ∀ tree, (lib.asUInt8 tree).toOption = (lib'.asUInt8 tree).toOption
  uint32 : ∀ tree, (lib.asUInt32 tree).toOption = (lib'.asUInt32 tree).toOption
  size : ∀ tree, (lib.asSize tree).toOption = (lib'.asSize tree).toOption

theorem converted_alike {lib lib' : YamlLibrary} {convert convert' : Yaml → Except String α}
    (h : ∀ tree, (convert tree).toOption = (convert' tree).toOption) (node : YamlNode) :
    Alike (SameStop fun _ _ => True) Eq (YamlSchemaParser.converted lib convert node)
      (YamlSchemaParser.converted lib' convert' node) := by
  cases node with
  | invalid key => exact .error (.library trivial)
  | valid tree =>
    have hsame := h tree
    simp only [YamlSchemaParser.converted]
    cases hconvert : convert tree with
    | ok a =>
      cases hconvert' : convert' tree with
      | ok a' =>
        rw [hconvert, hconvert'] at hsame
        exact .ok (Option.some.inj hsame)
      | error what' => simp [hconvert, hconvert', Except.toOption] at hsame
    | error what =>
      cases hconvert' : convert' tree with
      | ok a' => simp [hconvert, hconvert', Except.toOption] at hsame
      | error what' => exact .error (.library trivial)

theorem subscript_alike (lib lib' : YamlLibrary) (node : YamlNode) (key : String) :
    Alike (SameStop fun _ _ => True) Eq (YamlSchemaParser.subscript lib node key)
      (YamlSchemaParser.subscript lib' node key) := by
  cases node with
  | invalid key' => exact .error (.library trivial)
  | valid tree =>
    cases tree with
    | scalar text => exact .error (.library trivial)
    | map entries =>
      simp only [YamlSchemaParser.subscript]
      cases entries.lookup key <;> exact .ok rfl
    | _ => exact .ok rfl

theorem yaml_mirrors {lib lib' : YamlLibrary} (h : SameButTexts lib lib') :
    Mirrors (fun _ _ => True) (YamlSchemaParser.access lib) (YamlSchemaParser.access lib') where
  told _ := trivial
  isSequence := rfl
  items := rfl
  contains node key := (subscript_alike lib lib' node key).bind_eq fun _ => .ok rfl
  subscript := subscript_alike lib lib'
  text := converted_alike h.string
  number := converted_alike h.double
  uint8 := converted_alike h.uint8
  uint32 := converted_alike h.uint32
  size := converted_alike h.size

def SameOutcome (result result' : Option (Result Schema)) : Prop :=
  result = result' ∨ ∃ what what', result = some (.error ⟨"YAML parse error: " ++ what⟩) ∧
    result' = some (.error ⟨"YAML parse error: " ++ what'⟩)

theorem sameOutcome_concluded {walk walk' : Except Stop IRSchema}
    (h : Alike (SameStop fun _ _ => True) Eq walk walk') :
    SameOutcome (concluded "YAML" walk) (concluded "YAML" walk') := by
  cases h with
  | ok heq => exact .inl (by rw [heq])
  | error hstop =>
    cases hstop with
    | undefined => exact .inl rfl
    | library _ => exact .inr ⟨_, _, rfl, rfl⟩
    | runtime what => exact .inl rfl

/-- Neither parser sees how the keys of a document are ordered, nor keys that it
does not know, be the document accepted, refused or not handled at all; but what
yaml-cpp says of a value that it refuses depends on where the value stands. -/
theorem parse_rearranged :
    (∀ (lib : JsonLibrary) (text text' : String) (root root' : Json), lib.parse text = .ok root →
      lib.parse text' = .ok root' →
        RootAlike jsonFormat (JsonSchemaParser.access lib) root root' →
          JsonSchemaParser.parse lib text = JsonSchemaParser.parse lib text') ∧
    ∀ (lib lib' : YamlLibrary) (text text' : String) (root root' : Yaml),
      SameButTexts lib lib' → lib.load text = .ok root → lib'.load text' = .ok root' →
        RootAlike (yamlFormat lib) (YamlSchemaParser.access lib) (.valid root) (.valid root') →
          SameOutcome (YamlSchemaParser.parse lib text) (YamlSchemaParser.parse lib' text') := by
  constructor
  · intro lib text text' root root' hroot hroot' h
    have hviews := json_views lib
    have hwalk := root_alike (json_mirrors lib) hviews hviews h
    simp only [JsonSchemaParser.parse, JsonSchemaParser.parseToIR, hroot, hroot', Stop.ofLibrary,
      ok_bind, hwalk.eq fun _ _ => SameStop.eq]
  · intro lib lib' text text' root root' hlib hroot hroot' h
    have hwalk := root_alike (yaml_mirrors hlib) (yaml_views lib lib) (yaml_views lib lib') h
    simp only [YamlSchemaParser.parse, YamlSchemaParser.parseToIR, hroot, hroot', Stop.ofLibrary,
      ok_bind]
    exact sameOutcome_concluded hwalk

theorem RootAlike.of_mapping {Node : Type} {format : Format Node} {access : Access Node}
    {node node' : Node} {get other : String → Option Node} (hget : format.Mapping node get)
    (hget' : format.Mapping node' other)
    (hschema : Option.Rel (InfoAlike format) (get "schema") (other "schema"))
    (hpackets : Option.Rel (Listed access (PacketAlike format access)) (get "packets")
      (other "packets")) : RootAlike format access node node' :=
  .inr ⟨get, other, hget, hget', by simp [hschema, hpackets]⟩

theorem PacketAlike.of_mapping {Node : Type} {format : Format Node} {access : Access Node}
    {node node' : Node} {get other : String → Option Node} (hget : format.Mapping node get)
    (hget' : format.Mapping node' other) (hid : Option.Rel Eq (get "id") (other "id"))
    (hname : Option.Rel Eq (get "name") (other "name"))
    (hdescription : Option.Rel Eq (get "description") (other "description"))
    (hfields : Option.Rel (Listed access (FieldAlike format access)) (get "fields")
      (other "fields")) : PacketAlike format access node node' :=
  .inr ⟨get, other, hget, hget', by simp [hid, hname, hdescription, hfields]⟩

def turnedText : String :=
  "\x7b \"comment\": null, \"packets\": [\x7b \"name\": \"beacon\", \"id\": 7, \"fields\": " ++
    "[\x7b \"name\": \"level\", \"type\": \"uint8\" \x7d] \x7d] \x7d"

def turnedJson : Json :=
  .object [("comment", .null), ("packets", .array [.object [
    ("fields", .array [.object [("name", .string "level"), ("type", .string "uint8")]]),
    ("id", .integer seven), ("name", .string "beacon")]])]

def turnedYaml : Yaml :=
  .map [("comment", .null), ("packets", .sequence [.map [("name", .scalar "beacon"),
    ("id", .scalar seven.val.repr),
    ("fields", .sequence [.map [("name", .scalar "level"), ("type", .scalar "uint8")]])]])]

def turnedLibrary : JsonLibrary where
  __ := jsonKnowing (beaconText seven) (beaconJson seven)
  parse text := if text = turnedText then .ok turnedJson
    else (jsonKnowing (beaconText seven) (beaconJson seven)).parse text

/-- The id behind the name, and a key that nobody knows. -/
theorem parse_rearranged_beacon :
    JsonSchemaParser.parse turnedLibrary (beaconText seven) =
      JsonSchemaParser.parse turnedLibrary turnedText ∧
    SameOutcome
      (YamlSchemaParser.parse (yamlKnowing (beaconText seven) (beaconYaml seven) seven.val)
        (beaconText seven))
      (YamlSchemaParser.parse (yamlKnowing turnedText turnedYaml seven.val) turnedText) := by
  have hne : beaconText seven ≠ turnedText := by decide
  obtain ⟨hjson, hyaml⟩ := parse_rearranged
  constructor
  · have hroot : turnedLibrary.parse (beaconText seven) = .ok (beaconJson seven) := by
      simp [turnedLibrary, jsonKnowing, hne]
    have hturned : turnedLibrary.parse turnedText = .ok turnedJson := by simp [turnedLibrary]
    refine hjson turnedLibrary _ _ _ _ hroot hturned
      (.of_mapping ⟨_, rfl, rfl⟩ ⟨_, rfl, rfl⟩ .none (.some ⟨rfl, fun _ => .cons ?_ .nil⟩))
    exact PacketAlike.of_mapping ⟨_, rfl, rfl⟩ ⟨_, rfl, rfl⟩ (.some rfl) (.some rfl) .none
      (.some (listed_refl (mapped_refl _) _))
  · have hlib : SameButTexts (yamlKnowing (beaconText seven) (beaconYaml seven) seven.val)
        (yamlKnowing turnedText turnedYaml seven.val) :=
      ⟨fun _ => rfl, fun _ => rfl, fun _ => rfl, fun _ => rfl, fun _ => rfl⟩
    have hroot : (yamlKnowing (beaconText seven) (beaconYaml seven) seven.val).load
        (beaconText seven) = .ok (beaconYaml seven) := by simp [yamlKnowing]
    have hturned : (yamlKnowing turnedText turnedYaml seven.val).load turnedText =
        .ok turnedYaml := by simp [yamlKnowing]
    refine hyaml _ _ _ _ _ _ hlib hroot hturned
      (.of_mapping ⟨_, rfl, rfl⟩ ⟨_, rfl, rfl⟩ .none (.some ⟨rfl, fun _ => .cons ?_ .nil⟩))
    exact PacketAlike.of_mapping ⟨_, rfl, rfl⟩ ⟨_, rfl, rfl⟩ (.some rfl) (.some rfl) .none
      (.some (listed_refl (mapped_refl _) _))

end IONet.Accepted
