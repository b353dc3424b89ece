import IONet.Accepted.Frontends

namespace IONet

open IONet.Core Lib.Throwing

namespace Json

def member : Json → String → Option Json
  | .object members, key => members.lookup key
  | _, _ => none

def Bare (j : Json) (key : String) : Prop :=
  ∃ members, j = .object members ∧ members.lookup key = none

def Readable (get : Json → Except String α) (j : Json) (key : String) : Prop :=
  ∃ value a, j.member key = some value ∧ get value = .ok a

def MayRead (get : Json → Except String α) (j : Json) (key : String) : Prop :=
  ∀ value, j.member key = some value → ∃ a, get value = .ok a

end Json

namespace Accepted

open Json JsonSchemaParser

variable (lib : JsonLibrary)

structure FlagReadable (j : Json) : Prop where
  bit : j.Readable lib.getUInt8 "bit"
  name : j.Readable lib.getString "name"
  description : j.MayRead lib.getString "description"

/-- A flag without `bit`, or with a proper `bit` and without `name`. -/
def FlagUnguarded (j : Json) : Prop :=
  j.Bare "bit" ∨ j.Readable lib.getUInt8 "bit" ∧ j.Bare "name"

structure FieldHead (j : Json) : Prop where
  name : j.Readable lib.getString "name"
  type : j.Readable lib.getString "type"
  description : j.MayRead lib.getString "description"
  unit : j.MayRead lib.getString "unit"
  scale : j.MayRead lib.getDouble "scale"
  offset : j.MayRead lib.getDouble "offset"
  min : j.MayRead lib.getDouble "min"
  max : j.MayRead lib.getDouble "max"
  bits : j.MayRead lib.getUInt8 "bits"

structure FieldReadable (j : Json) : Prop extends FieldHead lib j where
  flags : ∀ flags, j.member "flags" = some flags → ∀ flag ∈ flags.items, FlagReadable lib flag
  size : j.MayRead lib.getSize "size"

def FieldUnguarded (j : Json) : Prop :=
  FieldHead lib j ∧ ∃ flags, j.member "flags" = some flags ∧
    FirstBad (FlagReadable lib) (FlagUnguarded lib) flags.items

structure PacketHead (j : Json) : Prop where
  id : j.Readable lib.getUInt32 "id"
  name : j.Readable lib.getString "name"
  description : j.MayRead lib.getString "description"

structure PacketReadable (j : Json) : Prop extends PacketHead lib j where
  fields : ∃ fields, j.member "fields" = some (.array fields) ∧
    ∀ field ∈ fields, FieldReadable lib field

def PacketUnguarded (j : Json) : Prop :=
  PacketHead lib j ∧ ∃ fields, j.member "fields" = some (.array fields) ∧
    FirstBad (FieldReadable lib) (FieldUnguarded lib) fields

structure InfoReadable (j : Json) : Prop where
  name : j.MayRead lib.getString "name"
  version : j.MayRead lib.getString "version"
  description : j.MayRead lib.getString "description"
  byteOrder : j.MayRead lib.getString "byte_order"

/-- In front of the flag that lacks a key everything is as the walk wants it. -/
def RootUnguarded (root : Json) : Prop :=
  (∀ info, root.member "schema" = some info → InfoReadable lib info) ∧
    ∃ packets, root.member "packets" = some (.array packets) ∧
      FirstBad (PacketReadable lib) (PacketUnguarded lib) packets

variable {j : Json} {key : String}

theorem contains_access (j : Json) (key : String) :
    (access lib).contains j key = .ok (j.member key).isSome := by
  cases j <;> rfl

theorem subscript_of_member {value : Json} (h : j.member key = some value) :
    (access lib).subscript j key = .ok value := by
  cases j with
  | object members =>
    change members.lookup key = some value at h
    simp [access, subscript, h]
  | _ => cases h

theorem bare_object_iff {members : List (String × Json)} :
    (object members).Bare key ↔ (object members).member key = none := by
  constructor
  · rintro ⟨_, ⟨⟩, hlook⟩
    exact hlook
  · intro hlook
    exact ⟨members, rfl, hlook⟩

theorem decided_library_error (what : String) {Ok Bad : Prop} (hok : ¬Ok) (hbad : ¬Bad) :
    Decided Stop.undefined Ok Bad (.error (.library what) : Except Stop α) :=
  (Decided.error_of_ne Stop.noConfusion).congr (iff_of_false not_false hok)
    (iff_of_false not_false hbad)

theorem decided_subscript (j : Json) (key : String) :
    Decided Stop.undefined (∃ value, j.member key = some value) (j.Bare key)
      ((access lib).subscript j key) := by
  cases j with
  | object members =>
    rw [bare_object_iff]
    cases hmember : (object members).member key with
    | none =>
      change members.lookup key = none at hmember
      have hget : (access lib).subscript (object members) key = .error .undefined := by
        simp [access, subscript, hmember]
      rw [hget]
      exact (Decided.error _).congr (by simp) (by simp)
    | some value =>
      rw [subscript_of_member lib hmember]
      exact (Decided.ok value).congr (by simp) (by simp)
  | _ => exact decided_library_error _ (by simp [member]) (by simp [Bare])

theorem decided_ofLibrary (converted : Except String α) :
    Decided Stop.undefined (∃ a, converted = .ok a) False (Stop.ofLibrary converted) := by
  cases converted with
  | ok a => exact (Decided.ok a).congr (by simp) Iff.rfl
  | error what => exact decided_library_error what (by simp) not_false

theorem not_bare_of_member {value : Json} (h : j.member key = some value) : ¬j.Bare key := by
  rintro ⟨members, rfl, hlook⟩
  exact absurd (hlook.symm.trans h) nofun

theorem decided_unguarded (get : Json → Except String α) (j : Json) (key : String) :
    Decided Stop.undefined (j.Readable get key) (j.Bare key)
      ((access lib).subscript j key >>= fun value => Stop.ofLibrary (get value)) := by
  have hsubscript := decided_subscript lib j key
  cases hmember : j.member key with
  | none =>
    have hnever : ∀ value, (access lib).subscript j key = .ok value →
        Decided Stop.undefined True False (Stop.ofLibrary (get value)) := by
      intro value hvalue
      obtain ⟨value', hvalue'⟩ := hsubscript.returns.mp ⟨value, hvalue⟩
      exact absurd (hmember.symm.trans hvalue') nofun
    exact (hsubscript.bind hnever).congr (by simp [Readable, hmember]) (by simp)
  | some value =>
    rw [subscript_of_member lib hmember, ok_bind]
    exact (decided_ofLibrary (get value)).congr (by simp [Readable, hmember])
      (iff_of_false not_false (not_bare_of_member hmember))

section

variable {convert : Json → Except Stop α} {Ok Bad : Json → Prop}
  (hconvert : ∀ value, Decided Stop.undefined (Ok value) (Bad value) (convert value))

include hconvert

theorem decided_optional (j : Json) (key : String) :
    Decided Stop.undefined (∀ value, j.member key = some value → Ok value)
      (∃ value, j.member key = some value ∧ Bad value) ((access lib).optional convert j key) := by
  cases hmember : j.member key with
  | none =>
    have hnone : (access lib).optional convert j key = .ok none := by
      simp only [Access.optional, contains_access, hmember, ok_bind]
      rfl
    rw [hnone]
    exact (Decided.ok none).congr (by simp) (by simp)
  | some value =>
    have hsome : (access lib).optional convert j key = convert value >>= fun a => .ok (some a) := by
      simp only [Access.optional, contains_access, hmember, ok_bind,
        subscript_of_member lib hmember]
      rfl
    rw [hsome]
    exact ((hconvert value).bind fun a _ => Decided.ok (some a)).congr (by simp) (by simp)

theorem decided_mandatory (j : Json) (key missing : String) :
    Decided Stop.undefined (∃ value, j.member key = some value ∧ Ok value)
      (∃ value, j.member key = some value ∧ Bad value)
      ((access lib).mandatory convert j key missing) := by
  cases hmember : j.member key with
  | none =>
    have hthrow : (access lib).mandatory convert j key missing = .error (.runtime missing) := by
      simp only [Access.mandatory, contains_access, hmember, ok_bind]
      rfl
    rw [hthrow]
    exact (Decided.error_of_ne Stop.noConfusion).congr (by simp) (by simp)
  | some value =>
    have hread : (access lib).mandatory convert j key missing = convert value := by
      simp only [Access.mandatory, contains_access, hmember, ok_bind,
        subscript_of_member lib hmember]
      rfl
    rw [hread]
    exact (hconvert value).congr (by simp) (by simp)

end

theorem decided_mayRead (get : Json → Except String α) (j : Json) (key : String) :
    Decided Stop.undefined (j.MayRead get key) False
      ((access lib).optional (fun value => Stop.ofLibrary (get value)) j key) :=
  (decided_optional lib (fun value => decided_ofLibrary (get value)) j key).congr Iff.rfl (by simp)

theorem decided_mayText (j : Json) (key : String) :
    Decided Stop.undefined (j.MayRead lib.getString key) False ((access lib).optionalText j key) :=
  ((decided_mayRead lib lib.getString j key).bind fun o _ => Decided.ok (o.getD "")).congr
    (by simp) (by simp)

theorem decided_readable (get : Json → Except String α) (j : Json) (key missing : String) :
    Decided Stop.undefined (j.Readable get key) False
      ((access lib).mandatory (fun value => Stop.ofLibrary (get value)) j key missing) :=
  (decided_mandatory lib (fun value => decided_ofLibrary (get value)) j key missing).congr
    (by simp [Readable]) (by simp)

theorem decided_sequence (j : Json) (key missing : String) :
    Decided Stop.undefined (∃ items, j.member key = some (.array items)) False
      ((access lib).sequence j key missing) := by
  have hmissing {Ok : Prop} (hok : ¬Ok) : Decided Stop.undefined Ok False
      (.error (.runtime missing) : Except Stop (List Json)) :=
    (Decided.error_of_ne Stop.noConfusion).congr (iff_of_false not_false hok) Iff.rfl
  cases hmember : j.member key with
  | none =>
    have hthrow : (access lib).sequence j key missing = .error (.runtime missing) := by
      simp only [Access.sequence, contains_access, hmember, ok_bind]
      rfl
    rw [hthrow]
    exact hmissing (by simp)
  | some value =>
    have hread : (access lib).sequence j key missing =
        if value.isArray then .ok value.items else .error (.runtime missing) := by
      simp only [Access.sequence, contains_access, hmember, ok_bind,
        subscript_of_member lib hmember]
      cases value <;> rfl
    rw [hread]
    cases value with
    | array items => exact (Decided.ok items).congr (by simp) Iff.rfl
    | _ => exact hmissing (by simp)

theorem member_of_sequence {missing : String} {items : List Json}
    (h : (access lib).sequence j key missing = .ok items) : j.member key = some (.array items) := by
  obtain ⟨items', hmember⟩ := (decided_sequence lib j key missing).returns.mp ⟨items, h⟩
  have hread : (access lib).sequence j key missing = .ok items' := by
    simp only [Access.sequence, contains_access, hmember, ok_bind, subscript_of_member lib hmember]
    rfl
  cases h.symm.trans hread
  exact hmember

theorem decided_flag (j : Json) :
    Decided Stop.undefined (FlagReadable lib j) (FlagUnguarded lib j) (parseIRBitFlag lib j) := by
  have hbit := decided_unguarded lib lib.getUInt8 j "bit"
  have hname := decided_unguarded lib lib.getString j "name"
  have hdescription := decided_mayText lib j "description"
  have hwalk := hbit.bind fun bit _ => hname.bind fun name _ =>
    hdescription.bind fun description _ =>
    Decided.ok (e := Stop.undefined) (IRBitFlag.mk bit name description)
  simp only [bind_assoc] at hwalk
  refine hwalk.congr ?_ ?_
  · constructor
    · rintro ⟨hbit, hname, hdescription, -⟩
      exact ⟨hbit, hname, hdescription⟩
    · rintro ⟨hbit, hname, hdescription⟩
      exact ⟨hbit, hname, hdescription, trivial⟩
  · simp [FlagUnguarded]

theorem decided_flags (j : Json) :
    Decided Stop.undefined
      (∀ flags, j.member "flags" = some flags → ∀ flag ∈ flags.items, FlagReadable lib flag)
      (∃ flags, j.member "flags" = some flags ∧
        FirstBad (FlagReadable lib) (FlagUnguarded lib) flags.items)
      ((access lib).optional (fun flags => flags.items.mapM (parseIRBitFlag lib)) j "flags") :=
  decided_optional lib (fun flags => Decided.mapM (decided_flag lib) flags.items) j "flags"

theorem decided_field (j : Json) :
    Decided Stop.undefined (FieldReadable lib j) (FieldUnguarded lib j) (parseIRField lib j) := by
  have hname := decided_readable lib lib.getString j "name" "Field missing 'name'"
  have hwalk := hname.bind fun name _ =>
    (decided_readable lib lib.getString j "type" ("Field '" ++ name ++ "' missing 'type'")).bind
      fun type _ =>
    (decided_mayText lib j "description").bind fun description _ =>
    (decided_mayText lib j "unit").bind fun unit _ =>
    (decided_mayRead lib lib.getDouble j "scale").bind fun scale _ =>
    (decided_mayRead lib lib.getDouble j "offset").bind fun offset _ =>
    (decided_mayRead lib lib.getDouble j "min").bind fun min _ =>
    (decided_mayRead lib lib.getDouble j "max").bind fun max _ =>
    (decided_mayRead lib lib.getUInt8 j "bits").bind fun bitCount _ =>
    (decided_flags lib j).bind fun bitFlags _ =>
    (decided_mayRead lib lib.getSize j "size").bind fun size _ =>
    Decided.ok (e := Stop.undefined) ({
      name := name
      type := type
      description := description
      unit := unit
      scaling := { scale := scale, offset := offset }
      constraints := { min := min, max := max }
      bitCount := bitCount
      bitFlags := bitFlags.getD []
      size := size } : IRField)
  refine hwalk.congr ?_ ?_
  · constructor
    · rintro ⟨hname, htype, hdescription, hunit, hscale, hoffset, hmin, hmax, hbits, hflags,
      hsize, -⟩
      exact ⟨⟨hname, htype, hdescription, hunit, hscale, hoffset, hmin, hmax, hbits⟩, hflags, hsize⟩
    · rintro ⟨⟨hname, htype, hdescription, hunit, hscale, hoffset, hmin, hmax, hbits⟩,
      hflags, hsize⟩
      exact ⟨hname, htype, hdescription, hunit, hscale, hoffset, hmin, hmax, hbits, hflags, hsize,
        trivial⟩
  · simp only [false_or, and_false, or_false]
    constructor
    · rintro ⟨hname, htype, hdescription, hunit, hscale, hoffset, hmin, hmax, hbits, hflags⟩
      exact ⟨⟨hname, htype, hdescription, hunit, hscale, hoffset, hmin, hmax, hbits⟩, hflags⟩
    · rintro ⟨⟨hname, htype, hdescription, hunit, hscale, hoffset, hmin, hmax, hbits⟩, hflags⟩
      exact ⟨hname, htype, hdescription, hunit, hscale, hoffset, hmin, hmax, hbits, hflags⟩

theorem decided_items {walk : Json → Except Stop α} {Ok Bad : Json → Prop}
    (hwalk : ∀ item, Decided Stop.undefined (Ok item) (Bad item) (walk item))
    (j : Json) (key missing : String) :
    Decided Stop.undefined (∃ items, j.member key = some (.array items) ∧ ∀ item ∈ items, Ok item)
      (∃ items, j.member key = some (.array items) ∧ FirstBad Ok Bad items)
      ((access lib).sequence j key missing >>= fun items => items.mapM walk) := by
  have hitems : ∀ items, (access lib).sequence j key missing = .ok items →
      Decided Stop.undefined
        (∀ items, j.member key = some (.array items) → ∀ item ∈ items, Ok item)
        (∃ items, j.member key = some (.array items) ∧ FirstBad Ok Bad items)
          (items.mapM walk) := by
    intro items hsequence
    have hmember := member_of_sequence lib hsequence
    exact (Decided.mapM hwalk items).congr (by simp [hmember]) (by simp [hmember])
  refine ((decided_sequence lib j key missing).bind hitems).congr ?_ ?_
  · constructor
    · rintro ⟨⟨items, hmember⟩, hall⟩
      exact ⟨items, hmember, hall items hmember⟩
    · rintro ⟨items, hmember, hall⟩
      refine ⟨⟨items, hmember⟩, fun items' hmember' => ?_⟩
      cases hmember.symm.trans hmember'
      exact hall
  · constructor
    · rintro (hfalse | ⟨-, hbad⟩)
      · exact hfalse.elim
      · exact hbad
    · rintro ⟨items, hmember, hbad⟩
      exact .inr ⟨⟨items, hmember⟩, items, hmember, hbad⟩

theorem decided_packet (j : Json) :
    Decided Stop.undefined (PacketReadable lib j) (PacketUnguarded lib j)
      (parseIRPacket lib j) := by
  have hwalk := (decided_readable lib lib.getUInt32 j "id" "Packet missing 'id'").bind fun id _ =>
    (decided_readable lib lib.getString j "name" "Packet missing 'name'").bind fun name _ =>
    (decided_mayText lib j "description").bind fun description _ =>
    (decided_items lib (decided_field lib) j "fields"
      ("Packet '" ++ name ++ "' missing 'fields'")).bind fun fields _ =>
    Decided.ok (e := Stop.undefined) (IRPacket.mk id name description fields)
  simp only [bind_assoc] at hwalk
  refine hwalk.congr ?_ ?_
  · constructor
    · rintro ⟨hid, hname, hdescription, hfields, -⟩
      exact ⟨⟨hid, hname, hdescription⟩, hfields⟩
    · rintro ⟨⟨hid, hname, hdescription⟩, hfields⟩
      exact ⟨hid, hname, hdescription, hfields, trivial⟩
  · simp only [false_or, and_false, or_false]
    constructor
    · rintro ⟨hid, hname, hdescription, hfields⟩
      exact ⟨⟨hid, hname, hdescription⟩, hfields⟩
    · rintro ⟨⟨hid, hname, hdescription⟩, hfields⟩
      exact ⟨hid, hname, hdescription, hfields⟩

theorem decided_info (j : Json) :
    Decided Stop.undefined (InfoReadable lib j) False ((access lib).parseInfo j) := by
  have hwalk := (decided_mayText lib j "name").bind fun name _ =>
    (decided_mayText lib j "version").bind fun version _ =>
    (decided_mayText lib j "description").bind fun description _ =>
    (decided_mayText lib j "byte_order").bind fun byteOrder _ =>
    Decided.ok (e := Stop.undefined) (IRSchemaInfo.mk name version description byteOrder)
  refine hwalk.congr ?_ (by simp)
  constructor
  · rintro ⟨hname, hversion, hdescription, hbyteOrder, -⟩
    exact ⟨hname, hversion, hdescription, hbyteOrder⟩
  · rintro ⟨hname, hversion, hdescription, hbyteOrder⟩
    exact ⟨hname, hversion, hdescription, hbyteOrder, trivial⟩

/-- From the root on the walk subscripts an absent key exactly when it comes to
a flag that lacks one. -/
theorem parseRoot_undefined_iff (root : Json) :
    (access lib).parseRoot root = .error .undefined ↔ RootUnguarded lib root := by
  have hwalk := (decided_optional lib (decided_info lib) root "schema").bind fun info _ =>
    (decided_items lib (decided_packet lib) root "packets" "Schema missing 'packets' array").bind
      fun packets _ =>
    Decided.ok (e := Stop.undefined) (IRSchema.mk (info.getD {}) packets)
  simp only [bind_assoc] at hwalk
  refine hwalk.throws.trans ?_
  simp [RootUnguarded]

/-- Every document is handled by a result, except one in which the walk comes to
a flag that lacks a key. -/
theorem parse_handled_iff :
    (∀ root, (access lib).parseRoot root ≠ .error .undefined ↔ ¬RootUnguarded lib root) ∧
    ∀ content, JsonSchemaParser.parse lib content ≠ none ↔
      ∀ root, lib.parse content = .ok root → ¬RootUnguarded lib root := by
  refine ⟨fun root => not_congr (parseRoot_undefined_iff lib root), fun content => ?_⟩
  cases hparse : lib.parse content with
  | error what =>
    simp [JsonSchemaParser.parse, parseToIR, hparse, Stop.ofLibrary, concluded, bind, Except.bind]
  | ok root =>
    have hwalk : parseToIR lib content = (access lib).parseRoot root := by
      rw [parseToIR, hparse]
      rfl
    have hundefined : JsonSchemaParser.parse lib content = none ↔
        (access lib).parseRoot root = .error .undefined := by
      rw [JsonSchemaParser.parse, hwalk]
      cases (access lib).parseRoot root with
      | ok ir => simp [concluded]
      | error e => cases e <;> simp [concluded]
    rw [ne_eq, hundefined, parseRoot_undefined_iff]
    simp

def namelessBit : Json :=
  .object [("packets", .array [.object [("id", .integer seven), ("name", .string "status"),
    ("fields", .array [.object [("name", .string "state"), ("type", .string "bitfield"),
      ("flags", .array [.object [("name", .string "ready")]])]])]])]

theorem namelessBit_undefined : ∃ lib : JsonLibrary, lib.Converts ∧
    lib.parse "document" = .ok namelessBit ∧ JsonSchemaParser.parse lib "document" = none := by
  refine ⟨jsonKnowing "document" namelessBit, converts_jsonKnowing _ _, rfl, ?_⟩
  rfl

end Accepted

end IONet
