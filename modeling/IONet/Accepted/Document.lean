import IONet.Schema.Json
import IONet.Schema.Yaml

/-! Schema documents before they are written in a format, and what a walk makes
of their renderings. -/

namespace IONet.Accepted

open IONet.Core Lib.Throwing

structure FlagDoc where
  bit : StoredInteger
  name : String
  description : Option String := none

structure FieldDoc where
  name : String
  type : String
  description : Option String := none
  unit : Option String := none
  scale : Option Double := none
  offset : Option Double := none
  min : Option Double := none
  max : Option Double := none
  bits : Option StoredInteger := none
  flags : Option (List FlagDoc) := none
  size : Option StoredInteger := none

structure PacketDoc where
  id : StoredInteger
  name : String
  description : Option String := none
  fields : List FieldDoc

structure InfoDoc where
  name : Option String := none
  version : Option String := none
  description : Option String := none
  byteOrder : Option String := none

structure SchemaDoc where
  schema : Option InfoDoc := none
  packets : List PacketDoc

/-! What a document means, every integer reduced to the width of its target. -/

def FlagDoc.toIR (doc : FlagDoc) : IRBitFlag where
  bit := UInt8.ofInt doc.bit.val
  name := doc.name
  description := doc.description.getD ""

def FieldDoc.toIR (doc : FieldDoc) : IRField where
  name := doc.name
  type := doc.type
  description := doc.description.getD ""
  unit := doc.unit.getD ""
  scaling := { scale := doc.scale, offset := doc.offset }
  constraints := { min := doc.min, max := doc.max }
  bitCount := doc.bits.map fun n => UInt8.ofInt n.val
  bitFlags := (doc.flags.getD []).map FlagDoc.toIR
  size := doc.size.map fun n => UInt64.ofInt n.val

def PacketDoc.toIR (doc : PacketDoc) : IRPacket where
  id := UInt32.ofInt doc.id.val
  name := doc.name
  description := doc.description.getD ""
  fields := doc.fields.map FieldDoc.toIR

def InfoDoc.toIR (doc : InfoDoc) : IRSchemaInfo where
  name := doc.name.getD ""
  version := doc.version.getD ""
  description := doc.description.getD ""
  byteOrder := doc.byteOrder.getD ""

def SchemaDoc.toIR (doc : SchemaDoc) : IRSchema where
  info := (doc.schema.map InfoDoc.toIR).getD {}
  packets := doc.packets.map PacketDoc.toIR

section

variable (fit : Nat → Int → Prop)

structure FieldDoc.Fits (doc : FieldDoc) : Prop where
  bits : ∀ n ∈ doc.bits, fit 8 n.val
  flags : ∀ flag ∈ doc.flags.getD [], fit 8 flag.bit.val
  size : ∀ n ∈ doc.size, fit 64 n.val

structure PacketDoc.Fits (doc : PacketDoc) : Prop where
  id : fit 32 doc.id.val
  fields : ∀ field ∈ doc.fields, field.Fits fit

def SchemaDoc.Fits (doc : SchemaDoc) : Prop := ∀ packet ∈ doc.packets, packet.Fits fit

end

/-- How a format writes what documents are made of.  A mapping is known by what
stands under each key, so it may have further keys, in any order. -/
structure Format (Node : Type) where
  Mapping : Node → (String → Option Node) → Prop
  Sequence : Node → List Node → Prop
  Text : Node → String → Prop
  Number : Node → Double → Prop
  Integer : Node → StoredInteger → Prop

section

variable {Node : Type} (format : Format Node)

def Holds (get : String → Option Node) (key : String) (R : Node → α → Prop) (a : α) : Prop :=
  ∃ node, get key = some node ∧ R node a

def MayHold (get : String → Option Node) (key : String) (R : Node → α → Prop)
    (o : Option α) : Prop :=
  Option.Rel R (get key) o

def Format.Items (R : Node → α → Prop) (node : Node) (as : List α) : Prop :=
  ∃ nodes, format.Sequence node nodes ∧ List.Forall₂ R nodes as

def RendersFlag (node : Node) (doc : FlagDoc) : Prop :=
  ∃ get, format.Mapping node get ∧ Holds get "bit" format.Integer doc.bit ∧
    Holds get "name" format.Text doc.name ∧ MayHold get "description" format.Text doc.description

structure RendersFieldAt (get : String → Option Node) (doc : FieldDoc) : Prop where
  name : Holds get "name" format.Text doc.name
  type : Holds get "type" format.Text doc.type
  description : MayHold get "description" format.Text doc.description
  unit : MayHold get "unit" format.Text doc.unit
  scale : MayHold get "scale" format.Number doc.scale
  offset : MayHold get "offset" format.Number doc.offset
  min : MayHold get "min" format.Number doc.min
  max : MayHold get "max" format.Number doc.max
  bits : MayHold get "bits" format.Integer doc.bits
  flags : MayHold get "flags" (format.Items (RendersFlag format)) doc.flags
  size : MayHold get "size" format.Integer doc.size

def RendersField (node : Node) (doc : FieldDoc) : Prop :=
  ∃ get, format.Mapping node get ∧ RendersFieldAt format get doc

structure RendersPacketAt (get : String → Option Node) (doc : PacketDoc) : Prop where
  id : Holds get "id" format.Integer doc.id
  name : Holds get "name" format.Text doc.name
  description : MayHold get "description" format.Text doc.description
  fields : Holds get "fields" (format.Items (RendersField format)) doc.fields

def RendersPacket (node : Node) (doc : PacketDoc) : Prop :=
  ∃ get, format.Mapping node get ∧ RendersPacketAt format get doc

def RendersInfo (node : Node) (doc : InfoDoc) : Prop :=
  ∃ get, format.Mapping node get ∧ MayHold get "name" format.Text doc.name ∧
    MayHold get "version" format.Text doc.version ∧
    MayHold get "description" format.Text doc.description ∧
    MayHold get "byte_order" format.Text doc.byteOrder

def Renders (node : Node) (doc : SchemaDoc) : Prop :=
  ∃ get, format.Mapping node get ∧ MayHold get "schema" (RendersInfo format) doc.schema ∧
    Holds get "packets" (format.Items (RendersPacket format)) doc.packets

end

def FromLibrary (e : Stop) : Prop := ∃ what, e = .library what

/-- An integer is read as its value modulo the width, or refused. -/
structure Reads {Node : Type} (access : Access Node) (format : Format Node)
    (fit : Nat → Int → Prop) : Prop where
  contains : ∀ {node get}, format.Mapping node get →
    ∀ key, access.contains node key = .ok (get key).isSome
  subscript : ∀ {node get}, format.Mapping node get →
    ∀ {key child}, get key = some child → access.subscript node key = .ok child
  isSequence : ∀ {node nodes}, format.Sequence node nodes → access.isSequence node = true
  items : ∀ {node nodes}, format.Sequence node nodes → access.items node = nodes
  text : ∀ {node s}, format.Text node s → access.text node = .ok s
  number : ∀ {node x}, format.Number node x → access.number node = .ok x
  uint8 : ∀ {node} {n : StoredInteger}, format.Integer node n →
    Settles FromLibrary (fit 8 n.val) (access.uint8 node) (UInt8.ofInt n.val)
  uint32 : ∀ {node} {n : StoredInteger}, format.Integer node n →
    Settles FromLibrary (fit 32 n.val) (access.uint32 node) (UInt32.ofInt n.val)
  size : ∀ {node} {n : StoredInteger}, format.Integer node n →
    Settles FromLibrary (fit 64 n.val) (access.size node) (UInt64.ofInt n.val)

section

variable {Node : Type} {access : Access Node} {format : Format Node} {fit : Nat → Int → Prop}
  {node : Node} {get : String → Option Node} {key : String}

theorem Reads.mandatory (reads : Reads access format fit) (hmap : format.Mapping node get)
    {child : Node} (hget : get key = some child) (convert : Node → Except Stop α)
    (missing : String) :
    access.mandatory convert node key missing = convert child := by
  simp [Access.mandatory, reads.contains hmap, reads.subscript hmap hget, hget]

theorem Reads.sequence (reads : Reads access format fit) (hmap : format.Mapping node get)
    {child : Node} (hget : get key = some child) {nodes : List Node}
    (hnodes : format.Sequence child nodes) (missing : String) :
    access.sequence node key missing = .ok nodes := by
  simp [Access.sequence, reads.contains hmap, reads.subscript hmap hget, hget,
    reads.isSequence hnodes, reads.items hnodes]

theorem Reads.optional (reads : Reads access format fit) (hmap : format.Mapping node get)
    {R : Node → γ → Prop} {o : Option γ} (h : MayHold get key R o) {P : γ → Prop} {k : γ → α}
    {convert : Node → Except Stop α}
    (hconvert : ∀ child c, R child c → Settles FromLibrary (P c) (convert child) (k c)) :
    Settles FromLibrary (∀ c ∈ o, P c) (access.optional convert node key) (o.map k) := by
  unfold MayHold at h
  cases hget : get key with
  | none =>
    rw [hget] at h
    cases h
    have hnone : access.optional convert node key = .ok none := by
      simp [Access.optional, reads.contains hmap, hget, pure, Except.pure]
    exact (Settles.of_eq hnone).congr (by simp)
  | some child =>
    rw [hget] at h
    cases h with
    | some hchild =>
      rename_i c
      have hsome : access.optional convert node key = convert child >>= fun a => pure (some a) := by
        simp [Access.optional, reads.contains hmap, reads.subscript hmap hget, hget]
      rw [hsome]
      exact (hconvert child c hchild).map.congr (by simp)

theorem Reads.optional_eq (reads : Reads access format fit) (hmap : format.Mapping node get)
    {R : Node → α → Prop} {o : Option α} (h : MayHold get key R o) {convert : Node → Except Stop α}
    (hconvert : ∀ child a, R child a → convert child = .ok a) :
    access.optional convert node key = .ok o := by
  have hsettles :
      Settles FromLibrary (∀ a ∈ o, True) (access.optional convert node key) (o.map id) :=
    reads.optional hmap h fun child a hchild => Settles.of_eq (hconvert child a hchild)
  rw [hsettles.returns fun _ _ => trivial, Option.map_id_fun, id]

theorem Reads.optionalText (reads : Reads access format fit) (hmap : format.Mapping node get)
    {o : Option String} (h : MayHold get key format.Text o) :
    access.optionalText node key = .ok (o.getD "") := by
  simp only [Access.optionalText, reads.optional_eq hmap h fun _ _ => reads.text, ok_bind]
  rfl

theorem Reads.optionalNumber (reads : Reads access format fit) (hmap : format.Mapping node get)
    {o : Option Double} (h : MayHold get key format.Number o) :
    access.optional access.number node key = .ok o :=
  reads.optional_eq hmap h fun _ _ => reads.number

theorem Reads.flag (reads : Reads access format fit) {doc : FlagDoc}
    (h : RendersFlag format node doc) :
    Settles FromLibrary (fit 8 doc.bit.val) (access.parseIRBitFlag node) doc.toIR := by
  obtain ⟨get, hmap, ⟨bit, hbit, hbit'⟩, ⟨name, hname, hname'⟩, hdescription⟩ := h
  simp only [Access.parseIRBitFlag, reads.subscript hmap hbit, reads.subscript hmap hname,
    reads.text hname', reads.optionalText hmap hdescription, ok_bind]
  exact (reads.uint8 hbit').map

theorem Reads.flags (reads : Reads access format fit) {flags : List FlagDoc}
    (h : format.Items (RendersFlag format) node flags) :
    Settles FromLibrary (∀ flag ∈ flags, fit 8 flag.bit.val)
      ((access.items node).mapM access.parseIRBitFlag) (flags.map FlagDoc.toIR) := by
  obtain ⟨nodes, hnodes, hflags⟩ := h
  rw [reads.items hnodes]
  exact Settles.mapM hflags fun _ _ => reads.flag

theorem Reads.field (reads : Reads access format fit) {doc : FieldDoc}
    (h : RendersField format node doc) :
    Settles FromLibrary (doc.Fits fit) (access.parseIRField node) doc.toIR := by
  obtain ⟨get, hmap, h⟩ := h
  obtain ⟨name, hname, hname'⟩ := h.name
  obtain ⟨type, htype, htype'⟩ := h.type
  have hbits := reads.optional hmap h.bits fun _ _ => reads.uint8
  have hflags := reads.optional hmap h.flags fun _ _ => reads.flags
  have hsize := reads.optional hmap h.size fun _ _ => reads.size
  simp only [Access.parseIRField, reads.mandatory hmap hname, reads.mandatory hmap htype,
    reads.text hname', reads.text htype', reads.optionalText hmap h.description,
    reads.optionalText hmap h.unit, reads.optionalNumber hmap h.scale,
    reads.optionalNumber hmap h.offset, reads.optionalNumber hmap h.min,
    reads.optionalNumber hmap h.max, ok_bind]
  have hbitFlags : (doc.flags.getD []).map FlagDoc.toIR =
      (doc.flags.map fun flags => flags.map FlagDoc.toIR).getD [] := by cases doc.flags <;> rfl
  rw [FieldDoc.toIR, hbitFlags]
  refine (hbits.bind (hflags.bind hsize.map)).congr ⟨?_, ?_⟩
  · rintro ⟨hbits, hflags, hsize⟩
    refine ⟨hbits, fun flag hflag => ?_, hsize⟩
    cases hdoc : doc.flags with
    | none => simp [hdoc] at hflag
    | some flags => exact hflags flags hdoc flag (by simpa [hdoc] using hflag)
  · rintro ⟨hbits, hflags, hsize⟩
    refine ⟨hbits, fun flags hdoc flag hflag => hflags flag ?_, hsize⟩
    rwa [Option.mem_def.mp hdoc, Option.getD_some]

theorem Reads.packet (reads : Reads access format fit) {doc : PacketDoc}
    (h : RendersPacket format node doc) :
    Settles FromLibrary (doc.Fits fit) (access.parseIRPacket node) doc.toIR := by
  obtain ⟨get, hmap, h⟩ := h
  obtain ⟨id, hid, hid'⟩ := h.id
  obtain ⟨name, hname, hname'⟩ := h.name
  obtain ⟨fields, hfields, nodes, hnodes, hall⟩ := h.fields
  have hfieldDocs := Settles.mapM hall fun _ _ => reads.field
  simp only [Access.parseIRPacket, reads.mandatory hmap hid, reads.mandatory hmap hname,
    reads.text hname', reads.optionalText hmap h.description, reads.sequence hmap hfields hnodes,
    ok_bind]
  refine ((reads.uint32 hid').bind hfieldDocs.map).congr ⟨?_, ?_⟩
  · rintro ⟨hid, hfields⟩
    exact ⟨hid, hfields⟩
  · rintro ⟨hid, hfields⟩
    exact ⟨hid, hfields⟩

theorem Reads.info (reads : Reads access format fit) {doc : InfoDoc}
    (h : RendersInfo format node doc) : access.parseInfo node = .ok doc.toIR := by
  obtain ⟨get, hmap, hname, hversion, hdescription, horder⟩ := h
  simp only [Access.parseInfo, reads.optionalText hmap hname, reads.optionalText hmap hversion,
    reads.optionalText hmap hdescription, reads.optionalText hmap horder, ok_bind]
  rfl

/-- The walk over a rendering gives the document back, up to the integers that
are reduced, or it ends in an exception of the library because one is refused. -/
theorem Reads.root (reads : Reads access format fit) {doc : SchemaDoc}
    (h : Renders format node doc) :
    Settles FromLibrary (doc.Fits fit) (access.parseRoot node) doc.toIR := by
  obtain ⟨get, hmap, hschema, packets, hpackets, nodes, hnodes, hall⟩ := h
  have hinfo : Settles FromLibrary (∀ c ∈ doc.schema, True)
      (access.optional access.parseInfo node "schema") (doc.schema.map InfoDoc.toIR) :=
    reads.optional hmap hschema fun _ _ hinfo => Settles.of_eq (reads.info hinfo)
  have hpacketDocs := Settles.mapM hall fun _ _ => reads.packet
  simp only [Access.parseRoot, hinfo.returns fun _ _ => trivial,
    reads.sequence hmap hpackets hnodes, ok_bind]
  exact hpacketDocs.map

end

end IONet.Accepted
