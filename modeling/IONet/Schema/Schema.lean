import IONet.Lib.LastIndex
import IONet.Schema.Field

namespace IONet

open IONet.Core Lib.LastIndex

structure SchemaInfo where
  name : String := ""
  version : String := ""
  description : String := ""
  deriving DecidableEq

/-- The two indices are private to the class: they lead from every id and every
name to the packet added last under it. -/
structure Schema where
  info : SchemaInfo := {}
  byteOrder : ByteOrder := .big
  packets : List Packet := []
  idIndex : AList fun _ : UInt32 => Nat := ∅
  nameIndex : AList fun _ : String => Nat := ∅
  idIndexed : Indexes idIndex (packets.map Packet.id) := by exact Lib.LastIndex.Indexes.empty
  nameIndexed : Indexes nameIndex (packets.map Packet.name) := by exact Lib.LastIndex.Indexes.empty

namespace Schema

def setInfo (s : Schema) (info : SchemaInfo) : Schema := { s with info := info }

def setByteOrder (s : Schema) (order : ByteOrder) : Schema := { s with byteOrder := order }

def addPacket (s : Schema) (packet : Packet) : Schema where
  info := s.info
  byteOrder := s.byteOrder
  packets := s.packets ++ [packet]
  idIndex := s.idIndex.insert packet.id s.packets.length
  nameIndex := s.nameIndex.insert packet.name s.packets.length
  idIndexed := by simpa using s.idIndexed.insert packet.id
  nameIndexed := by simpa using s.nameIndexed.insert packet.name

def findPacketById (s : Schema) (id : UInt32) : Option Packet :=
  (s.idIndex.lookup id).bind fun i => s.packets[i]?

def findPacketByName (s : Schema) (name : String) : Option Packet :=
  (s.nameIndex.lookup name).bind fun i => s.packets[i]?

def validate (s : Schema) : Except String Unit :=
  if s.idIndex.keys.length ≠ s.packets.length then .error "Duplicate packet IDs detected"
  else if s.nameIndex.keys.length ≠ s.packets.length then .error "Duplicate packet names detected"
  else
    match s.packets.find? fun packet => packet.fields.isEmpty with
    | some packet => .error ("Packet '" ++ packet.name ++ "' has no fields")
    | none => .ok ()

@[simp] theorem packets_addPacket (s : Schema) (packet : Packet) :
    (s.addPacket packet).packets = s.packets ++ [packet] := rfl

@[simp] theorem byteOrder_addPacket (s : Schema) (packet : Packet) :
    (s.addPacket packet).byteOrder = s.byteOrder := rfl

theorem packets_foldl_addPacket (s : Schema) (ps : List Packet) :
    (ps.foldl addPacket s).packets = s.packets ++ ps := by
  induction ps generalizing s with
  | nil => simp
  | cons p ps ih => simp [ih]

theorem info_foldl_addPacket (s : Schema) (ps : List Packet) :
    (ps.foldl addPacket s).info = s.info := by
  induction ps generalizing s with
  | nil => rfl
  | cons p ps ih => exact ih (s.addPacket p)

theorem byteOrder_foldl_addPacket (s : Schema) (ps : List Packet) :
    (ps.foldl addPacket s).byteOrder = s.byteOrder := by
  induction ps generalizing s with
  | nil => rfl
  | cons p ps ih => exact ih (s.addPacket p)

structure Valid (s : Schema) : Prop where
  ids : (s.packets.map Packet.id).Nodup
  names : (s.packets.map Packet.name).Nodup
  fields : ∀ p ∈ s.packets, p.fields ≠ []

theorem validate_eq_ok_iff (s : Schema) : s.validate = .ok () ↔ s.Valid := by
  have hids := s.idIndexed.length_keys_iff
  have hnames := s.nameIndexed.length_keys_iff
  rw [List.length_map] at hids hnames
  unfold validate
  split_ifs with hid hname
  · simp only [false_iff]
    exact fun hv => hid (hids.mpr hv.ids)
  · simp only [false_iff]
    exact fun hv => hname (hnames.mpr hv.names)
  · have hfields : (s.packets.find? fun packet => packet.fields.isEmpty) = none ↔
        ∀ p ∈ s.packets, p.fields ≠ [] := by
      simp
    have hvalid : s.Valid ↔ ∀ p ∈ s.packets, p.fields ≠ [] :=
      ⟨Valid.fields, fun h => ⟨hids.mp (not_not.mp hid), hnames.mp (not_not.mp hname), h⟩⟩
    rw [hvalid, ← hfields]
    cases s.packets.find? fun packet => packet.fields.isEmpty <;> simp

theorem mem_of_findPacketById {s : Schema} {id : UInt32} {p : Packet}
    (h : s.findPacketById id = some p) : p ∈ s.packets := by
  obtain ⟨i, -, hi⟩ := Option.bind_eq_some_iff.mp h
  exact List.mem_of_getElem? hi

theorem mem_of_findPacketByName {s : Schema} {name : String} {p : Packet}
    (h : s.findPacketByName name = some p) : p ∈ s.packets := by
  obtain ⟨i, -, hi⟩ := Option.bind_eq_some_iff.mp h
  exact List.mem_of_getElem? hi

theorem lookup_of_valid {s : Schema} (hs : s.Valid) {i : Nat} {p : Packet}
    (hi : s.packets[i]? = some p) :
    s.idIndex.lookup p.id = some i ∧ s.nameIndex.lookup p.name = some i := by
  constructor
  · apply s.idIndexed.lookup_of_getElem? hs.ids
    rw [List.getElem?_map, hi, Option.map_some]
  · apply s.nameIndexed.lookup_of_getElem? hs.names
    rw [List.getElem?_map, hi, Option.map_some]

theorem findPacketById_of_mem {s : Schema} (hs : s.Valid) {p : Packet} (hp : p ∈ s.packets) :
    s.findPacketById p.id = some p := by
  obtain ⟨i, hi⟩ := List.mem_iff_getElem?.mp hp
  rw [findPacketById, (lookup_of_valid hs hi).1, Option.bind_some, hi]

theorem findPacketByName_of_mem {s : Schema} (hs : s.Valid) {p : Packet} (hp : p ∈ s.packets) :
    s.findPacketByName p.name = some p := by
  obtain ⟨i, hi⟩ := List.mem_iff_getElem?.mp hp
  rw [findPacketByName, (lookup_of_valid hs hi).2, Option.bind_some, hi]

section

variable {s s' : Schema}

theorem findPacketById_of_perm (hs : s.Valid) (hperm : s.packets.Perm s'.packets) (id : UInt32) :
    s.findPacketById id = s'.findPacketById id :=
  s.idIndexed.find_of_perm s'.idIndexed hs.ids hperm id

theorem findPacketByName_of_perm (hs : s.Valid) (hperm : s.packets.Perm s'.packets)
    (name : String) : s.findPacketByName name = s'.findPacketByName name :=
  s.nameIndexed.find_of_perm s'.nameIndexed hs.names hperm name

theorem findPacketById_addPacket_of_ne {packet : Packet} {id : UInt32} (h : id ≠ packet.id) :
    (s.addPacket packet).findPacketById id = s.findPacketById id :=
  s.idIndexed.find_concat_of_ne h

theorem findPacketByName_addPacket_of_ne {packet : Packet} {name : String}
    (h : name ≠ packet.name) :
    (s.addPacket packet).findPacketByName name = s.findPacketByName name :=
  s.nameIndexed.find_concat_of_ne h

end

def addPackets (ps : List Packet) : Schema := ps.foldl addPacket {}

theorem packets_addPackets (ps : List Packet) : (addPackets ps).packets = ps :=
  packets_foldl_addPacket {} ps

/-- An index and the lookup through it: what is found under a key is the packet
added last with it, and no stored position is outside. -/
structure LeadsToLast {κ : Type} [DecidableEq κ] (key : Packet → κ) (index : AList fun _ : κ => Nat)
    (find : κ → Option Packet) (ps : List Packet) : Prop where
  found : ∀ k, find k = ps.findRev? fun p => key p = k
  inside : ∀ k i, index.lookup k = some i → i < ps.length
  pointer : ∀ k, find k = (index.lookup k).bind fun i => ps[i]?

theorem leadsToLast {κ : Type} [DecidableEq κ] {key : Packet → κ} {index : AList fun _ : κ => Nat}
    {ps : List Packet} (h : Indexes index (ps.map key)) :
    LeadsToLast key index (fun k => (index.lookup k).bind fun i => ps[i]?) ps where
  found := h.find_eq
  inside k i hi := by
    have hlt := (List.getElem?_eq_some_iff.mp (h.last k i hi).1).1
    rwa [List.length_map] at hlt
  pointer _ := rfl

theorem ids_leadToLast (s : Schema) :
    LeadsToLast Packet.id s.idIndex s.findPacketById s.packets := leadsToLast s.idIndexed

theorem names_leadToLast (s : Schema) :
    LeadsToLast Packet.name s.nameIndex s.findPacketByName s.packets := leadsToLast s.nameIndexed

/-- Whatever is added, both lookups give the packet added last; `validate`
accepts exactly when ids and names are distinct and no packet is empty, and then
both lookups lead every packet to itself. -/
theorem addPackets_integrity (ps : List Packet) :
    LeadsToLast Packet.id (addPackets ps).idIndex (addPackets ps).findPacketById ps ∧
    LeadsToLast Packet.name (addPackets ps).nameIndex (addPackets ps).findPacketByName ps ∧
    ((addPackets ps).validate = .ok () ↔ (ps.map Packet.id).Nodup ∧ (ps.map Packet.name).Nodup ∧
      ∀ p ∈ ps, p.fields ≠ []) ∧
    ((addPackets ps).validate = .ok () → ∀ (i : Nat) (p : Packet), ps[i]? = some p →
      (addPackets ps).idIndex.lookup p.id = some i ∧ (addPackets ps).findPacketById p.id = some p ∧
      (addPackets ps).nameIndex.lookup p.name = some i ∧
      (addPackets ps).findPacketByName p.name = some p) := by
  have hpackets := packets_addPackets ps
  have hvalidate := (addPackets ps).validate_eq_ok_iff
  refine ⟨?_, ?_, ?_, ?_⟩
  · have hids := (addPackets ps).ids_leadToLast
    rwa [hpackets] at hids
  · have hnames := (addPackets ps).names_leadToLast
    rwa [hpackets] at hnames
  · rw [hvalidate]
    constructor
    · rintro ⟨hids, hnames, hfields⟩
      rw [hpackets] at hids hnames hfields
      exact ⟨hids, hnames, hfields⟩
    · rintro ⟨hids, hnames, hfields⟩
      rw [← hpackets] at hids hnames hfields
      exact ⟨hids, hnames, hfields⟩
  · intro h i p hi
    have hvalid := hvalidate.mp h
    rw [← hpackets] at hi
    have hp := List.mem_of_getElem? hi
    obtain ⟨hid, hname⟩ := lookup_of_valid hvalid hi
    exact ⟨hid, findPacketById_of_mem hvalid hp, hname, findPacketByName_of_mem hvalid hp⟩

end Schema

end IONet
