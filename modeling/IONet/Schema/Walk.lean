import IONet.Schema.SchemaParser

/-! The walk from a document tree to the intermediate representation.  Both
formats have it; they differ in the access to a node. -/

namespace IONet

open IONet.Core

/-- How a walk ends early: undefined behaviour, an exception of the library, or
a `runtime_error` of the walk itself, with its `what()`. -/
inductive Stop
  | undefined
  | library (what : String)
  | runtime (what : String)
  deriving DecidableEq

def Stop.ofLibrary : Except String α → Except Stop α
  | .ok a => .ok a
  | .error what => .error (.library what)

structure Access (Node : Type) where
  contains : Node → String → Except Stop Bool
  subscript : Node → String → Except Stop Node
  isSequence : Node → Bool
  items : Node → List Node
  text : Node → Except Stop String
  number : Node → Except Stop Double
  uint8 : Node → Except Stop UInt8
  uint32 : Node → Except Stop UInt32
  size : Node → Except Stop UInt64

namespace Access

variable {Node : Type} (access : Access Node)

def optional (convert : Node → Except Stop α) (node : Node) (key : String) :
    Except Stop (Option α) := do
  if ← access.contains node key then
    return some (← convert (← access.subscript node key))
  else
    return none

def optionalText (node : Node) (key : String) : Except Stop String := do
  return (← access.optional access.text node key).getD ""

def mandatory (convert : Node → Except Stop α) (node : Node) (key : String) (missing : String) :
    Except Stop α := do
  if !(← access.contains node key) then
    throw (.runtime missing)
  convert (← access.subscript node key)

def sequence (node : Node) (key : String) (missing : String) : Except Stop (List Node) := do
  if !(← access.contains node key) then
    throw (.runtime missing)
  if !access.isSequence (← access.subscript node key) then
    throw (.runtime missing)
  return access.items (← access.subscript node key)

def parseIRBitFlag (node : Node) : Except Stop IRBitFlag := do
  let bit ← access.uint8 (← access.subscript node "bit")
  let name ← access.text (← access.subscript node "name")
  let description ← access.optionalText node "description"
  return { bit := bit, name := name, description := description }

def parseIRField (node : Node) : Except Stop IRField := do
  let name ← access.mandatory access.text node "name" "Field missing 'name'"
  let type ← access.mandatory access.text node "type" ("Field '" ++ name ++ "' missing 'type'")
  let description ← access.optionalText node "description"
  let unit ← access.optionalText node "unit"
  let scale ← access.optional access.number node "scale"
  let offset ← access.optional access.number node "offset"
  let min ← access.optional access.number node "min"
  let max ← access.optional access.number node "max"
  let bitCount ← access.optional access.uint8 node "bits"
  let bitFlags ← access.optional (fun flags => (access.items flags).mapM access.parseIRBitFlag)
    node "flags"
  let size ← access.optional access.size node "size"
  return {
    name := name
    type := type
    description := description
    unit := unit
    scaling := { scale := scale, offset := offset }
    constraints := { min := min, max := max }
    bitCount := bitCount
    bitFlags := bitFlags.getD []
    size := size }

def parseIRPacket (node : Node) : Except Stop IRPacket := do
  let id ← access.mandatory access.uint32 node "id" "Packet missing 'id'"
  let name ← access.mandatory access.text node "name" "Packet missing 'name'"
  let description ← access.optionalText node "description"
  let fields ← access.sequence node "fields" ("Packet '" ++ name ++ "' missing 'fields'")
  return { id := id, name := name, description := description,
           fields := ← fields.mapM access.parseIRField }

def parseInfo (node : Node) : Except Stop IRSchemaInfo := do
  let name ← access.optionalText node "name"
  let version ← access.optionalText node "version"
  let description ← access.optionalText node "description"
  let byteOrder ← access.optionalText node "byte_order"
  return { name := name, version := version, description := description, byteOrder := byteOrder }

def parseRoot (root : Node) : Except Stop IRSchema := do
  let info ← access.optional access.parseInfo root "schema"
  let packets ← access.sequence root "packets" "Schema missing 'packets' array"
  return { info := info.getD {}, packets := ← packets.mapM access.parseIRPacket }

end Access

/-- The `try` block of `parse`: `none` where the behaviour is undefined. -/
def concluded (format : String) (walk : Except Stop IRSchema) : Option (Result Schema) :=
  match walk with
  | .ok ir => some (SchemaParserBase.buildSchema ir)
  | .error .undefined => none
  | .error (.library what) => some (.error ⟨format ++ " parse error: " ++ what⟩)
  | .error (.runtime what) => some (.error ⟨"Schema parse error: " ++ what⟩)

end IONet
