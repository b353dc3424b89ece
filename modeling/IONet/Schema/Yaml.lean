import IONet.Schema.Walk

namespace IONet

open IONet.Core

inductive Yaml
  | null : Yaml
  | scalar (text : String) : Yaml
  | sequence (items : List Yaml) : Yaml
  | map (entries : List (String × Yaml)) : Yaml

/-- A `YAML::Node`; one that is not there remembers the key it was looked up by. -/
inductive YamlNode
  | invalid (key : String) : YamlNode
  | valid (tree : Yaml) : YamlNode

namespace YamlNode

def isDefined : YamlNode → Bool
  | .invalid _ => false
  | .valid _ => true

def isSequence : YamlNode → Bool
  | .valid (.sequence _) => true
  | _ => false

/-- What a range-based `for` visits: the pairs of a map are no nodes. -/
def items : YamlNode → List YamlNode
  | .valid (.sequence items) => items.map .valid
  | .valid (.map entries) => entries.map fun _ => .invalid ""
  | _ => []

end YamlNode

/-- The calls into yaml-cpp, which is not part of the repository: their results,
or the `what()` of the `YAML::Exception`.  The real texts also say at what line and
column the node stands, which no tree here knows. -/
structure YamlLibrary where
  load : String → Except String Yaml
  asString : Yaml → Except String String
  asDouble : Yaml → Except String Double
  asUInt8 : Yaml → Except String UInt8
  asUInt32 : Yaml → Except String UInt32
  asSize : Yaml → Except String UInt64
  /-- `InvalidNode`, thrown by a node that is not there. -/
  invalidNode : String → String
  /-- `BadSubscript`, thrown by a scalar. -/
  badSubscript : String → String
  /-- What the text of a scalar says as an integer, and as a floating-point number. -/
  integer : String → Option Int
  number : String → Option Double

/-- `as<uintN_t>()`: a value that does not fit is a `BadConversion`. -/
structure Checked (bits : Nat) (n : Int) (converted : Except String α) (a : α) : Prop where
  fits : 0 ≤ n → n < 2 ^ bits → converted = .ok a
  refused : ¬(0 ≤ n ∧ n < 2 ^ bits) → ∃ what, converted = .error what

/-- What the library documents of scalars that say what is asked for. -/
structure YamlLibrary.Converts (lib : YamlLibrary) : Prop where
  string : ∀ text, lib.asString (.scalar text) = .ok text
  double : ∀ text x, lib.number text = some x → lib.asDouble (.scalar text) = .ok x
  uint8 : ∀ text n, lib.integer text = some n →
    Checked 8 n (lib.asUInt8 (.scalar text)) (UInt8.ofInt n)
  uint32 : ∀ text n, lib.integer text = some n →
    Checked 32 n (lib.asUInt32 (.scalar text)) (UInt32.ofInt n)
  size : ∀ text n, lib.integer text = some n →
    Checked 64 n (lib.asSize (.scalar text)) (UInt64.ofInt n)

namespace YamlSchemaParser

variable (lib : YamlLibrary)

def subscript : YamlNode → String → Except Stop YamlNode
  | .invalid key', _ => .error (.library (lib.invalidNode key'))
  | .valid (.map entries), key =>
    match entries.lookup key with
    | some tree => .ok (.valid tree)
    | none => .ok (.invalid key)
  | .valid (.scalar _), key => .error (.library (lib.badSubscript key))
  | .valid _, key => .ok (.invalid key)

def converted (convert : Yaml → Except String α) : YamlNode → Except Stop α
  | .invalid key => .error (.library (lib.invalidNode key))
  | .valid tree => Stop.ofLibrary (convert tree)

def access : Access YamlNode where
  contains node key := do return (← subscript lib node key).isDefined
  subscript := subscript lib
  isSequence := YamlNode.isSequence
  items := YamlNode.items
  text := converted lib lib.asString
  number := converted lib lib.asDouble
  uint8 := converted lib lib.asUInt8
  uint32 := converted lib lib.asUInt32
  size := converted lib lib.asSize

def parseIRBitFlag : YamlNode → Except Stop IRBitFlag := (access lib).parseIRBitFlag

def parseIRField : YamlNode → Except Stop IRField := (access lib).parseIRField

def parseIRPacket : YamlNode → Except Stop IRPacket := (access lib).parseIRPacket

def parseToIR (content : String) : Except Stop IRSchema := do
  (access lib).parseRoot (.valid (← Stop.ofLibrary (lib.load content)))

def parse (content : String) : Option (Result Schema) := concluded "YAML" (parseToIR lib content)

end YamlSchemaParser

end IONet
