import IONet.Schema.Walk

namespace IONet

open IONet.Core

/-- An integer as a JSON value holds it, signed or unsigned. -/
abbrev StoredInteger := { n : Int // -2 ^ 63 ≤ n ∧ n < 2 ^ 64 }

inductive Json
  | null : Json
  | boolean (b : Bool) : Json
  | integer (n : StoredInteger) : Json
  | float (x : Double) : Json
  | string (s : String) : Json
  | array (items : List Json) : Json
  | object (members : List (String × Json)) : Json

namespace Json

def contains : Json → String → Bool
  | .object members, key => (members.lookup key).isSome
  | _, _ => false

def isArray : Json → Bool
  | .array _ => true
  | _ => false

/-- What a range-based `for` visits: the members of an object in the order in which
they are held, a primitive itself. -/
def items : Json → List Json
  | .array items => items
  | .object members => members.map Prod.snd
  | .null => []
  | j => [j]

end Json

/-- The calls into `nlohmann::json`, which is not part of the repository: their
results, or the `what()` of the `json::exception`. -/
structure JsonLibrary where
  parse : String → Except String Json
  getString : Json → Except String String
  getDouble : Json → Except String Double
  getUInt8 : Json → Except String UInt8
  getUInt32 : Json → Except String UInt32
  getSize : Json → Except String UInt64
  /-- The `type_error` of a subscript on what is no object. -/
  subscriptError : Json → String

/-- What the library documents of values of the right type: `get` casts. -/
structure JsonLibrary.Converts (lib : JsonLibrary) : Prop where
  string : ∀ s, lib.getString (.string s) = .ok s
  float : ∀ x, lib.getDouble (.float x) = .ok x
  double : ∀ n, lib.getDouble (.integer n) = .ok (Double.ofInt n.val)
  uint8 : ∀ n, lib.getUInt8 (.integer n) = .ok (UInt8.ofInt n.val)
  uint32 : ∀ n, lib.getUInt32 (.integer n) = .ok (UInt32.ofInt n.val)
  size : ∀ n, lib.getSize (.integer n) = .ok (UInt64.ofInt n.val)

namespace JsonSchemaParser

variable (lib : JsonLibrary)

def subscript : Json → String → Except Stop Json
  | .object members, key =>
    match members.lookup key with
    | some value => .ok value
    | none => .error .undefined
  | j, _ => .error (.library (lib.subscriptError j))

def access : Access Json where
  contains j key := .ok (j.contains key)
  subscript := subscript lib
  isSequence := Json.isArray
  items := Json.items
  text j := Stop.ofLibrary (lib.getString j)
  number j := Stop.ofLibrary (lib.getDouble j)
  uint8 j := Stop.ofLibrary (lib.getUInt8 j)
  uint32 j := Stop.ofLibrary (lib.getUInt32 j)
  size j := Stop.ofLibrary (lib.getSize j)

def parseIRBitFlag : Json → Except Stop IRBitFlag := (access lib).parseIRBitFlag

def parseIRField : Json → Except Stop IRField := (access lib).parseIRField

def parseIRPacket : Json → Except Stop IRPacket := (access lib).parseIRPacket

def parseToIR (content : String) : Except Stop IRSchema := do
  (access lib).parseRoot (← Stop.ofLibrary (lib.parse content))

def parse (content : String) : Option (Result Schema) := concluded "JSON" (parseToIR lib content)

end JsonSchemaParser

end IONet
