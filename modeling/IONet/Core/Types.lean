import IONet.Core.Double

namespace IONet.Core

inductive DataType
  | int8 | int16 | int32 | int64
  | uint8 | uint16 | uint32 | uint64
  | float32 | float64
  | bitfield | string | bytes
  deriving DecidableEq, Repr

inductive ByteOrder
  | big | little | native
  deriving DecidableEq, Repr

/-- The alternatives of the `std::variant`, in its order.  The characters of a
`std::string` read from a buffer are arbitrary bytes. -/
inductive Value
  | monostate : Value
  | int64 (v : Int64) : Value
  | uint64 (v : UInt64) : Value
  | double (v : Double) : Value
  | string (v : List UInt8) : Value
  | bytes (v : List UInt8) : Value
  deriving DecidableEq

def Value.index : Value → Nat
  | .monostate => 0
  | .int64 _ => 1
  | .uint64 _ => 2
  | .double _ => 3
  | .string _ => 4
  | .bytes _ => 5

def Value.numeric : Value → Option Double
  | .int64 n => some (Double.ofInt n.toInt)
  | .uint64 n => some (Double.ofInt n.toNat)
  | .double x => some x
  | _ => none

def dataTypeSize : DataType → UInt64
  | .int8 => 1
  | .int16 => 2
  | .int32 => 4
  | .int64 => 8
  | .uint8 => 1
  | .uint16 => 2
  | .uint32 => 4
  | .uint64 => 8
  | .float32 => 4
  | .float64 => 8
  | .bitfield => 0
  | .string => 0
  | .bytes => 0

def isSigned : DataType → Bool
  | .int8 | .int16 | .int32 | .int64 => true
  | _ => false

def isUnsigned : DataType → Bool
  | .uint8 | .uint16 | .uint32 | .uint64 => true
  | _ => false

def isInteger (type : DataType) : Bool := isSigned type || isUnsigned type

def isFloat (type : DataType) : Bool := type == .float32 || type == .float64

def isNumeric (type : DataType) : Bool := isInteger type || isFloat type

def dataTypeToString : DataType → String
  | .int8 => "int8"
  | .int16 => "int16"
  | .int32 => "int32"
  | .int64 => "int64"
  | .uint8 => "uint8"
  | .uint16 => "uint16"
  | .uint32 => "uint32"
  | .uint64 => "uint64"
  | .float32 => "float32"
  | .float64 => "float64"
  | .bitfield => "bitfield"
  | .string => "string"
  | .bytes => "bytes"

/-- The payload of `core::Result` in the error case.  `core/Result.h` is not in the
repository: both types are read off their uses. -/
structure Error where
  message : String
  deriving DecidableEq, Repr

abbrev Result (α : Type) := Except Error α

inductive Endian
  | little | big
  deriving DecidableEq, Repr

/-- What the language leaves to the machine: its byte order, and the outcome of
shifting a 64-bit word by 64 or more. -/
structure Host where
  native : Endian
  wideShift : UInt64 → UInt8 → UInt64

def Host.shiftRight (host : Host) (word : UInt64) (bit : UInt8) : UInt64 :=
  if bit < 64 then word >>> bit.toUInt64 else host.wideShift word bit

/-- On both machines below the count of a shift is taken modulo 64. -/
def Host.x86 : Host where
  native := .little
  wideShift word bit := word >>> bit.toUInt64

def Host.s390x : Host where
  native := .big
  wideShift word bit := word >>> bit.toUInt64

/-- `std::vector` and `std::string` throw when asked for more elements. -/
def maxLength : Nat := 2 ^ 63 - 1

end IONet.Core
