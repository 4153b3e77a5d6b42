import CadenceWire.Account
import CadenceWire.StaticType.Basic
import CadenceWire.Value.Kind

/-!
Values. The fields of a composite are named in place, so that there is exactly one value a name.
-/
namespace CadenceWire

structure Capability where
  id : UInt64
  address : Address
  borrowType : Option StaticType
  /-- What a capability of the older form points at; such a one has the id zero. -/
  path : Option Path

/-- The name of a field, with its type if the encoding gives one. -/
structure Field where
  name : String
  type : Option StaticType

inductive Value where
  | void
  | nil
  | present (content : Value)
  | bool (b : Bool)
  | string (s : String)
  /-- One character as the language sees it, which may be several code points. -/
  | character (s : String)
  | bytes (bytes : List UInt8)
  | address (address : Address)
  | integer (n : Integer)
  | fixedPoint (n : FixedPoint)
  | array (elements : List Value)
  /-- Entries in the order of the encoding; keys may repeat. -/
  | dictionary (entries : List (Value × Value))
  | composite (type : NominalType) (fields : List (Field × Value))
  | path (path : Path)
  | capability (capability : Capability)
  /-- A type as a value, which may be unknown. -/
  | type (type : Option StaticType)
  /-- A function, of which only the type is known. -/
  | function (type : FunctionType)
  | range (start stop step : Value)

namespace Value

def kind : Value → ValueKind
  | void => .void
  | nil | present _ => .optional
  | bool _ => .bool
  | string _ => .string
  | character _ => .character
  | bytes _ => .bytes
  | address _ => .address
  | integer n => .integer n.kind
  | fixedPoint n => .fixedPoint n.kind
  | array _ => .array
  | dictionary _ => .dictionary
  | composite declared _ => .composite declared.kind
  | path _ => .path
  | capability _ => .capability
  | type _ => .type
  | function _ => .function
  | range .. => .inclusiveRange

end Value

/-- The value of the first field of a name. -/
def Field.find? (fields : List (Field × Value)) (name : String) : Option Value :=
  (fields.find? (·.1.name = name)).map (·.2)

/-- The place of the first field of a name. -/
def Field.position? (fields : List (Field × Value)) (name : String) : Option Nat :=
  fields.findIdx? (·.1.name = name)

end CadenceWire
