import CadenceWire.Numeric.FixedPoint
import CadenceWire.Numeric.Integer
import CadenceWire.StaticType.Basic

/-!
Kinds of values. A composite is of the kind of its declaration.
-/
namespace CadenceWire

inductive ValueKind where
  | void | optional | bool | string | character | bytes | address
  | integer (kind : IntegerKind)
  | fixedPoint (kind : FixedPointKind)
  | array | dictionary
  | composite (kind : DeclarationKind)
  | path | capability | type | function | inclusiveRange
deriving DecidableEq, Repr

namespace ValueKind

def all : List ValueKind :=
  [void, optional, bool, string, character, bytes, address]
    ++ IntegerKind.all.map integer ++ FixedPointKind.all.map fixedPoint
    ++ [array, dictionary] ++ DeclarationKind.all.map composite
    ++ [path, capability, type, function, inclusiveRange]

def name : ValueKind → String
  | void => "Void"
  | optional => "Optional"
  | bool => "Bool"
  | string => "String"
  | character => "Character"
  | bytes => "Bytes"
  | address => "Address"
  | integer kind => kind.name
  | fixedPoint kind => kind.name
  | array => "Array"
  | dictionary => "Dictionary"
  | composite kind => kind.name
  | path => "Path"
  | capability => "Capability"
  | type => "Type"
  | function => "Function"
  | inclusiveRange => "InclusiveRange"

def ofName? (name : String) : Option ValueKind := all.find? (·.name = name)

theorem mem_all (kind : ValueKind) : kind ∈ all := by
  rcases kind with _ | _ | _ | _ | _ | _ | _ | kind | kind | _ | _ | kind | _ | _ | _ | _ | _ <;>
    first
    | decide
    | (cases kind <;> first | decide | (rename_i width; cases width <;> decide))

theorem ofName?_name (kind : ValueKind) : ofName? kind.name = some kind := by
  have unique : ∀ kind ∈ all, ofName? kind.name = some kind := by decide
  exact unique kind (mem_all kind)

end ValueKind

end CadenceWire
