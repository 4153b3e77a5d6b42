import CadenceWire.Account
import CadenceWire.Numeric.FixedPoint
import CadenceWire.Numeric.Integer

/-!
The types named by a single word, sorted by what a value of the type is. Each has an identifier and
a number that stands for it in the compact format.
-/
namespace CadenceWire

/-- A type whose values carry their own type with them. -/
inductive AbstractType where
  | path | capabilityPath
  | any | anyStruct | anyResource
  | number | signedNumber | integer | signedInteger | fixedPoint | signedFixedPoint
  | anyStructAttachment | anyResourceAttachment
deriving DecidableEq, Repr

namespace AbstractType

def all : List AbstractType :=
  [path, capabilityPath, any, anyStruct, anyResource, number, signedNumber, integer, signedInteger,
    fixedPoint, signedFixedPoint, anyStructAttachment, anyResourceAttachment]

def id : AbstractType → String
  | path => "Path"
  | capabilityPath => "CapabilityPath"
  | any => "Any"
  | anyStruct => "AnyStruct"
  | anyResource => "AnyResource"
  | number => "Number"
  | signedNumber => "SignedNumber"
  | integer => "Integer"
  | signedInteger => "SignedInteger"
  | fixedPoint => "FixedPoint"
  | signedFixedPoint => "SignedFixedPoint"
  | anyStructAttachment => "AnyStructAttachment"
  | anyResourceAttachment => "AnyResourceAttachment"

def code : AbstractType → Nat
  | path => 24
  | capabilityPath => 25
  | any => 38
  | anyStruct => 39
  | anyResource => 40
  | number => 43
  | signedNumber => 44
  | integer => 45
  | signedInteger => 46
  | fixedPoint => 47
  | signedFixedPoint => 48
  | anyStructAttachment => 54
  | anyResourceAttachment => 55

end AbstractType

/-- A type whose values never travel. -/
inductive ResidentType where
  | deployedContract | block | never | storageCapabilityController | accountCapabilityController
deriving DecidableEq, Repr

namespace ResidentType

def all : List ResidentType :=
  [deployedContract, block, never, storageCapabilityController, accountCapabilityController]

def id : ResidentType → String
  | deployedContract => "DeployedContract"
  | block => "Block"
  | never => "Never"
  | storageCapabilityController => "StorageCapabilityController"
  | accountCapabilityController => "AccountCapabilityController"

def code : ResidentType → Nat
  | deployedContract => 35
  | block => 37
  | never => 42
  | storageCapabilityController => 56
  | accountCapabilityController => 57

end ResidentType

inductive SimpleType where
  | void | bool | string | character | bytes | address
  | metaType | function
  | integer (kind : IntegerKind)
  | fixedPoint (kind : FixedPointKind)
  | path (domain : PathDomain)
  | abstract (type : AbstractType)
  | resident (type : ResidentType)
deriving DecidableEq, Repr

namespace SimpleType

def all : List SimpleType :=
  [void, bool, string, character, bytes, address, metaType, function]
    ++ IntegerKind.all.map integer ++ FixedPointKind.all.map fixedPoint
    ++ PathDomain.all.map path ++ AbstractType.all.map .abstract ++ ResidentType.all.map resident

def id : SimpleType → String
  | void => "Void"
  | bool => "Bool"
  | string => "String"
  | character => "Character"
  | bytes => "Bytes"
  | address => "Address"
  | metaType => "Type"
  | function => "Function"
  | integer kind => kind.name
  | fixedPoint kind => kind.name
  | path .storageDomain => "StoragePath"
  | path .privateDomain => "PrivatePath"
  | path .publicDomain => "PublicPath"
  | .abstract type => type.id
  | resident type => type.id

/-- Widths of the first three word kinds were numbered before the two widest. -/
def integerCode : IntegerKind → Nat
  | .int => 4
  | .intOf .w8 => 5 | .intOf .w16 => 6 | .intOf .w32 => 7
  | .intOf .w64 => 8 | .intOf .w128 => 9 | .intOf .w256 => 10
  | .uint => 11
  | .uintOf .w8 => 12 | .uintOf .w16 => 13 | .uintOf .w32 => 14
  | .uintOf .w64 => 15 | .uintOf .w128 => 16 | .uintOf .w256 => 17
  | .wordOf .w8 => 18 | .wordOf .w16 => 19 | .wordOf .w32 => 20
  | .wordOf .w64 => 21 | .wordOf .w128 => 52 | .wordOf .w256 => 53

def code : SimpleType → Nat
  | bool => 0
  | string => 1
  | character => 2
  | address => 3
  | integer kind => integerCode kind
  | fixedPoint .fix64 => 22
  | fixedPoint .ufix64 => 23
  | path .storageDomain => 26
  | path .publicDomain => 27
  | path .privateDomain => 28
  | metaType => 41
  | bytes => 49
  | void => 50
  | function => 51
  | .abstract type => type.code
  | resident type => type.code

def isAbstract : SimpleType → Bool
  | .abstract _ => true
  | _ => false

def ofId? (id : String) : Option SimpleType := all.find? (·.id = id)

def ofCode? (code : Nat) : Option SimpleType := all.find? (·.code = code)

theorem mem_all (type : SimpleType) : type ∈ all := by
  rcases type with _ | _ | _ | _ | _ | _ | _ | _ | kind | kind | domain | type | type <;>
    first
    | decide
    | (cases kind <;> first | decide | (rename_i width; cases width <;> decide))
    | (cases domain <;> decide)
    | (cases type <;> decide)

theorem ofId?_id (type : SimpleType) : ofId? type.id = some type := by
  have unique : ∀ type ∈ all, ofId? type.id = some type := by decide
  exact unique type (mem_all type)

theorem ofCode?_code (type : SimpleType) : ofCode? type.code = some type := by
  have unique : ∀ type ∈ all, ofCode? type.code = some type := by decide
  exact unique type (mem_all type)

end SimpleType

end CadenceWire
