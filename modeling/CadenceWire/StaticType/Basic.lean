import CadenceWire.StaticType.Simple

/-!
Static types. Declared types are known by the kind and the qualified identifier of their
declaration; a type may also be known by an identifier alone.
-/
namespace CadenceWire

inductive DeclarationKind where
  | struct | resource | event | contract | enum | attachment
  | structInterface | resourceInterface | contractInterface
deriving DecidableEq, Repr

namespace DeclarationKind

def all : List DeclarationKind :=
  [struct, resource, event, contract, enum, attachment,
    structInterface, resourceInterface, contractInterface]

def name : DeclarationKind → String
  | struct => "Struct"
  | resource => "Resource"
  | event => "Event"
  | contract => "Contract"
  | enum => "Enum"
  | attachment => "Attachment"
  | structInterface => "StructInterface"
  | resourceInterface => "ResourceInterface"
  | contractInterface => "ContractInterface"

def ofName? (name : String) : Option DeclarationKind := all.find? (·.name = name)

theorem ofName?_name (kind : DeclarationKind) : ofName? kind.name = some kind := by
  cases kind <;> decide

def isInterface : DeclarationKind → Bool
  | structInterface | resourceInterface | contractInterface => true
  | _ => false

end DeclarationKind

structure NominalType where
  kind : DeclarationKind
  id : String
deriving DecidableEq, Repr

/-- What a reference entitles to. -/
inductive Authorization where
  | unauthorized
  | legacy
  | conjunction (entitlements : List String)
  | disjunction (entitlements : List String)
  | mapping (entitlementMap : String)
deriving DecidableEq, Repr

mutual

inductive StaticType where
  | simple (type : SimpleType)
  | optional (content : StaticType)
  | variableArray (element : StaticType)
  | constantArray (size : UInt64) (element : StaticType)
  | dictionary (key value : StaticType)
  | reference (authorization : Authorization) (referenced : StaticType)
  | intersection (types : List StaticType)
  /-- A base type restricted to interfaces, which intersections replaced. -/
  | restricted (base : StaticType) (types : List StaticType)
  /-- A capability that says nothing of what is borrowed. -/
  | capability
  | capabilityOf (borrowed : StaticType)
  | inclusiveRange (element : StaticType)
  | nominal (type : NominalType)
  | function (signature : FunctionType)
  | unstructured (id : String)

inductive FunctionType where
  | signature (isView : Bool) (typeParameters : List TypeParameter) (parameters : List Parameter)
      (result : StaticType)

inductive TypeParameter where
  | named (name : String) (bound : Option StaticType)

inductive Parameter where
  | labelled (label identifier : String) (type : StaticType)

end

end CadenceWire
