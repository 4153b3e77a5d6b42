import CadenceWire.Ccf.InlineType

/-!
The type definitions of a message. All of them are declared before any is laid out, so that the
types of fields may be defined further on.
-/
namespace CadenceWire.Ccf

open Cbor (Item)

/-- The kind of declaration that a tag of a type definition stands for. -/
def definedKind? : Nat → Option DeclarationKind
  | 160 => some .struct
  | 161 => some .resource
  | 162 => some .event
  | 163 => some .contract
  | 164 => some .enum
  | 165 => some .attachment
  | 176 => some .structInterface
  | 177 => some .resourceInterface
  | 178 => some .contractInterface
  | _ => none

/-- A definition of which only the identifiers have been read. -/
structure Declaration where
  id : List UInt8
  type : NominalType
  body : List Item

def declaration : Item → Except Failure Declaration
  | .tag number content => do
    let some kind := definedKind? number | throw (.unexpectedTag number "typedef")
    match content with
    | .array (id :: name :: body) => do
      let id ← bytes "typedef id" id
      return ⟨id, ⟨kind, ← text "typedef qualified id" name⟩, body⟩
    | .array items => throw (.arityMismatch "typedef" "at least 2" items.length)
    | _ => throw (misfit "array" "typedef" content)
  | item => .error (notTagged "typedef" item)

def tableOf (declarations : List Declaration) : TypeTable :=
  declarations.map fun d => (d.id, d.type)

/-- Reads declarations behind those given, whose identifiers are taken. -/
def declarations (taken : List Declaration) : List Item → Except Failure (List Declaration)
  | [] => .ok taken
  | item :: rest => do
    let next ← declaration item
    if taken.any (·.id = next.id) then throw (.duplicateTypeDefinition next.id)
    declarations (taken ++ [next]) rest

/-- The fields of a composite in the order in which its values come. -/
structure Layout where
  type : NominalType
  fields : List (String × StaticType)

def layoutField (table : TypeTable) : Item → Except Failure (String × StaticType)
  | .array [name, type] => do
    let name ← text "field name" name
    return (name, ← inlineType table type)
  | item => .error (miscount 2 "typedef field" item)

/-- The layout that a declaration goes on to give. Interfaces have none; an attachment may name the
type it attaches to first. -/
def layout? (table : TypeTable) (d : Declaration) : Except Failure (Option Layout) := do
  let fieldsOf (list : Item) : Except Failure (Option Layout) := do
    let fields ← (← array "typedef fields" list).mapM (layoutField table)
    return some ⟨d.type, fields⟩
  match d.type.kind, d.body with
  | .attachment, [base, fields] => do
    let _ ← inlineType table base
    fieldsOf fields
  | kind, [] =>
    if kind.isInterface then return none else throw (.arityMismatch "typedef" "3" 2)
  | kind, [fields] =>
    if kind.isInterface then throw (.arityMismatch "typedef" "2" 3) else fieldsOf fields
  | kind, body =>
    throw (.arityMismatch "typedef" (if kind.isInterface then "2" else "3") (body.length + 2))

/-- What a message defines. Of several layouts of one name the last is meant. -/
structure Definitions where
  table : TypeTable
  layouts : List Layout

namespace Definitions

def empty : Definitions := ⟨[], []⟩

def layout? (definitions : Definitions) (name : String) : Option Layout :=
  definitions.layouts.reverse.find? (·.type.id = name)

def read (item : Item) : Except Failure Definitions := do
  let declarations ← declarations [] (← array "typedefs" item)
  let table := tableOf declarations
  let layouts ← declarations.mapM (Ccf.layout? table)
  return ⟨table, layouts.filterMap id⟩

end Definitions

end CadenceWire.Ccf
