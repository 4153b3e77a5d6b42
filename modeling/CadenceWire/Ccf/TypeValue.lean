import CadenceWire.Ccf.InlineType

/-!
Types that are values. A declared type is written out where it comes first, which gives it an
identifier for the rest of the message.
-/
namespace CadenceWire.Ccf

open Cbor (Item)

/-- Identifiers given so far, the latest first. -/
abbrev Bound := List (List UInt8 × NominalType)

/-- Reads with the identifiers given so far at hand. -/
abbrev Reading := StateT Bound (Except Failure)

def TypeForm.ofValueTag? : Nat → Option TypeForm
  | 184 => some known
  | 185 => some simple
  | 186 => some optional
  | 187 => some variableArray
  | 188 => some constantArray
  | 189 => some dictionary
  | 190 => some reference
  | 191 => some intersection
  | 192 => some capability
  | 194 => some inclusiveRange
  | _ => none

def functionTag : Nat := 193

/-- The kind of declaration that a tag of a type written out stands for. -/
def writtenKind? : Nat → Option DeclarationKind
  | 208 => some .struct
  | 209 => some .resource
  | 210 => some .event
  | 211 => some .contract
  | 212 => some .enum
  | 213 => some .attachment
  | 224 => some .structInterface
  | 225 => some .resourceInterface
  | 226 => some .contractInterface
  | _ => none

def boundType (item : Item) : Reading StaticType := do
  let id ← bytes "type value reference" item
  match (← get).lookup id with
  | some type => return .nominal type
  | none => throw (.unknownTypeReference id)

/-- Only a purity of one is that of a view. -/
def isView : List Item → Except Failure Bool
  | [purity] => return (← unsigned "function purity" purity) == 1
  | _ => return false

/-- A type within another must be known. -/
def required (type : Reading (Option StaticType)) : Reading StaticType := do
  match ← type with
  | some type => return type
  | none => throw (.unexpectedItem "type value" "nested type value" "null")

mutual

/-- The type is unknown if the item is null. -/
def typeValue : Item → Reading (Option StaticType)
  | .null => return none
  | .tag number body => some <$>
    match TypeForm.ofValueTag? number with
    | some .known => boundType body
    | some .simple => .simple <$> (simpleType body : Reading SimpleType)
    | some .optional => .optional <$> required (typeValue body)
    | some .variableArray => .variableArray <$> required (typeValue body)
    | some .constantArray =>
      match body with
      | .array [size, element] => do
        let size ← arraySize size
        return .constantArray size (← required (typeValue element))
      | _ => throw (miscount 2 "constant-sized array type value" body)
    | some .dictionary =>
      match body with
      | .array [key, value] => do
        let key ← required (typeValue key)
        return .dictionary key (← required (typeValue value))
      | _ => throw (miscount 2 "dictionary type value" body)
    | some .reference =>
      match body with
      | .array [granted, referenced] => do
        let authorization ← authorization granted
        return .reference authorization (← required (typeValue referenced))
      | _ => throw (miscount 2 "reference type value" body)
    | some .intersection =>
      match body with
      | .array [.null, .array types] => .intersection <$> knownTypes types
      | .array [base, .array types] => do
        let base ← required (typeValue base)
        return .restricted base (← knownTypes types)
      | .array types => .intersection <$> knownTypes types
      | _ => throw (misfit "array" "intersection type" body)
    | some .capability => do
      match ← typeValue body with
      | some borrowed => return .capabilityOf borrowed
      | none => return .capability
    | some .inclusiveRange => .inclusiveRange <$> required (typeValue body)
    | none =>
      if number = functionTag then .function <$> functionType body
      else
        match writtenKind? number with
        | none => throw (.unexpectedTag number "type value")
        | some kind =>
          match body with
          | .array [id, name, _, fields, _] => do
            let id ← bytes "type value id" id
            let type : NominalType := ⟨kind, ← text "type value qualified id" name⟩
            modify ((id, type) :: ·)
            match fields with
            | .array fields => writtenFields fields
            | _ => throw (misfit "array" "type value fields" fields)
            return .nominal type
          | _ => throw (miscount 5 "composite type value" body)
  | item => throw (notTagged "type value" item)

def knownTypes : List Item → Reading (List StaticType)
  | [] => return []
  | item :: rest => do
    let type ← required (typeValue item)
    return type :: (← knownTypes rest)

/-- The fields of a type written out, read for the sake of the types written out in them. -/
def writtenFields : List Item → Reading Unit
  | [] => return ()
  | .array [name, type] :: rest => do
    let _ ← text "field name" name
    let _ ← required (typeValue type)
    writtenFields rest
  | item :: _ => throw (miscount 2 "type value field" item)

def functionType : Item → Reading FunctionType
  | .array (typeParameterList :: parameterList :: result :: purity) => do
    if 1 < purity.length then throw (.arityMismatch "function type" "3 or 4" (purity.length + 3))
    let typeParameters ← match typeParameterList with
      | .array items => typeParameters items
      | item => throw (misfit "array" "type parameters" item)
    let parameters ← match parameterList with
      | .array items => parameters items
      | item => throw (misfit "array" "parameters" item)
    let isView ← isView purity
    return .signature isView typeParameters parameters (← required (typeValue result))
  | .array items => throw (.arityMismatch "function type" "3 or 4" items.length)
  | item => throw (misfit "array" "function type" item)

def typeParameters : List Item → Reading (List TypeParameter)
  | [] => return []
  | .array [name, bound] :: rest => do
    let name ← text "type parameter name" name
    let bound ← typeValue bound
    return .named name bound :: (← typeParameters rest)
  | item :: _ => throw (miscount 2 "type parameter" item)

def parameters : List Item → Reading (List Parameter)
  | [] => return []
  | .array [label, identifier, type] :: rest => do
    let label ← text "parameter label" label
    let identifier ← text "parameter identifier" identifier
    let type ← required (typeValue type)
    return .labelled label identifier type :: (← parameters rest)
  | item :: _ => throw (miscount 3 "parameter" item)

end

end CadenceWire.Ccf
