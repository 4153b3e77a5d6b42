import CadenceWire.Ccf.Part
import CadenceWire.StaticType.Basic

/-!
Inline types, which say how the items of a message are to be read. A declared type stands in them
by the identifier that the message gives it.
-/
namespace CadenceWire.Ccf

open Cbor (Item)

/-- The forms of types. Each has one tag as an inline type and another as a type that is a value. -/
inductive TypeForm where
  | known | simple | optional | variableArray | constantArray | dictionary | reference
  | intersection | capability | inclusiveRange
deriving DecidableEq, Repr

def TypeForm.ofInlineTag? : Nat → Option TypeForm
  | 136 => some known
  | 137 => some simple
  | 138 => some optional
  | 139 => some variableArray
  | 140 => some constantArray
  | 141 => some dictionary
  | 142 => some reference
  | 143 => some intersection
  | 144 => some capability
  | 145 => some inclusiveRange
  | _ => none

def simpleType (item : Item) : Except Failure SimpleType := do
  let code ← unsigned "simple type id" item
  match SimpleType.ofCode? code with
  | some type => return type
  | none => throw (.unknownSimpleType code)

def arraySize (item : Item) : Except Failure UInt64 := do
  return UInt64.ofNat (← unsigned "array size" item)

/-- What a reference entitles to. The older forms are truth values, and null. -/
def authorization : Item → Except Failure Authorization
  | .null | .bool false => .ok .unauthorized
  | .bool true => .ok .legacy
  | .tag 146 (.array [kind, list]) => do
    let entitlements ← (← array "entitlements" list).mapM (text "entitlement")
    match ← unsigned "entitlement set kind" kind with
    | 0 => return .conjunction entitlements
    | 1 => return .disjunction entitlements
    | _ => throw (.unexpectedItem "0 or 1" "entitlement set kind" "uint")
  | .tag 146 body => .error (miscount 2 "entitlement set authorization" body)
  | .tag 147 (.array [entitlementMap]) => .mapping <$> text "entitlement map" entitlementMap
  | .tag 147 entitlementMap => .mapping <$> text "entitlement map" entitlementMap
  | .tag number _ => .error (.unexpectedTag number "authorization")
  | item => .error (misfit "authorization" "reference type" item)

/-- The types a message defines, by the identifiers it gives them. -/
abbrev TypeTable := List (List UInt8 × NominalType)

mutual

def inlineType (table : TypeTable) : Item → Except Failure StaticType
  | .tag number body =>
    match TypeForm.ofInlineTag? number with
    | some .known => do
      let id ← bytes "type reference" body
      match table.lookup id with
      | some type => return .nominal type
      | none => throw (.unknownTypeReference id)
    | some .simple => .simple <$> simpleType body
    | some .optional => .optional <$> inlineType table body
    | some .variableArray => .variableArray <$> inlineType table body
    | some .constantArray =>
      match body with
      | .array [size, element] => do
        let size ← arraySize size
        return .constantArray size (← inlineType table element)
      | _ => .error (miscount 2 "constant-sized array type" body)
    | some .dictionary =>
      match body with
      | .array [key, value] => do
        let key ← inlineType table key
        return .dictionary key (← inlineType table value)
      | _ => .error (miscount 2 "dictionary type" body)
    | some .reference =>
      match body with
      | .array [granted, referenced] => do
        let authorization ← authorization granted
        return .reference authorization (← inlineType table referenced)
      | _ => .error (miscount 2 "reference type" body)
    | some .intersection =>
      match body with
      | .array [.null, .array types] => .intersection <$> inlineTypes table types
      | .array [base, .array types] => do
        let types ← inlineTypes table types
        return .restricted (← inlineType table base) types
      | .array types => .intersection <$> inlineTypes table types
      | _ => .error (misfit "array" "intersection type" body)
    | some .capability =>
      match body with
      | .null => .ok .capability
      | _ => .capabilityOf <$> inlineType table body
    | some .inclusiveRange => .inclusiveRange <$> inlineType table body
    | none => .error (.unexpectedTag number "inline type")
  | item => .error (notTagged "inline type" item)

def inlineTypes (table : TypeTable) : List Item → Except Failure (List StaticType)
  | [] => .ok []
  | item :: rest => do
    let type ← inlineType table item
    return type :: (← inlineTypes table rest)

end

end CadenceWire.Ccf
