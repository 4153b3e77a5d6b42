import CadenceWire.Json.Reader
import CadenceWire.JsonCdc.Scalar
import CadenceWire.JsonCdc.StaticType
import CadenceWire.Value.Basic

/-!
Values in JSON-CDC: an object names the kind of the value and holds what makes it up.
-/
namespace CadenceWire.JsonCdc

/-- Kinds of values that hold neither values nor types. -/
def scalar? (options : Options) (kind : ValueKind) (json : Json) : Option (Except Failure Value) :=
  match kind with
  | .bool => some <|
    match json.bool? with
    | some b => .ok (.bool b)
    | none => .error (.unexpectedShape "boolean" "Bool")
  | .string => some (.string <$> string "String" json)
  | .character => some (.character <$> string "Character" json)
  | .address => some (.address <$> address options json)
  | .integer kind => some (.integer <$> integer options kind json)
  | .fixedPoint kind => some (.fixedPoint <$> fixedPoint options kind json)
  | .path => some (.path <$> path json)
  | _ => none

def typeValue (options : Options) (json : Json) : Reading Value := do
  let ⟨members, _⟩ ← object "Type" json
  return .type (← statedType options members "staticType")

def functionValue (options : Options) (json : Json) : Reading Value := do
  let ⟨members, _⟩ ← object "Function" json
  match ← staticType options (← member members "functionType" "Function").val with
  | .function signature => return .function signature
  | other => throw (.expectedFunctionType other.id)

mutual

def value (options : Options) (json : Json) : Reading Value := do
  let ⟨members, _⟩ ← object "value" json
  let name ← textMember members "type" "value"
  if name = ValueKind.void.name then return .void
  let ⟨payload, _⟩ ← member members "value" "value"
  match ValueKind.ofName? name with
  | none => throw (.unknownValueKind name)
  | some .optional =>
    match payload with
    | .null => return .nil
    | _ => return .present (← value options payload)
  | some .array =>
    let ⟨items, _⟩ ← array "Array" payload
    return .array (← values options items)
  | some .dictionary =>
    let ⟨items, _⟩ ← array "Dictionary" payload
    return .dictionary (← entries options items)
  | some (.composite kind) =>
    if kind.isInterface then throw (.unknownValueKind name)
    else composite options kind payload
  | some .capability => capability options payload
  | some .type => typeValue options payload
  | some .function => functionValue options payload
  | some .inclusiveRange => range options payload
  | some kind =>
    match scalar? options kind payload with
    | some read => read
    | none => throw (.unknownValueKind name)
termination_by 2 * sizeOf json
decreasing_by all_goals omega

def values (options : Options) : List Json → Reading (List Value)
  | [] => return []
  | item :: rest => do
    let first ← value options item
    return first :: (← values options rest)
termination_by items => 2 * sizeOf items
decreasing_by all_goals simp only [List.cons.sizeOf_spec]; omega

/-- The value that a member must hold. -/
def memberValue (options : Options) (members : Json.Members) (name context : String) :
    Reading Value := do
  let ⟨json, _⟩ ← member members name context
  value options json
termination_by 2 * sizeOf members
decreasing_by all_goals omega

def entries (options : Options) : List Json → Reading (List (Value × Value))
  | [] => return []
  | item :: rest => do
    let ⟨members, _⟩ ← object "Dictionary entry" item
    let key ← memberValue options members "key" "Dictionary entry"
    let value ← memberValue options members "value" "Dictionary entry"
    return (key, value) :: (← entries options rest)
termination_by items => 2 * sizeOf items
decreasing_by all_goals simp only [List.cons.sizeOf_spec]; omega

def composite (options : Options) (kind : DeclarationKind) (json : Json) : Reading Value := do
  let ⟨members, _⟩ ← object kind.name json
  let id ← textMember members "id" kind.name
  let ⟨list, _⟩ ← member members "fields" kind.name
  let ⟨items, _⟩ ← array "composite fields" list
  return .composite ⟨kind, id⟩ (← fields options items)
termination_by 2 * sizeOf json
decreasing_by all_goals omega

def fields (options : Options) : List Json → Reading (List (Field × Value))
  | [] => return []
  | item :: rest => do
    let ⟨members, _⟩ ← object "composite field" item
    let name ← textMember members "name" "composite field"
    let value ← memberValue options members "value" "composite field"
    return (⟨name, none⟩, value) :: (← fields options rest)
termination_by items => 2 * sizeOf items
decreasing_by all_goals simp only [List.cons.sizeOf_spec]; omega

def capability (options : Options) (json : Json) : Reading Value := do
  let ⟨members, _⟩ ← object "Capability" json
  let (id, path) ← capabilityTarget options members
  let address ← address options (← member members "address" "Capability").val
  let borrowType ← statedType options members "borrowType"
  return .capability ⟨id, address, borrowType, path⟩
termination_by 2 * sizeOf json
decreasing_by all_goals omega

/-- What a capability is known by: an identifier, or in the older form a path, of which the
identifier takes precedence. -/
def capabilityTarget (options : Options) (members : Json.Members) :
    Reading (UInt64 × Option Path) := do
  match members.part? "path" with
  | some ⟨json, _⟩ =>
    if options.olderForms && !members.has "id" then
      match ← value options json with
      | .path path => return (0, some path)
      | _ => throw (.unexpectedShape "Path value" "Capability path")
    else return (← capabilityId options members, none)
  | none => return (← capabilityId options members, none)
termination_by 2 * sizeOf members
decreasing_by all_goals omega
where
  capabilityId (options : Options) (members : Json.Members) : Except Failure UInt64 := do
    let id ← integer options (.uintOf .w64) (← member members "id" "Capability").val
    return UInt64.ofNat id.value.toNat

def range (options : Options) (json : Json) : Reading Value := do
  let ⟨members, _⟩ ← object "InclusiveRange" json
  let start ← memberValue options members "start" "InclusiveRange"
  let stop ← memberValue options members "end" "InclusiveRange"
  let step ← memberValue options members "step" "InclusiveRange"
  return .range start stop step
termination_by 2 * sizeOf json
decreasing_by all_goals omega

end

/-- The value of a payload, given the text of which it consists. -/
def decode (options : Options) (payload : List UInt8) : Except Failure Value :=
  match Json.ofBytes? payload with
  | none => .error .malformed
  | some json => (value options json).run' []

end CadenceWire.JsonCdc
