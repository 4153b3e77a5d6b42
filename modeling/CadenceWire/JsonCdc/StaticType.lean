import CadenceWire.JsonCdc.Part
import CadenceWire.StaticType.Identifier

/-!
Static types in JSON-CDC. A declared type is written out once; from then on its identifier may stand
for it, so a reader keeps the declared types it has seen.
-/
namespace CadenceWire.JsonCdc

/-- What has been seen so far: types beside the identifiers they were declared with, the latest
first. -/
abbrev Seen := List (String × StaticType)

/-- Reads with the declared types seen so far at hand. -/
abbrev Reading := StateT Seen (Except Failure)

/-- The type that was declared last with an identifier. -/
def Seen.find? (seen : Seen) (id : String) : Option StaticType := seen.lookup id

/-- The forms of types other than those named by a single word. -/
inductive TypeForm where
  | optional | variableArray | constantArray | dictionary | reference
  | intersection | restriction | capability | inclusiveRange | function
deriving DecidableEq, Repr

/-- The kinds that these forms are written as. -/
def TypeForm.names : List (String × TypeForm) := [
  ("Optional", optional), ("VariableSizedArray", variableArray),
  ("ConstantSizedArray", constantArray), ("Dictionary", dictionary), ("Reference", reference),
  ("Intersection", intersection), ("Restriction", restriction), ("Restricted", restriction),
  ("Capability", capability), ("InclusiveRange", inclusiveRange), ("Function", function)]

/-- An identifier alone: a type seen before, or else one of which nothing more is known. -/
def typeReference (options : Options) (id : String) : Reading StaticType := do
  match (← get).find? id with
  | some type => return type
  | none => if options.unresolvedTypes then return .unstructured id
            else throw (.unknownTypeReference id)

def entitlements (authorization : Json.Members) : Except Failure (List String) := do
  let ⟨items, _⟩ ← array "entitlements" (← member authorization "entitlements" "authorization").val
  items.mapM fun item => do
    textMember (← object "entitlement" item).val "typeID" "entitlement"

/-- What a reference entitles to. In the older form it says whether it is authorized, which comes
before anything else it says. -/
def authorization (options : Options) (reference : Json.Members) :
    Except Failure Authorization := do
  match options.olderForms, (reference.last? "authorized").bind Json.bool? with
  | true, some true => return .legacy
  | true, some false => return .unauthorized
  | _, _ =>
    match reference.last? "authorization" with
    | none | some .null => return .unauthorized
    | some json =>
      let ⟨members, _⟩ ← object "authorization" json
      match ← textMember members "kind" "authorization" with
      | "Unauthorized" => return .unauthorized
      | "EntitlementConjunctionSet" => return .conjunction (← entitlements members)
      | "EntitlementDisjunctionSet" => return .disjunction (← entitlements members)
      | "EntitlementMapAuthorization" =>
        match (← entitlements members).getLast? with
        | some entitlementMap => return .mapping entitlementMap
        | none => throw (.unexpectedShape "one entitlement map" "authorization")
      | kind => throw (.unknownTypeKind kind)

def arraySize (members : Json.Members) : Except Failure UInt64 := do
  match (← member members "size" "ConstantSizedArray").val.unsigned64? with
  | some size => return size
  | none => throw (.unexpectedShape "unsigned integer" "ConstantSizedArray size")

mutual

def staticType (options : Options) (json : Json) : Reading StaticType :=
  match json.text? with
  | some id => typeReference options id
  | none => do
    let ⟨members, _⟩ ← object "static type" json
    let kind ← textMember members "kind" "static type"
    match TypeForm.names.lookup kind with
    | some .optional => return .optional (← memberType options members "type")
    | some .variableArray => return .variableArray (← memberType options members "type")
    | some .constantArray =>
      let size ← arraySize members
      return .constantArray size (← memberType options members "type")
    | some .dictionary =>
      let key ← memberType options members "key"
      return .dictionary key (← memberType options members "value")
    | some .reference =>
      let authorization ← authorization options members
      return .reference authorization (← memberType options members "type")
    | some .intersection => return .intersection (← memberTypes options members "types")
    | some .restriction =>
      if options.olderForms then
        match ← statedType options members "type" with
        | some base => return .restricted base (← memberTypes options members "restrictions")
        | none => return .intersection (← memberTypes options members "restrictions")
      else throw (.unknownTypeKind kind)
    | some .capability =>
      match ← statedType options members "type" with
      | some borrowed => return .capabilityOf borrowed
      | none => return .capability
    | some .inclusiveRange => return .inclusiveRange (← memberType options members "element")
    | some .function =>
      if members.has "return" then return .function (← functionType options members)
      else return .simple .function
    | none =>
      match DeclarationKind.ofName? kind, SimpleType.ofId? kind with
      | some kind, _ => return .nominal (← nominalType options kind members)
      | none, some simple => return .simple simple
      | none, none => throw (.unknownTypeKind kind)
termination_by 2 * sizeOf json
decreasing_by all_goals omega

/-- The type that a member must hold. -/
def memberType (options : Options) (members : Json.Members) (name : String) :
    Reading StaticType := do
  let ⟨json, _⟩ ← member members name "static type"
  staticType options json
termination_by 2 * sizeOf members
decreasing_by all_goals omega

/-- The type that a member holds, if it says anything. -/
def statedType (options : Options) (members : Json.Members) (name : String) :
    Reading (Option StaticType) :=
  match stated? members name with
  | none => return none
  | some ⟨json, _⟩ => return some (← staticType options json)
termination_by 2 * sizeOf members
decreasing_by all_goals omega

/-- The types that a member lists; a member that is missing or null lists none. -/
def memberTypes (options : Options) (members : Json.Members) (name : String) :
    Reading (List StaticType) :=
  match members.part? name with
  | none | some ⟨.null, _⟩ => return []
  | some ⟨json, _⟩ => do
    let ⟨items, _⟩ ← array name json
    staticTypes options items
termination_by 2 * sizeOf members
decreasing_by all_goals omega

def staticTypes (options : Options) : List Json → Reading (List StaticType)
  | [] => return []
  | item :: rest => do
    let type ← staticType options item
    return type :: (← staticTypes options rest)
termination_by items => 2 * sizeOf items
decreasing_by all_goals simp only [List.cons.sizeOf_spec]; omega

/-- A declared type, with the types that its declaration mentions. Those are read for the sake of
the declared types among them; initializers are passed over. -/
def nominalType (options : Options) (kind : DeclarationKind) (members : Json.Members) :
    Reading NominalType := do
  let id ← textMember members "typeID" kind.name
  let type : NominalType := ⟨kind, id⟩
  modify ((id, .nominal type) :: ·)
  match items? members "fields" with
  | some ⟨fields, _⟩ => fieldTypes options fields
  | none => pure ()
  match members.part? "type" with
  | some ⟨json, _⟩ =>
    if json.text? = some "" then pure () else discard (staticType options json)
  | none => pure ()
  return type
termination_by 2 * sizeOf members
decreasing_by all_goals omega

def fieldTypes (options : Options) : List Json → Reading Unit
  | [] => return ()
  | item :: rest => do
    let ⟨field, _⟩ ← object "field type" item
    let _ ← memberType options field "type"
    fieldTypes options rest
termination_by fields => 2 * sizeOf fields
decreasing_by all_goals simp only [List.cons.sizeOf_spec]; omega

def functionType (options : Options) (members : Json.Members) : Reading FunctionType := do
  let isView := textOrNone members "purity" = "view"
  let typeParameters ← match items? members "typeParameters" with
    | some ⟨items, _⟩ => typeParameters options items
    | none => pure []
  let ⟨list, _⟩ ← member members "parameters" "Function"
  let ⟨items, _⟩ ← array "parameters" list
  let parameters ← parameters options items
  return .signature isView typeParameters parameters (← memberType options members "return")
termination_by 2 * sizeOf members + 1
decreasing_by all_goals omega

def typeParameters (options : Options) : List Json → Reading (List TypeParameter)
  | [] => return []
  | item :: rest => do
    let ⟨members, _⟩ ← object "type parameter" item
    let bound ← statedType options members "typeBound"
    let name ← textMember members "name" "type parameter"
    return .named name bound :: (← typeParameters options rest)
termination_by items => 2 * sizeOf items
decreasing_by all_goals simp only [List.cons.sizeOf_spec]; omega

def parameters (options : Options) : List Json → Reading (List Parameter)
  | [] => return []
  | item :: rest => do
    let ⟨members, _⟩ ← object "parameter" item
    let type ← memberType options members "type"
    let parameter := .labelled (textOrNone members "label") (textOrNone members "id") type
    return parameter :: (← parameters options rest)
termination_by items => 2 * sizeOf items
decreasing_by all_goals simp only [List.cons.sizeOf_spec]; omega

end

end CadenceWire.JsonCdc
