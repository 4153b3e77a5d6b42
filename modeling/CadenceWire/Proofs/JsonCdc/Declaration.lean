import CadenceWire.JsonCdc.StaticType
import CadenceWire.Proofs.JsonCdc.Part

/-!
Types step by step. Members of declarations and signatures that may be missing take a step of their
own, in which nothing is read if they are.
-/
namespace CadenceWire.JsonCdc

variable (options : Options) (members : Json.Members)

/-- The types of the fields of a declaration, read for the sake of what they declare. -/
def declaredFields : Reading Unit :=
  match items? members "fields" with
  | some ⟨fields, _⟩ => fieldTypes options fields
  | none => pure ()

/-- The type that a declaration is based on, read for the sake of what it declares. -/
def declaredBase : Reading Unit :=
  match members.part? "type" with
  | some ⟨json, _⟩ =>
    if json.text? = some "" then pure () else discard (staticType options json)
  | none => pure ()

/-- The type parameters of a signature. -/
def signatureTypes : Reading (List TypeParameter) :=
  match items? members "typeParameters" with
  | some ⟨items, _⟩ => typeParameters options items
  | none => pure []

theorem nominalType_steps (kind : DeclarationKind) :
    nominalType options kind members = do
      let id ← textMember members "typeID" kind.name
      modify ((id, .nominal ⟨kind, id⟩) :: ·)
      declaredFields options members
      declaredBase options members
      return ⟨kind, id⟩ := by
  rw [nominalType.eq_def]
  unfold declaredFields declaredBase
  -- Without a step of its own, each of the two members splits what follows it.
  cases members.part? "type" with
  | none => cases items? members "fields" <;> simp only [pure_bind]
  | some part =>
    by_cases empty : part.val.text? = some ""
    · cases items? members "fields" <;> simp only [empty, if_true, pure_bind]
    · cases items? members "fields" <;> simp only [empty, if_false, pure_bind]

theorem functionType_steps :
    functionType options members = do
      let typeParameters ← signatureTypes options members
      let ⟨list, _⟩ ← member members "parameters" "Function"
      let ⟨items, _⟩ ← array "parameters" list
      let parameters ← parameters options items
      let result ← memberType options members "return"
      return .signature (textOrNone members "purity" = "view") typeParameters parameters
        result := by
  rw [functionType.eq_def]
  unfold signatureTypes
  cases items? members "typeParameters" with
  | none => simp only [pure_bind]
  | some part => rfl

/-- A type of a form that is not that of a single word. -/
def formType (kind : String) : TypeForm → Reading StaticType
  | .optional => return .optional (← memberType options members "type")
  | .variableArray => return .variableArray (← memberType options members "type")
  | .constantArray => do
    let size ← arraySize members
    return .constantArray size (← memberType options members "type")
  | .dictionary => do
    let key ← memberType options members "key"
    return .dictionary key (← memberType options members "value")
  | .reference => do
    let authorization ← authorization options members
    return .reference authorization (← memberType options members "type")
  | .intersection => return .intersection (← memberTypes options members "types")
  | .restriction =>
    if options.olderForms then do
      match ← statedType options members "type" with
      | some base => return .restricted base (← memberTypes options members "restrictions")
      | none => return .intersection (← memberTypes options members "restrictions")
    else throw (.unknownTypeKind kind)
  | .capability => do
    match ← statedType options members "type" with
    | some borrowed => return .capabilityOf borrowed
    | none => return .capability
  | .inclusiveRange => return .inclusiveRange (← memberType options members "element")
  | .function => do
    if members.has "return" then return .function (← functionType options members)
    else return .simple .function

/-- A type whose kind is a single word: that of its declaration, or else the type itself. -/
def wordType (kind : String) : Reading StaticType :=
  match DeclarationKind.ofName? kind, SimpleType.ofId? kind with
  | some kind, _ => return .nominal (← nominalType options kind members)
  | none, some simple => return .simple simple
  | none, none => throw (.unknownTypeKind kind)

theorem staticType_steps (json : Json) :
    staticType options json = (
      match json.text? with
      | some id => typeReference options id
      | none => do
        let ⟨members, _⟩ ← object "static type" json
        let kind ← textMember members "kind" "static type"
        match TypeForm.names.lookup kind with
        | none => wordType options members kind
        | some form => formType options members kind form) := by
  rw [staticType.eq_def]
  cases json.text? with
  | some id => rfl
  | none =>
    refine bind_congr fun part => bind_congr fun kind => ?_
    cases TypeForm.names.lookup kind with
    | none => rfl
    | some form => cases form <;> rfl

end CadenceWire.JsonCdc
