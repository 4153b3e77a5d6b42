import CadenceWire.Proofs.Ccf.Plan
import CadenceWire.Proofs.Ccf.ValueItem

/-!
What each of the procedures that read values does, with its calls left open; and that the readers
do just that, each call answered by a reader.
-/
namespace CadenceWire.Ccf

open Cbor (Item)

/-- The items of a dictionary by twos. -/
def pairsOf : List Item → List (Item × Item)
  | key :: item :: rest => (key, item) :: pairsOf rest
  | _ => []

namespace Plan

def value (item : Item) : StaticType → Plan Value
  | .simple type => if type.isAbstract then call (.embedded item) else call (.simpleValue type item)
  | .optional content =>
    match item with
    | .null => return .nil
    | _ => .present <$> call (.value content item)
  | .variableArray element => do
    let items ← array "array value" item
    .array <$> items.mapM fun item => call (.value element item)
  | .constantArray size element => do
    let items ← array "array value" item
    if items.length = size.toNat then .array <$> items.mapM fun item => call (.value element item)
    else stop (miscount size.toNat "constant-sized array value" item)
  | .dictionary key value => do
    let items ← array "dictionary value" item
    if items.length % 2 = 0 then
      .dictionary <$> (pairsOf items).mapM fun pair => do
        let first ← call (.value key pair.1)
        return (first, ← call (.value value pair.2))
    else stop (.arityMismatch "dictionary value" "an even count" items.length)
  | .reference _ referenced => call (.value referenced item)
  | .intersection _ | .restricted _ _ => call (.embedded item)
  | .capability => liftM (capability none item)
  | .capabilityOf borrowed => liftM (capability (some borrowed) item)
  | .inclusiveRange element =>
    match item with
    | .array [start, stop, step] => do
      let start ← call (.value element start)
      let stop ← call (.value element stop)
      return .range start stop (← call (.value element step))
    | _ => stop (miscount 3 "inclusive range value" item)
  | .nominal declared =>
    if declared.kind.isInterface then call (.embedded item) else call (.composite declared item)
  | .function _ => call (.functionValue item)
  | .unstructured id => stop (.unsupportedType id)

def embedded : Item → Plan Value
  | .tag 130 body => call (.typeAndValue body)
  | .tag number _ => stop (.unexpectedTag number "abstract-typed value")
  | item => stop (notTagged "abstract-typed value" item)

def composite (definitions : Definitions) (declared : NominalType) (item : Item) : Plan Value :=
  match definitions.layout? declared.id with
  | none => stop (.missingLayout declared.id)
  | some layout =>
    match item with
    | .array items =>
      if items.length = layout.fields.length then
        .composite layout.type <$> (layout.fields.zip items).mapM fun (field, item) => do
          return (⟨field.1, some field.2⟩, ← call (.value field.2 item))
      else stop (miscount layout.fields.length "composite value" item)
    | _ => stop (misfit "array" "composite value" item)

def simpleValue (item : Item) : SimpleType → Plan Value
  | .metaType => .type <$> call (.typeValue item)
  | .function => call (.functionValue item)
  | type => liftM (Ccf.simpleValue type item)

def functionValue : Item → Plan Value
  | .tag 193 body => .function <$> call (.functionType body)
  | item => .function <$> call (.functionType item)

def typeAndValue : Item → Plan Value
  | .array [type, item] => do
    let type ← call (.inlineType type)
    call (.value type item)
  | item => stop (miscount 2 "type and value" item)

def inlineType (table : TypeTable) : Item → Plan StaticType
  | .tag number body =>
    match TypeForm.ofInlineTag? number with
    | some .known => do
      let id ← bytes "type reference" body
      match table.lookup id with
      | some type => return .nominal type
      | none => stop (.unknownTypeReference id)
    | some .simple => .simple <$> (liftM (simpleType body) : Plan SimpleType)
    | some .optional => .optional <$> call (.inlineType body)
    | some .variableArray => .variableArray <$> call (.inlineType body)
    | some .constantArray =>
      match body with
      | .array [size, element] => do
        let size ← arraySize size
        return .constantArray size (← call (.inlineType element))
      | _ => stop (miscount 2 "constant-sized array type" body)
    | some .dictionary =>
      match body with
      | .array [key, value] => do
        let key ← call (.inlineType key)
        return .dictionary key (← call (.inlineType value))
      | _ => stop (miscount 2 "dictionary type" body)
    | some .reference =>
      match body with
      | .array [granted, referenced] => do
        let authorization ← authorization granted
        return .reference authorization (← call (.inlineType referenced))
      | _ => stop (miscount 2 "reference type" body)
    | some .intersection =>
      match body with
      | .array [.null, .array types] => .intersection <$> types.mapM (call <| .inlineType ·)
      | .array [base, .array types] => do
        let types ← types.mapM (call <| .inlineType ·)
        return .restricted (← call (.inlineType base)) types
      | .array types => .intersection <$> types.mapM (call <| .inlineType ·)
      | _ => stop (misfit "array" "intersection type" body)
    | some .capability =>
      match body with
      | .null => return .capability
      | _ => .capabilityOf <$> call (.inlineType body)
    | some .inclusiveRange => .inclusiveRange <$> call (.inlineType body)
    | none => stop (.unexpectedTag number "inline type")
  | item => stop (notTagged "inline type" item)

def typeValue : Item → Plan (Option StaticType)
  | .null => return none
  | .tag number body => some <$>
    match TypeForm.ofValueTag? number with
    | some .known => liftM (boundType body)
    | some .simple => .simple <$> (liftM (simpleType body) : Plan SimpleType)
    | some .optional => .optional <$> call (.requiredType body)
    | some .variableArray => .variableArray <$> call (.requiredType body)
    | some .constantArray =>
      match body with
      | .array [size, element] => do
        let size ← arraySize size
        return .constantArray size (← call (.requiredType element))
      | _ => stop (miscount 2 "constant-sized array type value" body)
    | some .dictionary =>
      match body with
      | .array [key, value] => do
        let key ← call (.requiredType key)
        return .dictionary key (← call (.requiredType value))
      | _ => stop (miscount 2 "dictionary type value" body)
    | some .reference =>
      match body with
      | .array [granted, referenced] => do
        let authorization ← authorization granted
        return .reference authorization (← call (.requiredType referenced))
      | _ => stop (miscount 2 "reference type value" body)
    | some .intersection =>
      match body with
      | .array [.null, .array types] => .intersection <$> types.mapM (call <| .requiredType ·)
      | .array [base, .array types] => do
        let base ← call (.requiredType base)
        return .restricted base (← types.mapM (call <| .requiredType ·))
      | .array types => .intersection <$> types.mapM (call <| .requiredType ·)
      | _ => stop (misfit "array" "intersection type" body)
    | some .capability => do
      match ← call (.typeValue body) with
      | some borrowed => return .capabilityOf borrowed
      | none => return .capability
    | some .inclusiveRange => .inclusiveRange <$> call (.requiredType body)
    | none =>
      if number = functionTag then .function <$> call (.functionType body)
      else
        match writtenKind? number with
        | none => stop (.unexpectedTag number "type value")
        | some kind => call (.writtenType kind body)
  | item => stop (notTagged "type value" item)

def requiredType (item : Item) : Plan StaticType := do
  match ← call (.typeValue item) with
  | some type => return type
  | none => stop (.unexpectedItem "type value" "nested type value" "null")

def writtenField : Item → Plan Unit
  | .array [name, type] => do
    let _ ← text "field name" name
    let _ ← call (.requiredType type)
    return ()
  | item => stop (miscount 2 "type value field" item)

def writtenType (kind : DeclarationKind) : Item → Plan StaticType
  | .array [id, name, _, fields, _] => do
    let id ← bytes "type value id" id
    let type : NominalType := ⟨kind, ← text "type value qualified id" name⟩
    modify ((id, type) :: ·)
    let fields ← array "type value fields" fields
    let _ ← fields.mapM writtenField
    return .nominal type
  | item => stop (miscount 5 "composite type value" item)

def typeParameter : Item → Plan TypeParameter
  | .array [name, bound] => do
    let name ← text "type parameter name" name
    return .named name (← call (.typeValue bound))
  | item => stop (miscount 2 "type parameter" item)

def parameter : Item → Plan Parameter
  | .array [label, identifier, type] => do
    let label ← text "parameter label" label
    let identifier ← text "parameter identifier" identifier
    return .labelled label identifier (← call (.requiredType type))
  | item => stop (miscount 3 "parameter" item)

def functionType : Item → Plan FunctionType
  | .array (typeParameters :: parameters :: result :: purity) => do
    if 1 < purity.length then stop (.arityMismatch "function type" "3 or 4" (purity.length + 3))
    else do
      let typeParameters ← (← array "type parameters" typeParameters).mapM typeParameter
      let parameters ← (← array "parameters" parameters).mapM parameter
      let isView ← isView purity
      return .signature isView typeParameters parameters (← call (.requiredType result))
  | .array items => stop (.arityMismatch "function type" "3 or 4" items.length)
  | item => stop (misfit "array" "function type" item)

/-- What the procedure does. -/
def of (definitions : Definitions) {γ : Type} : Procedure γ → Plan γ
  | .value type item => value item type
  | .embedded item => embedded item
  | .composite declared item => composite definitions declared item
  | .simpleValue type item => simpleValue item type
  | .functionValue item => functionValue item
  | .typeAndValue item => typeAndValue item
  | .inlineType item => inlineType definitions.table item
  | .typeValue item => typeValue item
  | .requiredType item => requiredType item
  | .writtenType kind item => writtenType kind item
  | .functionType item => functionType item

end Plan

/-! What the procedures read. -/
section readers

variable (definitions : Definitions)

def embedded (item : Item) : Reading Value :=
  match item with
  | .tag 130 body => typeAndValue definitions body
  | .tag number _ => throw (.unexpectedTag number "abstract-typed value")
  | _ => throw (notTagged "abstract-typed value" item)

def composite (declared : NominalType) (item : Item) : Reading Value :=
  match definitions.layout? declared.id with
  | none => throw (.missingLayout declared.id)
  | some layout =>
    match item with
    | .array items =>
      if items.length = layout.fields.length then
        .composite layout.type <$> fields definitions layout.fields items
      else throw (miscount layout.fields.length "composite value" item)
    | _ => throw (misfit "array" "composite value" item)

def writtenType (kind : DeclarationKind) (item : Item) : Reading StaticType :=
  match item with
  | .array [id, name, _, fields, _] => do
    let id ← bytes "type value id" id
    let type : NominalType := ⟨kind, ← text "type value qualified id" name⟩
    modify ((id, type) :: ·)
    match fields with
    | .array fields => writtenFields fields
    | _ => throw (misfit "array" "type value fields" fields)
    return .nominal type
  | _ => throw (miscount 5 "composite type value" item)

@[simp] def reader {γ : Type} : Procedure γ → Reading γ
  | .value type item => value definitions type item
  | .embedded item => embedded definitions item
  | .composite declared item => composite definitions declared item
  | .simpleValue type item => simpleValue type item
  | .functionValue item => functionValue item
  | .typeAndValue item => typeAndValue definitions item
  | .inlineType item => liftM (inlineType definitions.table item)
  | .typeValue item => typeValue item
  | .requiredType item => required (typeValue item)
  | .writtenType kind item => writtenType kind item
  | .functionType item => functionType item

private theorem values_eq_mapM (element : StaticType) (items : List Item) :
    values definitions element items = items.mapM (value definitions element) := by
  induction items with
  | nil => rw [values]; rfl
  | cons item items ih => rw [values, List.mapM_cons, ih]

private theorem entries_eq_mapM (key element : StaticType) (items : List Item) :
    entries definitions key element items = (pairsOf items).mapM fun pair => do
      let first ← value definitions key pair.1
      return (first, ← value definitions element pair.2) := by
  fun_induction pairsOf items with
  | case1 first second items ih =>
    rw [entries, ih, List.mapM_cons]
    simp only [bind_assoc, pure_bind]
  | case2 items short =>
    rw [entries.eq_def]
    split
    next first second items => exact absurd rfl (short first second items)
    next => rfl

private theorem fields_eq_mapM (layout : List (String × StaticType)) (items : List Item) :
    fields definitions layout items = (layout.zip items).mapM fun (field, item) => do
      return (⟨field.1, some field.2⟩, ← value definitions field.2 item) := by
  induction layout generalizing items with
  | nil => rw [fields.eq_def]; rfl
  | cons field layout ih =>
    cases items with
    | nil => rw [fields.eq_def]; rfl
    | cons item items =>
      rw [fields.eq_def, List.zip_cons_cons, List.mapM_cons]
      simp only [ih, bind_assoc, pure_bind]

private theorem knownTypes_eq_mapM (items : List Item) :
    knownTypes items = items.mapM fun item => required (typeValue item) := by
  induction items with
  | nil => rw [knownTypes]; rfl
  | cons item items ih => rw [knownTypes, List.mapM_cons, ih]

private theorem liftM_inlineTypes (table : TypeTable) (items : List Item) :
    (liftM (inlineTypes table items) : Reading (List StaticType)) =
      items.mapM fun item => liftM (inlineType table item) := by
  induction items with
  | nil => rw [inlineTypes]; rfl
  | cons item items ih =>
    rw [inlineTypes, List.mapM_cons, ← ih]
    simp only [liftM_bind, liftM_pure]

end readers

/-! The readers read as planned. -/
section runs

variable {definitions : Definitions}

private theorem run_embedded (item : Item) :
    (Plan.embedded item).run (reader definitions) = embedded definitions item := by
  unfold Plan.embedded embedded
  split
  next => exact Plan.run_call _ _
  next => rfl
  next => rfl

private theorem value_of_open {type : StaticType} (opens : isOpen type = true) (item : Item) :
    value definitions type item = embedded definitions item := by
  rw [value.eq_def]
  cases type with
  | optional | reference => cases opens
  | _ =>
    simp only [throughLayers, opens, if_true]
    rfl

private theorem value_of_concrete {declared : NominalType}
    (concrete : declared.kind.isInterface = false) (item : Item) :
    value definitions (.nominal declared) item = composite definitions declared item := by
  rw [value.eq_def]
  simp only [throughLayers, isOpen, concrete]
  rfl

private theorem run_composite (declared : NominalType) (item : Item) :
    (Plan.composite definitions declared item).run (reader definitions) =
      composite definitions declared item := by
  unfold Plan.composite composite
  cases definitions.layout? declared.id with
  | none => rfl
  | some layout =>
    cases item with
    | array items =>
      dsimp only
      split
      next => simp [fields_eq_mapM]
      next => rfl
    | _ => rfl

private theorem run_value (type : StaticType) (item : Item) :
    (Plan.value item type).run (reader definitions) = value definitions type item := by
  unfold Plan.value
  cases type with
  | simple type =>
    cases abstract : type.isAbstract with
    | true =>
      have opens : isOpen (.simple type) = true := abstract
      simp [abstract, value_of_open opens]
    | false => simp [abstract, value_simple]
  | optional content =>
    dsimp only
    split
    next => rw [value.eq_def]; rfl
    next there => simp [value_optional content there]
  | reference granted referenced => simp [value_reference]
  | intersection types =>
    have opens : isOpen (.intersection types) = true := rfl
    simp [value_of_open opens]
  | restricted base types =>
    have opens : isOpen (.restricted base types) = true := rfl
    simp [value_of_open opens]
  | nominal declared =>
    cases interface : declared.kind.isInterface with
    | true =>
      have opens : isOpen (.nominal declared) = true := interface
      simp [interface, value_of_open opens]
    | false => simp [interface, value_of_concrete]
  | variableArray element =>
    rw [value.eq_def]
    cases item with
    | array items => simp [throughLayers, isOpen, array, values_eq_mapM, liftM_ok]
    | _ => rfl
  | constantArray size element =>
    rw [value.eq_def]
    cases item with
    | array items =>
      by_cases fit : items.length = size.toNat
      · simp [throughLayers, isOpen, array, values_eq_mapM, liftM_ok, fit]
      · simp [throughLayers, isOpen, array, liftM_ok, fit, miscount]
    | _ => rfl
  | dictionary key element =>
    rw [value.eq_def]
    cases item with
    | array items =>
      by_cases even : items.length % 2 = 0
      · simp [throughLayers, isOpen, array, entries_eq_mapM, liftM_ok, even]
      · simp [throughLayers, isOpen, array, liftM_ok, even]
    | _ => rfl
  | inclusiveRange element =>
    rw [value.eq_def]
    cases item with
    | array items =>
      match items with
      | [start, stop, step] => simp [throughLayers, isOpen, range]
      | [] | [_] | [_, _] | _ :: _ :: _ :: _ :: _ => rfl
    | _ => rfl
  | capability | capabilityOf | unstructured =>
    rw [value.eq_def]
    rfl
  | function =>
    rw [value.eq_def]
    exact Plan.run_call _ _

private theorem run_simpleValue (type : SimpleType) (item : Item) :
    (Plan.simpleValue item type).run (reader definitions) = simpleValue type item := by
  cases type with
  | metaType => simp [Plan.simpleValue, simpleValue]
  | function => simp [Plan.simpleValue, simpleValue]
  | _ => rfl

private theorem run_functionValue (item : Item) :
    (Plan.functionValue item).run (reader definitions) = functionValue item := by
  unfold Plan.functionValue functionValue
  split
  next => simp
  next => simp

private theorem run_typeAndValue (item : Item) :
    (Plan.typeAndValue item).run (reader definitions) = typeAndValue definitions item := by
  cases item with
  | array items =>
    match items with
    | [type, item] => simp [Plan.typeAndValue, typeAndValue]
    | [] | [_] | _ :: _ :: _ :: _ => rfl
  | _ => rfl

private theorem run_inlineType (item : Item) :
    (Plan.inlineType definitions.table item).run (reader definitions) =
      liftM (inlineType definitions.table item) := by
  cases item with
  | tag number body =>
    rw [inlineType.eq_def]
    unfold Plan.inlineType
    dsimp only
    cases TypeForm.ofInlineTag? number with
    | none => rfl
    | some form =>
      cases form with
      | known =>
        simp only [Plan.run_bind, Plan.run_step, liftM_bind]
        refine bind_congr fun id => ?_
        cases definitions.table.lookup id <;> rfl
      | simple | optional | variableArray | inclusiveRange => simp
      | constantArray | dictionary | reference =>
        cases body with
        | array items =>
          rcases items with _ | ⟨_, _ | ⟨_, _ | _⟩⟩
          · rfl
          · rfl
          · simp
          · rfl
        | _ => rfl
      | intersection =>
        dsimp only
        split
        next => simp [liftM_inlineTypes]
        next => simp [liftM_inlineTypes]
        next => simp [liftM_inlineTypes]
        next other =>
          cases body with
          | array types => exact (other types rfl).elim
          | _ => rfl
      | capability =>
        cases body with
        | null => rfl
        | _ => simp
  | _ => rfl

private theorem run_typeValue (item : Item) :
    (Plan.typeValue item).run (reader definitions) = typeValue item := by
  cases item with
  | tag number body =>
    rw [typeValue.eq_def]
    unfold Plan.typeValue
    simp only [Plan.run_map]
    refine congrArg (some <$> ·) ?_
    cases TypeForm.ofValueTag? number with
    | none =>
      dsimp only
      split
      next => simp
      next =>
        cases writtenKind? number with
        | none => rfl
        | some kind =>
          dsimp only
          rw [Plan.run_call]
          rfl
    | some form =>
      cases form with
      | known => simp
      | simple | optional | variableArray | inclusiveRange => simp
      | constantArray | dictionary | reference =>
        cases body with
        | array items =>
          rcases items with _ | ⟨_, _ | ⟨_, _ | _⟩⟩
          · rfl
          · rfl
          · simp
          · rfl
        | _ => rfl
      | intersection =>
        dsimp only
        split
        next => simp [knownTypes_eq_mapM]
        next => simp [knownTypes_eq_mapM]
        next => simp [knownTypes_eq_mapM]
        next other =>
          cases body with
          | array types => exact (other types rfl).elim
          | _ => rfl
      | capability =>
        simp only [Plan.run_bind, Plan.run_call]
        refine bind_congr fun known => ?_
        cases known <;> rfl
  | _ => rfl

private theorem run_requiredType (item : Item) :
    (Plan.requiredType item).run (reader definitions) = required (typeValue item) := by
  simp only [Plan.requiredType, required, Plan.run_bind, Plan.run_call]
  refine bind_congr fun known => ?_
  cases known <;> rfl

private theorem run_typeParameters (items : List Item) :
    items.mapM (fun item => (Plan.typeParameter item).run (reader definitions)) =
      typeParameters items := by
  induction items with
  | nil => rw [typeParameters]; rfl
  | cons item items ih =>
    rw [typeParameters.eq_def, List.mapM_cons, ih]
    cases item with
    | array parts =>
      match parts with
      | [name, bound] => simp [Plan.typeParameter]
      | [] | [_] | _ :: _ :: _ :: _ => rfl
    | _ => rfl

private theorem run_parameters (items : List Item) :
    items.mapM (fun item => (Plan.parameter item).run (reader definitions)) = parameters items := by
  induction items with
  | nil => rw [parameters]; rfl
  | cons item items ih =>
    rw [parameters.eq_def, List.mapM_cons, ih]
    cases item with
    | array parts =>
      match parts with
      | [label, identifier, type] => simp [Plan.parameter]
      | [] | [_] | [_, _] | _ :: _ :: _ :: _ :: _ => rfl
    | _ => rfl

private theorem run_writtenFields (items : List Item) :
    (fun _ => ()) <$> items.mapM (fun item => (Plan.writtenField item).run (reader definitions)) =
      writtenFields items := by
  induction items with
  | nil => rw [writtenFields]; rfl
  | cons item items ih =>
    rw [List.mapM_cons, writtenFields.eq_def]
    cases item with
    | array parts =>
      match parts with
      | [name, type] => simp [Plan.writtenField, ← ih]
      | [] | [_] | _ :: _ :: _ :: _ => rfl
    | _ => rfl

private theorem run_writtenType (kind : DeclarationKind) (item : Item) :
    (Plan.writtenType kind item).run (reader definitions) = writtenType kind item := by
  cases item with
  | array parts =>
    match parts with
    | [id, name, _, fields, _] =>
      simp only [Plan.writtenType, writtenType, Plan.run_bind, Plan.run_step, Plan.run_modify]
      refine bind_congr fun id => bind_congr fun name => bind_congr fun _ => ?_
      cases fields with
      | array fields => simp [array, liftM_ok, ← @run_writtenFields definitions]
      | _ => rfl
    | [] | [_] | [_, _] | [_, _, _] | [_, _, _, _] | _ :: _ :: _ :: _ :: _ :: _ :: _ => rfl
  | _ => rfl

private theorem run_functionType (item : Item) :
    (Plan.functionType item).run (reader definitions) = functionType item := by
  cases item with
  | array parts =>
    match parts with
    | typeParameters :: parameters :: result :: purity =>
      rw [functionType.eq_def]
      simp only [Plan.functionType]
      by_cases long : 1 < purity.length
      · rw [if_pos long, if_pos long]
        rfl
      · rw [if_neg long, if_neg long]
        cases typeParameters with
        | array typeParameters =>
          simp only [Plan.run_bind, Plan.run_step, Plan.run_mapM, array, liftM_ok, pure_bind,
            run_typeParameters]
          refine bind_congr fun _ => ?_
          cases parameters with
          | array parameters => simp [liftM_ok, run_parameters]
          | _ => rfl
        | _ => rfl
    | [] | [_] | [_, _] => rfl
  | _ => rfl

/-- Each reader reads as its plan does. -/
theorem run_of {γ : Type} (p : Procedure γ) :
    Plan.run (reader definitions) (Plan.of definitions p) = reader definitions p := by
  cases p with
  | value type item => exact run_value type item
  | embedded item => exact run_embedded item
  | composite declared item => exact run_composite declared item
  | simpleValue type item => exact run_simpleValue type item
  | functionValue item => exact run_functionValue item
  | typeAndValue item => exact run_typeAndValue item
  | inlineType item => exact run_inlineType item
  | typeValue item => exact run_typeValue item
  | requiredType item => exact run_requiredType item
  | writtenType kind item => exact run_writtenType kind item
  | functionType item => exact run_functionType item

end runs

end CadenceWire.Ccf
