import CadenceWire.Proofs.JsonCdc.ResolvedType
import CadenceWire.Proofs.Text.Literal
import CadenceWire.Proofs.Value.Assembly

/-!
Values that are read twice, with different types seen before, or with and without types known by
their identifier alone. They may hold different types, but nothing that is made of them tells.
-/
namespace CadenceWire.JsonCdc

section resolution

variable {first second : Options} {members : Json.Members} {json : Json}

private theorem numberText_congr (older : first.olderForms = second.olderForms) (kind : String) :
    numberText first kind json = numberText second kind json := by
  unfold numberText
  rw [older]

private theorem integer_congr (older : first.olderForms = second.olderForms) (kind : IntegerKind) :
    integer first kind json = integer second kind json := by
  rw [integer, integer, numberText_congr older]

private theorem address_congr (older : first.olderForms = second.olderForms) :
    address first json = address second json := by
  simp only [address, addressDigits?, older]

private theorem scalar?_congr (older : first.olderForms = second.olderForms) (kind : ValueKind) :
    scalar? first kind json = scalar? second kind json := by
  cases kind with
  | address => rw [scalar?, scalar?, address_congr older]
  | integer kind => rw [scalar?, scalar?, integer_congr older]
  | fixedPoint kind => rw [scalar?, scalar?, fixedPoint, fixedPoint, numberText_congr older]
  | _ => rfl

private theorem scalarValue_agree (older : first.olderForms = second.olderForms) (kind : ValueKind)
    (json : Json) (failure : Failure) :
    Agree Seen.Keyed Value.Interchangeable
      (match scalar? first kind json with
        | some read => (liftM read : Reading Value)
        | none => throw failure)
      (match scalar? second kind json with
        | some read => (liftM read : Reading Value)
        | none => throw failure) := by
  rw [scalar?_congr older]
  cases scalar? second kind json with
  | none => exact .throw_left _
  | some read =>
    dsimp only
    rw [← bind_pure (liftM read)]
    exact .step fun v _ => .pure (.refl v)

/-- The type that may be stated has one identifier, or is not stated. -/
theorem boundType_agree (older : first.olderForms = second.olderForms) (name : String) :
    Agree Seen.Keyed SameBound (statedType first members name) (statedType second members name) :=
  statedType_agree (fun part _ => staticType_agree older part) (Nat.le_refl _) name

private theorem typeValue_agree (older : first.olderForms = second.olderForms) :
    Agree Seen.Keyed Value.Interchangeable (typeValue first json) (typeValue second json) :=
  .step fun _ _ => (boundType_agree older "staticType").bind fun _ _ same =>
    .pure (Value.interchangeable_type same)

private theorem functionValue_agree (older : first.olderForms = second.olderForms) :
    Agree Seen.Keyed Value.Interchangeable (functionValue first json)
      (functionValue second json) := by
  refine .step fun _ _ => .step fun inside _ => ?_
  refine (staticType_agree older inside.val).bind fun type type' same => ?_
  cases type with
  | function signature =>
    cases type' with
    | function signature' => exact .pure (Value.interchangeable_function same)
    | _ => exact .throw_right _
  | _ => exact .throw_left _

section parts

variable {bound : Nat} (inner : ∀ part : Json, sizeOf part < bound →
  Agree Seen.Keyed Value.Interchangeable (value first part) (value second part))

include inner

private theorem values_agree {items : List Json} (small : sizeOf items ≤ bound) :
    Agree Seen.Keyed (List.Forall₂ Value.Interchangeable) (values first items)
      (values second items) := by
  refine items_induction ?_ ?_ small
  · rw [values.eq_def first, values.eq_def second]
    exact .pure .nil
  · intro item items small others
    rw [values.eq_def first, values.eq_def second]
    exact (inner item small).bind fun _ _ alike => others.bind fun _ _ rest =>
      .pure (.cons alike rest)

private theorem memberValue_agree (small : sizeOf members ≤ bound) (name context : String) :
    Agree Seen.Keyed Value.Interchangeable (memberValue first members name context)
      (memberValue second members name context) := by
  rw [memberValue.eq_def first, memberValue.eq_def second]
  refine .step fun part _ => ?_
  obtain ⟨json, smaller⟩ := part
  exact inner json (by omega)

private theorem entries_agree {items : List Json} (small : sizeOf items ≤ bound) :
    Agree Seen.Keyed (List.Forall₂ fun entry entry' => entry.1.Interchangeable entry'.1 ∧
        entry.2.Interchangeable entry'.2)
      (entries first items) (entries second items) := by
  refine items_induction ?_ ?_ small
  · rw [entries.eq_def first, entries.eq_def second]
    exact .pure .nil
  · intro item items small others
    rw [entries.eq_def first, entries.eq_def second]
    refine .step fun part _ => ?_
    obtain ⟨members, smaller⟩ := part
    have single := memberValue_agree inner (show sizeOf members ≤ bound by omega)
    exact (single "key" _).bind fun _ _ key => (single "value" _).bind fun _ _ alike =>
      others.bind fun _ _ rest => .pure (.cons ⟨key, alike⟩ rest)

private theorem fields_agree {items : List Json} (small : sizeOf items ≤ bound) :
    Agree Seen.Keyed (List.Forall₂ fun field field' => field.1.name = field'.1.name ∧
        field.2.Interchangeable field'.2)
      (fields first items) (fields second items) := by
  refine items_induction ?_ ?_ small
  · rw [fields.eq_def first, fields.eq_def second]
    exact .pure .nil
  · intro item items small others
    rw [fields.eq_def first, fields.eq_def second]
    refine .step fun part _ => .step fun name _ => ?_
    obtain ⟨members, smaller⟩ := part
    have single := memberValue_agree inner (show sizeOf members ≤ bound by omega)
    exact (single "value" _).bind fun _ _ alike => others.bind fun _ _ rest =>
      .pure (.cons ⟨rfl, alike⟩ rest)

private theorem composite_agree (small : sizeOf json ≤ bound) (kind : DeclarationKind) :
    Agree Seen.Keyed Value.Interchangeable (composite first kind json)
      (composite second kind json) := by
  rw [composite.eq_def first, composite.eq_def second]
  refine .step fun part _ => .step fun id _ => .step fun inside _ => .step fun list _ => ?_
  obtain ⟨members, smaller⟩ := part
  obtain ⟨json, smaller'⟩ := inside
  obtain ⟨items, smaller''⟩ := list
  dsimp only at smaller' smaller''
  exact (fields_agree inner (by omega)).bind fun _ _ each =>
    .pure (Value.interchangeable_composite each ⟨kind, id⟩)

private theorem range_agree (small : sizeOf json ≤ bound) :
    Agree Seen.Keyed Value.Interchangeable (range first json) (range second json) := by
  rw [range.eq_def first, range.eq_def second]
  refine .step fun part _ => ?_
  obtain ⟨members, smaller⟩ := part
  have single := memberValue_agree inner (show sizeOf members ≤ bound by omega)
  exact (single "start" _).bind fun _ _ start => (single "end" _).bind fun _ _ stop =>
    (single "step" _).bind fun _ _ step => .pure (Value.interchangeable_range start stop step)

private theorem capabilityTarget_agree (older : first.olderForms = second.olderForms)
    (small : sizeOf members ≤ bound) :
    Agree Seen.Keyed Eq (capabilityTarget first members) (capabilityTarget second members) := by
  have identified : capabilityTarget.capabilityId first members =
      capabilityTarget.capabilityId second members := by
    simp only [capabilityTarget.capabilityId, integer_congr older]
  rw [capabilityTarget.eq_def first, capabilityTarget.eq_def second, identified, older]
  cases members.part? "path" with
  | none => exact .step fun _ _ => .pure rfl
  | some part =>
    obtain ⟨json, smaller⟩ := part
    dsimp only
    split
    next =>
      refine (inner json (by omega)).bind fun v w alike => ?_
      cases v with
      | path place =>
        cases w with
        | path place' => exact .pure (congrArg (0, some ·) (Path.text_injective alike.text))
        | _ => exact .throw_right _
      | _ => exact .throw_left _
    next => exact .step fun _ _ => .pure rfl

private theorem capability_agree (older : first.olderForms = second.olderForms)
    (small : sizeOf json ≤ bound) :
    Agree Seen.Keyed Value.Interchangeable (capability first json) (capability second json) := by
  rw [capability.eq_def first, capability.eq_def second]
  refine .step fun part _ => ?_
  obtain ⟨members, smaller⟩ := part
  refine (capabilityTarget_agree inner older (by omega)).bind fun target target' same => ?_
  subst same
  refine .step fun inside _ => ?_
  rw [address_congr older]
  exact .step fun owner _ => (boundType_agree older "borrowType").bind fun _ _ same =>
    .pure (Value.interchangeable_capability target.1 owner target.2 same)

end parts

private theorem value_agree (older : first.olderForms = second.olderForms) (json : Json) :
    Agree Seen.Keyed Value.Interchangeable (value first json) (value second json) := by
  induction json using (measure (sizeOf : Json → Nat)).wf.induction with
  | _ json ih =>
    rw [value.eq_def first, value.eq_def second]
    refine .step fun part _ => .step fun name _ => ?_
    obtain ⟨members, smaller⟩ := part
    dsimp only
    split
    next => exact .pure (.refl _)
    next =>
      refine .step fun inside _ => ?_
      obtain ⟨payload, smaller'⟩ := inside
      have inner : ∀ part : Json, sizeOf part < sizeOf payload →
          Agree Seen.Keyed Value.Interchangeable (value first part) (value second part) :=
        fun part small => ih part (Nat.lt_trans small (Nat.lt_trans smaller' smaller))
      cases ValueKind.ofName? name with
      | none => exact .throw_left _
      | some kind =>
        have scalar := scalarValue_agree older kind payload (.unknownValueKind name)
        cases kind with
        | optional =>
          dsimp only
          split
          next => exact .pure (.refl _)
          next =>
            exact (ih payload (Nat.lt_trans smaller' smaller)).bind fun _ _ alike =>
              .pure alike.present
        | array =>
          refine .step fun part _ => ?_
          exact (values_agree inner (Nat.le_of_lt part.property)).bind fun _ _ each =>
            .pure (Value.interchangeable_array each)
        | dictionary =>
          refine .step fun part _ => ?_
          exact (entries_agree inner (Nat.le_of_lt part.property)).bind fun _ _ each =>
            .pure (Value.interchangeable_dictionary each)
        | composite kind =>
          dsimp only
          split
          next => exact .throw_left _
          next => exact composite_agree inner (Nat.le_refl _) kind
        | capability => exact capability_agree inner older (Nat.le_refl _)
        | type => exact typeValue_agree older
        | function => exact functionValue_agree older
        | inclusiveRange => exact range_agree inner (Nat.le_refl _)
        | _ => exact scalar

end resolution

/-- However far reading has come, identifiers are recorded with the declared types that have them,
so whether an identifier is resolved or kept as it is makes no difference to the identifier of the
type around it. Only identifiers of types show in values, so nothing that is made of values tells
what was resolved. -/
theorem resolution_hidden {first second : Options} (older : first.olderForms = second.olderForms) :
    (∀ options payload earlier seen task,
        Reached options payload earlier seen task → seen.Keyed) ∧
      (∀ options task seen after, Reads options task seen after → seen.Keyed → after.Keyed) ∧
      (∀ name seen type after, seen.Keyed →
        Yields (staticType first (.string name)) seen type after → type.id = name) ∧
      (∀ json seen type after seen' type' after', seen.Keyed → seen'.Keyed →
        Yields (staticType first json) seen type after →
          Yields (staticType second json) seen' type' after' →
            type.id = type'.id ∧ (Value.type (some type)).Alike (.type (some type'))) ∧
      ∀ json seen v after seen' w after', seen.Keyed → seen'.Keyed →
        Yields (value first json) seen v after → Yields (value second json) seen' w after' →
          v.Alike w := by
  refine ⟨fun _ _ _ _ _ => Reached.keyed, fun _ _ _ _ => Reads.keyed, ?_, ?_, ?_⟩
  · intro name seen type after keyed read
    rw [staticType_steps] at read
    exact (typeReference_id first name _ _ _ keyed read).1
  · intro json seen type after seen' type' after' keyed keyed' read read'
    obtain ⟨same, -⟩ := staticType_agree older json _ _ _ _ _ _ keyed keyed' read read'
    have bound : SameBound (some type) (some type') := congrArg some same
    exact ⟨same, (Value.interchangeable_type bound).toAlike⟩
  · intro json seen v after seen' w after' keyed keyed' read read'
    exact (value_agree older json _ _ _ _ _ _ keyed keyed' read read').1.toAlike

/-- An optional of an identifier that is kept where nothing was seen, and resolved behind a payload
that declares it. -/
theorem resolution_hidden_optional :
    let members : Json.Members := [("kind", .string "Optional"), ("type", .string "S.A")]
    let json : Json := .object members
    let seen : Seen := [("S.A", .nominal ⟨.struct, "S.A"⟩)]
    let kept : StaticType := .optional (.unstructured "S.A")
    let resolved : StaticType := .optional (.nominal ⟨.struct, "S.A"⟩)
    Yields (staticType ⟨false, true⟩ json) [] kept [] ∧
      Yields (staticType .strict json) seen resolved seen ∧
      kept ≠ resolved ∧ kept.id = resolved.id ∧
      (Value.type (some kept)).Alike (.type (some resolved)) := by
  intro members json seen kept resolved
  have read (options : Options) {seen : Seen} {type : StaticType} {after : Seen}
      (read : Yields (typeReference options "S.A") seen type after) :
      Yields (staticType options json) seen (.optional type) after := by
    have inner : Yields (staticType options (.string "S.A")) seen type after := by
      rw [staticType_steps]
      exact read
    have kind : members.last? "kind" = some (.string "Optional") := rfl
    have form : TypeForm.names.lookup "Optional" = some .optional := by decide
    have content : memberType options members "type" = staticType options (.string "S.A") :=
      memberType_of_last? rfl
    rw [staticType_steps]
    simp only [json, Json.text?, object, liftM_ok, pure_bind, textMember_of_last? kind, form,
      formType, content]
    exact inner.bind (.pure _ _)
  have unresolved : Yields (staticType ⟨false, true⟩ json) [] kept [] := read _ rfl
  have known : Yields (staticType .strict json) seen resolved seen := read _ rfl
  have older : Options.olderForms ⟨false, true⟩ = Options.strict.olderForms := rfl
  obtain ⟨keyed, -, -, alike, -⟩ := resolution_hidden older
  have start := keyed .strict (keyedPayload "S.A" []) [] [] _ .payload
  have behind := keyed .strict (keyedPayload "S.A" []) _ seen _ keyedPayload_reached
  exact ⟨unresolved, known, by simp [kept, resolved],
    alike _ _ _ _ _ _ _ start behind unresolved known⟩

end CadenceWire.JsonCdc
