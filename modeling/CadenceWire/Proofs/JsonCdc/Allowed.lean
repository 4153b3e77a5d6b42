import CadenceWire.Proofs.JsonCdc.Keyed
import CadenceWire.Proofs.JsonCdc.Lenient

/-!
What the options let into a value. Of the older forms and of the types known by their identifier
alone there is nothing in what was read, at any depth, unless the options allow for them.
-/
namespace CadenceWire.JsonCdc

/-- The type as such is of a form that the options allow. -/
def AllowedType (options : Options) : StaticType → Prop
  | .reference .legacy _ | .restricted _ _ => options.olderForms = true
  | .unstructured _ => options.unresolvedTypes = true
  | _ => True

/-- The value as such is of a form that the options allow, and so are the types it holds. Composites
come without the types of their fields, and a capability by a path is without an identifier. -/
def Allowed (options : Options) : Value → Prop
  | .bytes _ => False
  | .composite declared fields =>
    declared.kind.isInterface = false ∧ ∀ field ∈ fields, field.1.type = none
  | .capability held =>
    (held.path ≠ none → options.olderForms = true ∧ held.id = 0) ∧
      StaticType.EveryBound (AllowedType options) held.borrowType
  | .type known => StaticType.EveryBound (AllowedType options) known
  | .function signature => signature.Every (AllowedType options)
  | _ => True

variable {options : Options} {members : Json.Members}

private theorem authorization_current {granted : Authorization}
    (accepted : authorization options members = .ok granted) (legacy : granted = .legacy) :
    options.olderForms = true := by
  cases older : options.olderForms with
  | true => rfl
  | false =>
    subst legacy
    simp only [authorization, older] at accepted
    split at accepted
    next => cases accepted
    next => cases accepted
    next json _ _ =>
      obtain ⟨part, -, accepted⟩ := bind_eq_ok.1 accepted
      obtain ⟨kind, -, accepted⟩ := bind_eq_ok.1 accepted
      split at accepted
      next => cases accepted
      next =>
        obtain ⟨_, -, same⟩ := bind_eq_ok.1 accepted
        cases same
      next =>
        obtain ⟨_, -, same⟩ := bind_eq_ok.1 accepted
        cases same
      next =>
        obtain ⟨_, -, accepted⟩ := bind_eq_ok.1 accepted
        split at accepted
        next => cases accepted
        next => exact absurd accepted throw_ne_ok
      next => exact absurd accepted throw_ne_ok

private theorem typeReference_allowed (id : String) :
    Ensures Seen.Keyed (·.Every (AllowedType options)) (typeReference options id) := by
  refine (typeReference_ensures options id).imp ?_
  -- Declared types are all that the types seen before can be.
  rintro _ (⟨declared, rfl, -⟩ | ⟨rfl, allowed⟩)
  · trivial
  · exact allowed

section parts

variable {bound : Nat} (inner : ∀ part : Json, sizeOf part < bound →
  Ensures Seen.Keyed (·.Every (AllowedType options)) (staticType options part))

include inner

private theorem memberType_allowed (small : sizeOf members ≤ bound) (name : String) :
    Ensures Seen.Keyed (·.Every (AllowedType options)) (memberType options members name) := by
  rw [memberType.eq_def]
  refine .step fun part _ => ?_
  obtain ⟨json, smaller⟩ := part
  exact inner json (by omega)

private theorem statedType_allowed (small : sizeOf members ≤ bound) (name : String) :
    Ensures Seen.Keyed (StaticType.EveryBound (AllowedType options))
      (statedType options members name) := by
  rw [statedType.eq_def]
  cases stated? members name with
  | none => exact .pure trivial
  | some part =>
    obtain ⟨json, smaller⟩ := part
    exact (inner json (by omega)).bind fun type allowed => .pure allowed

private theorem staticTypes_allowed {items : List Json} (small : sizeOf items ≤ bound) :
    Ensures Seen.Keyed (StaticType.EveryOf (AllowedType options)) (staticTypes options items) := by
  refine items_induction ?_ ?_ small
  · rw [staticTypes.eq_def]
    exact .pure trivial
  · intro item items small others
    rw [staticTypes.eq_def]
    exact (inner item small).bind fun type allowed => others.bind fun types rest =>
      .pure ⟨allowed, rest⟩

private theorem memberTypes_allowed (small : sizeOf members ≤ bound) (name : String) :
    Ensures Seen.Keyed (StaticType.EveryOf (AllowedType options))
      (memberTypes options members name) := by
  rw [memberTypes.eq_def]
  split
  next => exact .pure trivial
  next => exact .pure trivial
  next json smaller _ _ =>
    refine .step fun part _ => ?_
    obtain ⟨items, smaller'⟩ := part
    exact staticTypes_allowed inner (by omega)

private theorem typeParameters_allowed {items : List Json} (small : sizeOf items ≤ bound) :
    Ensures Seen.Keyed (TypeParameter.EveryOf (AllowedType options))
      (typeParameters options items) := by
  refine items_induction ?_ ?_ small
  · rw [typeParameters.eq_def]
    exact .pure trivial
  · intro item items small others
    rw [typeParameters.eq_def]
    refine .step fun part _ => ?_
    obtain ⟨members, smaller⟩ := part
    have stated := statedType_allowed inner (show sizeOf members ≤ bound by omega) "typeBound"
    exact stated.bind fun bound allowed => .step fun name _ => others.bind fun types rest =>
      .pure ⟨allowed, rest⟩

private theorem parameters_allowed {items : List Json} (small : sizeOf items ≤ bound) :
    Ensures Seen.Keyed (Parameter.EveryOf (AllowedType options)) (parameters options items) := by
  refine items_induction ?_ ?_ small
  · rw [parameters.eq_def]
    exact .pure trivial
  · intro item items small others
    rw [parameters.eq_def]
    refine .step fun part _ => ?_
    obtain ⟨members, smaller⟩ := part
    have single := memberType_allowed inner (show sizeOf members ≤ bound by omega) "type"
    exact single.bind fun type allowed => others.bind fun types rest => .pure ⟨allowed, rest⟩

private theorem signatureTypes_allowed (small : sizeOf members ≤ bound) :
    Ensures Seen.Keyed (TypeParameter.EveryOf (AllowedType options))
      (signatureTypes options members) := by
  unfold signatureTypes
  cases items? members "typeParameters" with
  | none => exact .pure trivial
  | some part =>
    obtain ⟨items, smaller⟩ := part
    exact typeParameters_allowed inner (by omega)

private theorem functionType_allowed (small : sizeOf members ≤ bound) :
    Ensures Seen.Keyed (·.Every (AllowedType options)) (functionType options members) := by
  rw [functionType_steps]
  refine (signatureTypes_allowed inner small).bind fun types outer => ?_
  refine .step fun part _ => .step fun list _ => ?_
  obtain ⟨json, smaller⟩ := part
  obtain ⟨items, smaller'⟩ := list
  dsimp only at smaller'
  refine (parameters_allowed inner (by omega)).bind fun parameters middle => ?_
  refine (memberType_allowed inner small "return").bind fun result last => ?_
  exact .pure ⟨outer, middle, last⟩

private theorem formType_allowed (small : sizeOf members ≤ bound) (kind : String)
    (form : TypeForm) :
    Ensures Seen.Keyed (·.Every (AllowedType options)) (formType options members kind form) := by
  have single := memberType_allowed inner small
  have optional := statedType_allowed inner small
  have several := memberTypes_allowed inner small
  cases form with
  | optional | variableArray =>
    exact (single "type").bind fun type allowed => .pure ⟨trivial, allowed⟩
  | constantArray =>
    exact .step fun size _ => (single "type").bind fun type allowed => .pure ⟨trivial, allowed⟩
  | dictionary =>
    exact (single "key").bind fun key keys => (single "value").bind fun value values =>
      .pure ⟨trivial, keys, values⟩
  | reference =>
    refine .step fun granted accepted => (single "type").bind fun type allowed => ?_
    refine .pure ⟨?_, allowed⟩
    cases granted with
    | legacy => exact authorization_current accepted rfl
    | _ => trivial
  | intersection =>
    exact (several "types").bind fun types allowed => .pure ⟨trivial, allowed⟩
  | restriction =>
    dsimp only [formType]
    split
    next older =>
      refine (optional "type").bind fun base allowed => ?_
      cases base with
      | none => exact (several "restrictions").bind fun types rest => .pure ⟨trivial, rest⟩
      | some base =>
        exact (several "restrictions").bind fun types rest => .pure ⟨older, allowed, rest⟩
    next => exact .throw
  | capability =>
    refine (optional "type").bind fun borrowed allowed => ?_
    cases borrowed with
    | none => exact .pure trivial
    | some borrowed => exact .pure ⟨trivial, allowed⟩
  | inclusiveRange =>
    exact (single "element").bind fun type allowed => .pure ⟨trivial, allowed⟩
  | function =>
    dsimp only [formType]
    split
    next =>
      exact (functionType_allowed inner small).bind fun signature allowed =>
        .pure ⟨trivial, allowed⟩
    next => exact .pure trivial

end parts

private theorem wordType_allowed (kind : String) :
    Ensures Seen.Keyed (·.Every (AllowedType options)) (wordType options members kind) := by
  unfold wordType
  cases DeclarationKind.ofName? kind with
  | some kind => exact (nominalType_ensures options kind members).bind fun type _ => .pure trivial
  | none =>
    cases SimpleType.ofId? kind with
    | some simple => exact .pure trivial
    | none => exact .throw

private theorem staticType_allowed (json : Json) :
    Ensures Seen.Keyed (·.Every (AllowedType options)) (staticType options json) := by
  induction json using (measure (sizeOf : Json → Nat)).wf.induction with
  | _ json ih =>
    rw [staticType_steps]
    cases json.text? with
    | some id => exact typeReference_allowed id
    | none =>
      refine .step fun part _ => .step fun kind _ => ?_
      obtain ⟨members, smaller⟩ := part
      cases TypeForm.names.lookup kind with
      | none => exact wordType_allowed kind
      | some form =>
        have inner : ∀ part : Json, sizeOf part < sizeOf members →
            Ensures Seen.Keyed (·.Every (AllowedType options)) (staticType options part) :=
          fun part small => ih part (Nat.lt_trans small smaller)
        exact formType_allowed inner (Nat.le_refl _) kind form

private theorem statedType_ensures (name : String) :
    Ensures Seen.Keyed (StaticType.EveryBound (AllowedType options))
      (statedType options members name) :=
  statedType_allowed (fun part _ => staticType_allowed part) (Nat.le_refl _) name

private theorem typeValue_allowed (json : Json) :
    Ensures Seen.Keyed (·.Every (Allowed options)) (typeValue options json) :=
  .step fun _ _ => (statedType_ensures "staticType").bind fun _ allowed => .pure allowed

private theorem functionValue_allowed (json : Json) :
    Ensures Seen.Keyed (·.Every (Allowed options)) (functionValue options json) := by
  refine .step fun _ _ => .step fun inside _ => ?_
  refine (staticType_allowed inside.val).bind fun type allowed => ?_
  cases type with
  | function signature => exact .pure allowed.2
  | _ => exact .throw

private theorem scalar?_allowed {kind : ValueKind} {json : Json} {read : Except Failure Value}
    (found : scalar? options kind json = some read) {v : Value} (accepted : read = .ok v) :
    v.Every (Allowed options) := by
  cases kind with
  | bool =>
    obtain rfl := Option.some.inj found
    split at accepted
    next => cases accepted; trivial
    next => cases accepted
  | string | character | address | integer | fixedPoint | path =>
    obtain rfl := Option.some.inj found
    obtain ⟨_, -, rfl⟩ := map_eq_ok.1 accepted
    trivial
  | _ => cases found

private theorem scalarValue_allowed (kind : ValueKind) (json : Json) (failure : Failure) :
    Ensures Seen.Keyed (·.Every (Allowed options))
      (match scalar? options kind json with
        | some read => (liftM read : Reading Value)
        | none => throw failure) := by
  cases found : scalar? options kind json with
  | none => exact .throw
  | some read => exact .lift fun v accepted => scalar?_allowed found accepted

section parts

variable {bound : Nat} (inner : ∀ part : Json, sizeOf part < bound →
  Ensures Seen.Keyed (·.Every (Allowed options)) (value options part))

include inner

private theorem values_allowed {items : List Json} (small : sizeOf items ≤ bound) :
    Ensures Seen.Keyed (Value.EveryOf (Allowed options)) (values options items) := by
  refine items_induction ?_ ?_ small
  · rw [values.eq_def]
    exact .pure trivial
  · intro item items small others
    rw [values.eq_def]
    exact (inner item small).bind fun v allowed => others.bind fun rest alloweds =>
      .pure ⟨allowed, alloweds⟩

private theorem memberValue_allowed (small : sizeOf members ≤ bound) (name context : String) :
    Ensures Seen.Keyed (·.Every (Allowed options)) (memberValue options members name context) := by
  rw [memberValue.eq_def]
  refine .step fun part _ => ?_
  obtain ⟨json, smaller⟩ := part
  exact inner json (by omega)

private theorem entries_allowed {items : List Json} (small : sizeOf items ≤ bound) :
    Ensures Seen.Keyed (Value.EveryEntry (Allowed options)) (entries options items) := by
  refine items_induction ?_ ?_ small
  · rw [entries.eq_def]
    exact .pure trivial
  · intro item items small others
    rw [entries.eq_def]
    refine .step fun part _ => ?_
    obtain ⟨members, smaller⟩ := part
    have single := memberValue_allowed inner (show sizeOf members ≤ bound by omega)
    exact (single "key" _).bind fun key keys => (single "value" _).bind fun v allowed =>
      others.bind fun rest alloweds => .pure ⟨keys, allowed, alloweds⟩

/-- The fields of a composite hold values of the forms allowed, and no types of theirs. -/
def AllowedFields (options : Options) (fields : List (Field × Value)) : Prop :=
  (∀ field ∈ fields, field.1.type = none) ∧ Value.EveryField (Allowed options) fields

private theorem fields_allowed {items : List Json} (small : sizeOf items ≤ bound) :
    Ensures Seen.Keyed (AllowedFields options) (fields options items) := by
  refine items_induction ?_ ?_ small
  · rw [fields.eq_def]
    exact .pure ⟨by simp, trivial⟩
  · intro item items small others
    rw [fields.eq_def]
    refine .step fun part _ => .step fun name _ => ?_
    obtain ⟨members, smaller⟩ := part
    have single := memberValue_allowed inner (show sizeOf members ≤ bound by omega)
    refine (single "value" "composite field").bind fun v allowed => ?_
    refine others.bind fun rest alloweds => .pure ⟨?_, allowed, alloweds.2⟩
    exact List.forall_mem_cons.2 ⟨rfl, alloweds.1⟩

private theorem composite_allowed {json : Json} (small : sizeOf json ≤ bound)
    {kind : DeclarationKind} (concrete : kind.isInterface = false) :
    Ensures Seen.Keyed (·.Every (Allowed options)) (composite options kind json) := by
  rw [composite.eq_def]
  refine .step fun part _ => .step fun id _ => .step fun inside _ => .step fun list _ => ?_
  obtain ⟨members, smaller⟩ := part
  obtain ⟨fields, smaller'⟩ := inside
  obtain ⟨items, smaller''⟩ := list
  dsimp only at smaller' smaller''
  exact (fields_allowed inner (by omega)).bind fun fields allowed =>
    .pure ⟨⟨concrete, allowed.1⟩, allowed.2⟩

private theorem range_allowed {json : Json} (small : sizeOf json ≤ bound) :
    Ensures Seen.Keyed (·.Every (Allowed options)) (range options json) := by
  rw [range.eq_def]
  refine .step fun part _ => ?_
  obtain ⟨members, smaller⟩ := part
  have single := memberValue_allowed inner (show sizeOf members ≤ bound by omega)
  exact (single "start" _).bind fun start one => (single "end" _).bind fun stop two =>
    (single "step" _).bind fun step three => .pure ⟨trivial, one, two, three⟩

end parts

/-- A capability is known by a path only in the older form, and is then without an identifier. -/
theorem capabilityTarget_allowed :
    Ensures Seen.Keyed (fun target : UInt64 × Option Path =>
        target.2 ≠ none → options.olderForms = true ∧ target.1 = 0)
      (capabilityTarget options members) := by
  rw [capabilityTarget.eq_def]
  cases members.part? "path" with
  | none => exact .step fun id _ => .pure fun path => absurd rfl path
  | some part =>
    dsimp only
    split
    next older =>
      refine (visits_value part.val).ensures.bind fun v _ => ?_
      cases v with
      | path place => exact .pure fun _ => ⟨(Bool.and_eq_true_iff.1 older).1, rfl⟩
      | _ => exact .throw
    next => exact .step fun id _ => .pure fun path => absurd rfl path

private theorem capability_allowed (json : Json) :
    Ensures Seen.Keyed (·.Every (Allowed options)) (capability options json) := by
  rw [capability.eq_def]
  refine .step fun part _ => capabilityTarget_allowed.bind fun target allowed => ?_
  refine .step fun inside _ => .step fun owner _ => ?_
  exact (statedType_ensures "borrowType").bind fun borrowed types => .pure ⟨allowed, types⟩

private theorem value_allowed (json : Json) :
    Ensures Seen.Keyed (·.Every (Allowed options)) (value options json) := by
  induction json using (measure (sizeOf : Json → Nat)).wf.induction with
  | _ json ih =>
    rw [value.eq_def]
    refine .step fun part _ => .step fun name _ => ?_
    obtain ⟨members, smaller⟩ := part
    split
    next => exact .pure trivial
    next =>
      refine .step fun inside _ => ?_
      obtain ⟨payload, smaller'⟩ := inside
      have inner : ∀ part : Json, sizeOf part < sizeOf payload →
          Ensures Seen.Keyed (·.Every (Allowed options)) (value options part) :=
        fun part small => ih part (Nat.lt_trans small (Nat.lt_trans smaller' smaller))
      cases ValueKind.ofName? name with
      | none => exact .throw
      | some kind =>
        have scalar : Ensures Seen.Keyed (Value.Every (Allowed options)) _ :=
          scalarValue_allowed kind payload (.unknownValueKind name)
        cases kind with
        | optional =>
          dsimp only
          split
          next => exact .pure trivial
          next =>
            exact (ih payload (Nat.lt_trans smaller' smaller)).bind fun content allowed =>
              .pure ⟨trivial, allowed⟩
        | array =>
          refine .step fun part _ => ?_
          obtain ⟨items, smaller''⟩ := part
          exact (values_allowed inner (Nat.le_of_lt smaller'')).bind fun elements allowed =>
            .pure ⟨trivial, allowed⟩
        | dictionary =>
          refine .step fun part _ => ?_
          obtain ⟨items, smaller''⟩ := part
          exact (entries_allowed inner (Nat.le_of_lt smaller'')).bind fun entries allowed =>
            .pure ⟨trivial, allowed⟩
        | composite kind =>
          dsimp only
          split
          next => exact .throw
          next concrete =>
            exact composite_allowed inner (Nat.le_refl _) (Bool.not_eq_true _ ▸ concrete)
        | capability => exact capability_allowed payload
        | type => exact typeValue_allowed payload
        | function => exact functionValue_allowed payload
        | inclusiveRange => exact range_allowed inner (Nat.le_refl _)
        | _ => exact scalar

theorem decode_allowed {payload : List UInt8} {v : Value}
    (decoded : decode options payload = .ok v) : v.Every (Allowed options) := by
  unfold decode at decoded
  split at decoded
  next => cases decoded
  next json _ =>
    obtain ⟨after, read⟩ := run'_eq_ok.1 decoded
    exact (value_allowed json [] v after .nil read).1

/-- The type as such is written today, and not only in the older forms. -/
def CurrentType : StaticType → Prop
  | .reference .legacy _ | .restricted _ _ => False
  | _ => True

def Pathless : Value → Prop
  | .capability held => held.path = none
  | _ => True

theorem AllowedType.current (older : options.olderForms = false) {type : StaticType}
    (allowed : AllowedType options type) : CurrentType type := by
  have refused : options.olderForms ≠ true := by simp [older]
  cases type with
  | reference granted =>
    cases granted with
    | legacy => exact refused allowed
    | _ => trivial
  | restricted => exact refused allowed
  | _ => trivial

theorem AllowedType.hasForm (unresolved : options.unresolvedTypes = false) {type : StaticType}
    (allowed : AllowedType options type) : type.HasForm := by
  cases type with
  | unstructured =>
    have known : options.unresolvedTypes = true := allowed
    simp [unresolved] at known
  | _ => trivial

theorem Allowed.typesEvery {v : Value} (allowed : Allowed options v) :
    v.TypesEvery (AllowedType options) := by
  cases v with
  | composite declared fields =>
    intro field member
    rw [allowed.2 field member]
    trivial
  | capability => exact allowed.2
  | type | function => exact allowed
  | _ => trivial

theorem Allowed.pathless (older : options.olderForms = false) {v : Value}
    (allowed : Allowed options v) : Pathless v := by
  cases v with
  | capability held =>
    by_contra path
    have known : options.olderForms = true := (allowed.1 path).1
    simp [older] at known
  | _ => trivial

/-- What is read while the older forms are refused holds nothing of them, in no type at any depth
and in no capability. What is read while identifiers must resolve holds no type of which only the
identifier is known. -/
theorem decode_current {payload : List UInt8} {v : Value}
    (decoded : decode options payload = .ok v) :
    (options.olderForms = false →
      v.Every fun part => part.TypesEvery CurrentType ∧ Pathless part) ∧
    (options.unresolvedTypes = false →
      v.Every fun part => part.TypesEvery StaticType.HasForm) := by
  have allowed := decode_allowed decoded
  constructor
  · intro older
    refine allowed.imp fun part here => ⟨?_, here.pathless older⟩
    exact here.typesEvery.imp fun _ => AllowedType.current older
  · intro unresolved
    refine allowed.imp fun part here => ?_
    exact here.typesEvery.imp fun _ => AllowedType.hasForm unresolved

/-- References that are said to be authorized in the older form, which is passed over. -/
theorem decode_current_authorized :
    decode .strict (Utf8.encode authorizedText) =
        .ok (.type (some (.reference .unauthorized (.simple (.integer .int))))) ∧
      (Value.type (some (.reference .unauthorized (.simple (.integer .int))))).Every
        (fun part => part.TypesEvery CurrentType ∧ Pathless part) ∧
      (Value.type (some (.reference .unauthorized (.simple (.integer .int))))).Every
        (·.TypesEvery StaticType.HasForm) := by
  have decoded : decode .strict (Utf8.encode authorizedText) = _ := decode_authorizedText rfl
  exact ⟨decoded, (decode_current decoded).1 rfl, (decode_current decoded).2 rfl⟩

end CadenceWire.JsonCdc
