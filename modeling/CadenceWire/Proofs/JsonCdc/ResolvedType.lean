import CadenceWire.Proofs.JsonCdc.Keyed

/-!
Identifiers of types that are read twice, with different types seen before, or with and without
types known by their identifier alone. Whether an identifier was resolved or kept, the identifier of
the type that was read is the same.
-/
namespace CadenceWire.JsonCdc

/-- The type parameters have the same names. -/
def SameNames (types types' : List TypeParameter) : Prop :=
  types.map TypeParameter.name = types'.map TypeParameter.name

theorem SameNames.typeParameterList {types types' : List TypeParameter}
    (same : SameNames types types') :
    FunctionType.typeParameterList types = FunctionType.typeParameterList types' := by
  cases types with
  | nil =>
    cases types' with
    | nil => rfl
    | cons _ _ => cases same
  | cons type types =>
    cases types' with
    | nil => cases same
    | cons type' types' =>
      rw [FunctionType.typeParameterList, FunctionType.typeParameterList, same]
      · exact nofun
      · exact nofun

/-- The types have the same identifier. -/
def SameId (type type' : StaticType) : Prop := type.id = type'.id

def SameIds (types types' : List StaticType) : Prop := StaticType.ids types = StaticType.ids types'

/-- Both types are left out, or else they have the same identifier. -/
def SameBound (bound bound' : Option StaticType) : Prop :=
  bound.map StaticType.id = bound'.map StaticType.id

theorem SameBound.cases {bound bound' : Option StaticType} (same : SameBound bound bound') :
    bound = none ∧ bound' = none ∨
      ∃ type type', bound = some type ∧ bound' = some type' ∧ SameId type type' := by
  cases bound with
  | none =>
    cases bound' with
    | none => exact .inl ⟨rfl, rfl⟩
    | some type' => cases same
  | some type =>
    cases bound' with
    | none => cases same
    | some type' => exact .inr ⟨type, type', rfl, rfl, Option.some.inj same⟩

def SameSignature (signature signature' : FunctionType) : Prop := signature.id = signature'.id

/-- An identifier alone gives a type of that identifier. -/
theorem typeReference_id (options : Options) (id : String) :
    Ensures Seen.Keyed (fun type => type.id = id) (typeReference options id) := by
  refine (typeReference_ensures options id).imp ?_
  rintro _ (⟨declared, rfl, same⟩ | ⟨rfl, -⟩)
  · exact same
  · rfl

section resolution

variable {first second : Options} {members : Json.Members}

section parts

variable {bound : Nat} (inner : ∀ part : Json, sizeOf part < bound →
  Agree Seen.Keyed SameId (staticType first part) (staticType second part))

include inner

private theorem memberType_agree (small : sizeOf members ≤ bound) (name : String) :
    Agree Seen.Keyed SameId (memberType first members name) (memberType second members name) := by
  rw [memberType.eq_def first, memberType.eq_def second]
  refine .step fun part _ => ?_
  obtain ⟨json, smaller⟩ := part
  exact inner json (by omega)

theorem statedType_agree (small : sizeOf members ≤ bound) (name : String) :
    Agree Seen.Keyed SameBound (statedType first members name)
      (statedType second members name) := by
  rw [statedType.eq_def first, statedType.eq_def second]
  cases stated? members name with
  | none => exact .pure rfl
  | some part =>
    obtain ⟨json, smaller⟩ := part
    exact (inner json (by omega)).bind fun _ _ same => .pure (congrArg some same)

private theorem staticTypes_agree {items : List Json} (small : sizeOf items ≤ bound) :
    Agree Seen.Keyed SameIds (staticTypes first items) (staticTypes second items) := by
  refine items_induction ?_ ?_ small
  · rw [staticTypes.eq_def first, staticTypes.eq_def second]
    exact .pure rfl
  · intro item items small others
    rw [staticTypes.eq_def first, staticTypes.eq_def second]
    exact (inner item small).bind fun _ _ same => others.bind fun _ _ rest =>
      .pure (congrArg₂ List.cons same rest)

private theorem memberTypes_agree (small : sizeOf members ≤ bound) (name : String) :
    Agree Seen.Keyed SameIds (memberTypes first members name)
      (memberTypes second members name) := by
  rw [memberTypes.eq_def first, memberTypes.eq_def second]
  split
  next => exact .pure rfl
  next => exact .pure rfl
  next json smaller _ _ =>
    refine .step fun part _ => ?_
    obtain ⟨items, smaller'⟩ := part
    exact staticTypes_agree inner (by omega)

private theorem parameters_agree {items : List Json} (small : sizeOf items ≤ bound) :
    Agree Seen.Keyed
      (fun parameters parameters' => Parameter.ids parameters = Parameter.ids parameters')
      (parameters first items) (parameters second items) := by
  refine items_induction ?_ ?_ small
  · rw [parameters.eq_def first, parameters.eq_def second]
    exact .pure rfl
  · intro item items small others
    rw [parameters.eq_def first, parameters.eq_def second]
    refine .step fun part _ => ?_
    obtain ⟨members, smaller⟩ := part
    exact (memberType_agree inner (by omega) "type").bind fun _ _ same =>
      others.bind fun _ _ rest => .pure (congrArg₂ List.cons same rest)

end parts

/-- Bounds of type parameters do not show in an identifier. -/
theorem typeParameters_agree (items : List Json) :
    Agree Seen.Keyed SameNames (typeParameters first items) (typeParameters second items) := by
  induction items with
  | nil =>
    rw [typeParameters.eq_def first, typeParameters.eq_def second]
    exact .pure rfl
  | cons item items ih =>
    rw [typeParameters.eq_def first, typeParameters.eq_def second]
    refine .step fun part _ => ?_
    have bound (options : Options) :
        Ensures Seen.Keyed (fun _ => True) (statedType options part.val "typeBound") :=
      (visits_statedType part.val "typeBound").ensures
    exact (Agree.of_ensures (bound first) (bound second) fun _ _ _ _ => trivial).bind fun _ _ _ =>
      .step fun name _ => ih.bind fun _ _ rest => .pure (congrArg (name :: ·) rest)

private theorem signatureTypes_agree :
    Agree Seen.Keyed SameNames (signatureTypes first members) (signatureTypes second members) := by
  unfold signatureTypes
  cases items? members "typeParameters" with
  | none => exact .pure rfl
  | some part => exact typeParameters_agree part.val

section parts

variable {bound : Nat} (inner : ∀ part : Json, sizeOf part < bound →
  Agree Seen.Keyed SameId (staticType first part) (staticType second part))

include inner

private theorem functionType_agree (small : sizeOf members ≤ bound) :
    Agree Seen.Keyed SameSignature (functionType first members) (functionType second members) := by
  rw [functionType_steps, functionType_steps]
  refine signatureTypes_agree.bind fun types types' outer => .step fun part _ =>
    .step fun list _ => ?_
  obtain ⟨json, smaller⟩ := part
  obtain ⟨items, smaller'⟩ := list
  dsimp only at smaller'
  refine (parameters_agree inner (by omega)).bind fun parameters parameters' middle => ?_
  refine (memberType_agree inner small "return").bind fun result result' last => .pure ?_
  rw [SameSignature, FunctionType.id, FunctionType.id, outer.typeParameterList, middle, last]

private theorem formType_agree (older : first.olderForms = second.olderForms)
    (small : sizeOf members ≤ bound) (kind : String) (form : TypeForm) :
    Agree Seen.Keyed SameId (formType first members kind form)
      (formType second members kind form) := by
  have single := memberType_agree inner small
  have optional := statedType_agree inner small
  have several := memberTypes_agree inner small
  cases form with
  | optional =>
    exact (single "type").bind fun _ _ same => .pure (congrArg (· ++ "?") same)
  | variableArray =>
    exact (single "type").bind fun _ _ same => .pure (congrArg ("[" ++ · ++ "]") same)
  | constantArray =>
    refine .step fun size _ => (single "type").bind fun type type' same => .pure ?_
    rw [SameId, StaticType.id, StaticType.id, same]
  | dictionary =>
    refine (single "key").bind fun key key' keys => (single "value").bind fun type type' same =>
      .pure ?_
    rw [SameId, StaticType.id, StaticType.id, keys, same]
  | reference =>
    have granted : authorization first members = authorization second members := by
      simp only [authorization, older]
    dsimp only [formType]
    rw [granted]
    refine .step fun granted _ => (single "type").bind fun type type' same => .pure ?_
    rw [SameId, StaticType.id, StaticType.id, same]
  | intersection =>
    refine (several "types").bind fun types types' same => .pure ?_
    rw [SameId, StaticType.id, StaticType.id, same]
  | restriction =>
    dsimp only [formType]
    rw [older]
    split
    next =>
      refine (optional "type").bind fun base base' stated => ?_
      rcases stated.cases with ⟨rfl, rfl⟩ | ⟨type, type', rfl, rfl, same⟩
      · refine (several "restrictions").bind fun types types' rest => .pure ?_
        rw [SameId, StaticType.id, StaticType.id, rest]
      · refine (several "restrictions").bind fun types types' rest => .pure ?_
        rw [SameId, StaticType.id, StaticType.id, same, rest]
    next => exact .throw_left _
  | capability =>
    refine (optional "type").bind fun borrowed borrowed' stated => ?_
    rcases stated.cases with ⟨rfl, rfl⟩ | ⟨type, type', rfl, rfl, same⟩
    · exact .pure rfl
    · exact .pure (congrArg ("Capability<" ++ · ++ ">") same)
  | inclusiveRange =>
    exact (single "element").bind fun _ _ same =>
      .pure (congrArg ("InclusiveRange<" ++ · ++ ">") same)
  | function =>
    dsimp only [formType]
    split
    next => exact (functionType_agree inner small).bind fun _ _ same => .pure same
    next => exact .pure rfl

end parts

private theorem wordType_agree (kind : String) :
    Agree Seen.Keyed SameId (wordType first members kind) (wordType second members kind) := by
  unfold wordType
  cases DeclarationKind.ofName? kind with
  | some declared =>
    have named (type type' : NominalType) (one : members.last? "typeID" = some (.string type.id))
        (other : members.last? "typeID" = some (.string type'.id)) : type.id = type'.id := by
      simpa using one.symm.trans other
    exact (Agree.of_ensures (nominalType_ensures first declared members)
      (nominalType_ensures second declared members) fun type type' one other =>
        named type type' one.2 other.2).bind fun _ _ same => .pure same
  | none =>
    cases SimpleType.ofId? kind with
    | some simple => exact .pure rfl
    | none => exact .throw_left _

theorem staticType_agree (older : first.olderForms = second.olderForms) (json : Json) :
    Agree Seen.Keyed SameId (staticType first json) (staticType second json) := by
  induction json using (measure (sizeOf : Json → Nat)).wf.induction with
  | _ json ih =>
    rw [staticType_steps, staticType_steps]
    cases json.text? with
    | some id =>
      exact .of_ensures (typeReference_id first id) (typeReference_id second id)
        fun _ _ one other => one.trans other.symm
    | none =>
      refine .step fun part _ => .step fun kind _ => ?_
      obtain ⟨members, smaller⟩ := part
      cases TypeForm.names.lookup kind with
      | none => exact wordType_agree kind
      | some form =>
        have inner : ∀ part : Json, sizeOf part < sizeOf members →
            Agree Seen.Keyed SameId (staticType first part) (staticType second part) :=
          fun part small => ih part (Nat.lt_trans small smaller)
        exact formType_agree inner older (Nat.le_refl _) kind form

end resolution

end CadenceWire.JsonCdc
