import CadenceWire.Proofs.JsonCdc.Declaration
import CadenceWire.Proofs.Value.Ungranted

/-!
Types that are read with more options allowed. They are read as the same, except that references may
say in the older form that they are entitled to something else than in the current one.
-/
namespace CadenceWire.JsonCdc

section following

variable {σ ε α β γ δ : Type}

/-- Wherever the first reading succeeds, so does the second, with something alike and the same state
left behind. -/
def Follows (alike : α → α → Prop) (first second : StateT σ (Except ε) α) : Prop :=
  ∀ before result after, Yields first before result after →
    ∃ other, Yields second before other after ∧ alike result other

theorem Follows.pure {alike : α → α → Prop} {a b : α} (related : alike a b) :
    Follows alike (pure a : StateT σ (Except ε) α) (pure b) := by
  intro before result after read
  obtain ⟨rfl, rfl⟩ := yields_pure.1 read
  exact ⟨b, .pure _ _, related⟩

theorem Follows.throw {alike : α → α → Prop} {error : ε}
    {second : StateT σ (Except ε) α} : Follows alike (throw error) second := by
  intro before result after read
  exact absurd read not_yields_throw

theorem Follows.bind {alike : α → α → Prop} {alike' : β → β → Prop}
    {first second : StateT σ (Except ε) α} {f g : α → StateT σ (Except ε) β}
    (head : Follows alike first second) (tail : ∀ a b, alike a b → Follows alike' (f a) (g b)) :
    Follows alike' (first >>= f) (second >>= g) := by
  intro before result after read
  obtain ⟨a, between, one, more⟩ := yields_bind.1 read
  obtain ⟨b, same, related⟩ := head before a between one
  obtain ⟨other, rest, related'⟩ := tail a b related between result after more
  exact ⟨other, same.bind rest, related'⟩

theorem Follows.refl (reading : StateT σ (Except ε) α) : Follows Eq reading reading :=
  fun _ result _ read => ⟨result, read, rfl⟩

/-- Steps without a state need only yield something alike themselves. -/
theorem Follows.lift_bind {alike' : β → β → Prop} {first second : Except ε α}
    {f g : α → StateT σ (Except ε) β}
    (both : ∀ a, first = .ok a → ∃ b, second = .ok b ∧ Follows alike' (f a) (g b)) :
    Follows alike' (liftM first >>= f) (liftM second >>= g) := by
  intro before result after read
  obtain ⟨a, between, one, more⟩ := yields_bind.1 read
  obtain ⟨accepted, rfl⟩ := yields_lift.1 one
  obtain ⟨b, same, tail⟩ := both a accepted
  obtain ⟨other, rest, related⟩ := tail _ result after more
  exact ⟨other, (Yields.lift same _).bind rest, related⟩

theorem Follows.step {alike' : β → β → Prop} {step : Except ε α}
    {f g : α → StateT σ (Except ε) β}
    (both : ∀ a, step = .ok a → Follows alike' (f a) (g a)) :
    Follows alike' (liftM step >>= f) (liftM step >>= g) :=
  .lift_bind fun a accepted => ⟨a, accepted, both a accepted⟩

end following

/-- Whatever the first options allow, the second do. -/
structure Options.Within (first second : Options) : Prop where
  olderForms : first.olderForms = true → second.olderForms = true
  unresolvedTypes : first.unresolvedTypes = true → second.unresolvedTypes = true

/-- A reference that says in the older form whether it is authorized says the same in the current
one. -/
def Consistent (reference : Json.Members) : Prop :=
  ∀ authorized, (reference.last? "authorized").bind Json.bool? = some authorized →
    authorization .strict reference = .ok (if authorized then .legacy else .unauthorized)

/-- The tree lies in the other one. Of several members of a name only the last counts. -/
inductive Within (part : Json) : Json → Prop
  | self : Within part part
  | item {item : Json} {items : List Json} (listed : item ∈ items) (inner : Within part item) :
      Within part (.array items)
  | member {json : Json} {members : Json.Members} {name : String}
      (found : members.last? name = some json) (inner : Within part json) :
      Within part (.object members)

/-- If things are to be kept as they are, the older form says nothing new in the tree. -/
def Clear (first second : Options) (kept : Prop) (json : Json) : Prop :=
  kept → first.olderForms = second.olderForms ∨
    ∀ members : Json.Members, Within (.object members) json →
      members.last? "kind" = some (.string "Reference") → Consistent members

section leniency

variable {first second : Options} {kept : Prop} {members : Json.Members} {json : Json}

theorem Clear.member (clear : Clear first second kept (.object members)) {name : String}
    (found : members.last? name = some json) : Clear first second kept json := by
  intro holds
  exact (clear holds).imp_right fun consistent inner within =>
    consistent inner (.member found within)

theorem Clear.item {items : List Json} (clear : Clear first second kept (.array items))
    (listed : json ∈ items) : Clear first second kept json := by
  intro holds
  exact (clear holds).imp_right fun consistent inner within =>
    consistent inner (.item listed within)

/-- Readings of lists, which take one item after the other. -/
theorem items_follow {α : Type} {alike : α → α → Prop} {bound : Nat}
    {reads reads' : List Json → Reading α} (none : Follows alike (reads []) (reads' []))
    (more : ∀ item items, sizeOf item < bound → Clear first second kept item →
      Follows alike (reads items) (reads' items) →
        Follows alike (reads (item :: items)) (reads' (item :: items)))
    {items : List Json} (small : sizeOf items ≤ bound)
    (clear : ∀ item ∈ items, Clear first second kept item) :
    Follows alike (reads items) (reads' items) := by
  induction items with
  | nil => exact none
  | cons item items ih =>
    obtain ⟨head, tail⟩ := List.forall_mem_cons.1 clear
    rw [List.cons.sizeOf_spec] at small
    exact more item items (by omega) head (ih (by omega) tail)

private theorem authorization_follows (within : first.Within second)
    (kind : members.last? "kind" = some (.string "Reference"))
    (clear : Clear first second kept (.object members)) {granted : Authorization}
    (accepted : authorization first members = .ok granted) :
    ∃ other, authorization second members = .ok other ∧ (kept → other = granted) := by
  by_cases same : first.olderForms = second.olderForms
  · refine ⟨granted, ?_, fun _ => rfl⟩
    rw [← accepted]
    simp only [authorization, same]
  · have strict : first.olderForms = false := by
      have := within.olderForms
      revert same this
      cases first.olderForms <;> cases second.olderForms <;> simp
    have lenient : second.olderForms = true := by
      revert same
      rw [strict]
      cases second.olderForms <;> simp
    cases older : (members.last? "authorized").bind Json.bool? with
    | none =>
      refine ⟨granted, ?_, fun _ => rfl⟩
      rw [← accepted]
      simp only [authorization, older, strict, lenient]
    | some authorized =>
      refine ⟨if authorized then .legacy else .unauthorized, ?_, ?_⟩
      · simp only [authorization, lenient, older]
        cases authorized <;> rfl
      · intro holds
        have consistent := (clear holds).resolve_left same members .self kind authorized older
        have strict' : authorization .strict members = authorization first members := by
          simp only [authorization, strict, Options.strict]
        rw [strict', accepted] at consistent
        exact (Except.ok.inj consistent).symm

private theorem typeReference_follows (within : first.Within second) (id : String) :
    Follows (Alike StaticType.ungranted kept) (typeReference first id)
      (typeReference second id) := by
  intro before result after read
  refine ⟨result, ?_, .refl _ _ _⟩
  rw [typeReference, yields_bind] at read ⊢
  obtain ⟨seen, between, looked, read⟩ := read
  refine ⟨seen, between, looked, ?_⟩
  split at read
  next => exact read
  next =>
    split at read
    next allowed =>
      rw [if_pos (within.unresolvedTypes allowed)]
      exact read
    next => exact absurd read not_yields_throw

/-- With more options allowed, the type is read where it was, up to what references entitle to. -/
def TypeFollows (first second : Options) (kept : Prop) (json : Json) : Prop :=
  Clear first second kept json →
    Follows (Alike StaticType.ungranted kept) (staticType first json) (staticType second json)

/-- No kind but one is that of references. -/
theorem eq_of_lookup_reference {kind : String}
    (found : TypeForm.names.lookup kind = some .reference) : kind = "Reference" := by
  obtain ⟨front, behind, names, -⟩ := List.lookup_eq_some_iff.1 found
  have member : (kind, TypeForm.reference) ∈ TypeForm.names := by
    rw [names]
    simp
  simpa [TypeForm.names] using member

section parts

variable {bound : Nat}
  (inner : ∀ part : Json, sizeOf part < bound → TypeFollows first second kept part)

include inner

private theorem memberType_follows (small : sizeOf members ≤ bound)
    (clear : Clear first second kept (.object members)) (name : String) :
    Follows (Alike StaticType.ungranted kept) (memberType first members name)
      (memberType second members name) := by
  rw [memberType.eq_def first, memberType.eq_def second]
  refine .step fun part found => ?_
  obtain ⟨json, smaller⟩ := part
  exact inner json (by omega) (clear.member (member_eq_ok.1 found))

theorem statedType_follows (small : sizeOf members ≤ bound)
    (clear : Clear first second kept (.object members)) (name : String) :
    Follows (Alike StaticType.ungrantedBound kept) (statedType first members name)
      (statedType second members name) := by
  rw [statedType.eq_def first, statedType.eq_def second]
  cases found : stated? members name with
  | none => exact .pure (.refl _ _ _)
  | some part =>
    obtain ⟨json, smaller⟩ := part
    have read := inner json (by omega) (clear.member (last?_of_stated? found))
    exact read.bind fun a b alike => .pure (alike.map some fun _ => rfl)

private theorem staticTypes_follows {items : List Json} (small : sizeOf items ≤ bound)
    (clear : ∀ item ∈ items, Clear first second kept item) :
    Follows (Alike StaticType.ungrantedOf kept) (staticTypes first items)
      (staticTypes second items) := by
  refine items_follow ?_ ?_ small clear
  · rw [staticTypes.eq_def first, staticTypes.eq_def second]
    exact .pure (.refl _ _ _)
  · intro item items small clear others
    have read := inner item small clear
    rw [staticTypes.eq_def first, staticTypes.eq_def second]
    exact read.bind fun a b alike => others.bind fun as bs alikes =>
      .pure (alike.map₂ List.cons (fun _ _ => rfl) alikes)

private theorem memberTypes_follows (small : sizeOf members ≤ bound)
    (clear : Clear first second kept (.object members)) (name : String) :
    Follows (Alike StaticType.ungrantedOf kept) (memberTypes first members name)
      (memberTypes second members name) := by
  rw [memberTypes.eq_def first, memberTypes.eq_def second]
  split
  next => exact .pure (.refl _ _ _)
  next => exact .pure (.refl _ _ _)
  next json smaller _ found =>
    refine .step fun part listed => ?_
    obtain ⟨items, smaller'⟩ := part
    have list : members.last? name = some (.array items) := by
      rw [← Json.Members.map_part?, found, ← show json = .array items from eq_of_array listed]
      rfl
    exact staticTypes_follows inner (by omega) fun item member => (clear.member list).item member

private theorem fieldTypes_follows {items : List Json} (small : sizeOf items ≤ bound)
    (clear : ∀ item ∈ items, Clear first second kept item) :
    Follows (Alike id kept) (fieldTypes first items) (fieldTypes second items) := by
  refine items_follow ?_ ?_ small clear
  · rw [fieldTypes.eq_def first, fieldTypes.eq_def second]
    exact .pure (.refl _ _ _)
  · intro item items small clear others
    rw [fieldTypes.eq_def first, fieldTypes.eq_def second]
    refine .step fun part found => ?_
    obtain ⟨members, smaller⟩ := part
    have same : item = .object members := eq_of_object found
    have read := memberType_follows inner (by omega) (same ▸ clear) "type"
    exact read.bind fun a b _ => others

private theorem typeParameters_follows {items : List Json} (small : sizeOf items ≤ bound)
    (clear : ∀ item ∈ items, Clear first second kept item) :
    Follows (Alike TypeParameter.ungrantedOf kept) (typeParameters first items)
      (typeParameters second items) := by
  refine items_follow ?_ ?_ small clear
  · rw [typeParameters.eq_def first, typeParameters.eq_def second]
    exact .pure (.refl _ _ _)
  · intro item items small clear others
    rw [typeParameters.eq_def first, typeParameters.eq_def second]
    refine .step fun part found => ?_
    obtain ⟨members, smaller⟩ := part
    have same : item = .object members := eq_of_object found
    have read := statedType_follows inner (by omega) (same ▸ clear) "typeBound"
    exact read.bind fun a b alike => .step fun name _ => others.bind fun as bs alikes =>
      .pure (alike.map₂ (fun bound rest => .named name bound :: rest) (fun _ _ => rfl) alikes)

private theorem parameters_follows {items : List Json} (small : sizeOf items ≤ bound)
    (clear : ∀ item ∈ items, Clear first second kept item) :
    Follows (Alike Parameter.ungrantedOf kept) (parameters first items)
      (parameters second items) := by
  refine items_follow ?_ ?_ small clear
  · rw [parameters.eq_def first, parameters.eq_def second]
    exact .pure (.refl _ _ _)
  · intro item items small clear others
    rw [parameters.eq_def first, parameters.eq_def second]
    refine .step fun part found => ?_
    obtain ⟨members, smaller⟩ := part
    have same : item = .object members := eq_of_object found
    have read := memberType_follows inner (by omega) (same ▸ clear) "type"
    exact read.bind fun a b alike => others.bind fun as bs alikes =>
      .pure (alike.map₂ (fun type rest => .labelled (textOrNone members "label")
        (textOrNone members "id") type :: rest) (fun _ _ => rfl) alikes)

private theorem declaredFields_follows (small : sizeOf members ≤ bound)
    (clear : Clear first second kept (.object members)) :
    Follows (Alike id kept) (declaredFields first members) (declaredFields second members) := by
  unfold declaredFields
  cases found : items? members "fields" with
  | none => exact .pure (.refl _ _ _)
  | some part =>
    obtain ⟨items, smaller⟩ := part
    exact fieldTypes_follows inner (by omega) fun item listed =>
      (clear.member (last?_of_items? found)).item listed

private theorem declaredBase_follows (small : sizeOf members ≤ bound)
    (clear : Clear first second kept (.object members)) :
    Follows (Alike id kept) (declaredBase first members) (declaredBase second members) := by
  unfold declaredBase
  cases found : members.part? "type" with
  | none => exact .pure (.refl _ _ _)
  | some part =>
    obtain ⟨json, smaller⟩ := part
    dsimp only
    split
    next => exact .pure (.refl _ _ _)
    next =>
      have there : members.last? "type" = some json := by
        rw [← Json.Members.map_part?, found]
        rfl
      have read := inner json (by omega) (clear.member there)
      exact read.bind fun a b _ => .pure (.refl _ _ _)

private theorem nominalType_follows (small : sizeOf members ≤ bound)
    (clear : Clear first second kept (.object members)) (kind : DeclarationKind) :
    Follows (Alike id kept) (nominalType first kind members) (nominalType second kind members) := by
  rw [nominalType_steps, nominalType_steps]
  exact .step fun name _ => (Follows.refl _).bind fun _ _ _ =>
    (declaredFields_follows inner small clear).bind fun _ _ _ =>
      (declaredBase_follows inner small clear).bind fun _ _ _ => .pure (.refl _ _ _)

private theorem signatureTypes_follows (small : sizeOf members ≤ bound)
    (clear : Clear first second kept (.object members)) :
    Follows (Alike TypeParameter.ungrantedOf kept) (signatureTypes first members)
      (signatureTypes second members) := by
  unfold signatureTypes
  cases found : items? members "typeParameters" with
  | none => exact .pure (.refl _ _ _)
  | some part =>
    obtain ⟨items, smaller⟩ := part
    exact typeParameters_follows inner (by omega) fun item listed =>
      (clear.member (last?_of_items? found)).item listed

private theorem functionType_follows (small : sizeOf members ≤ bound)
    (clear : Clear first second kept (.object members)) :
    Follows (Alike FunctionType.ungranted kept) (functionType first members)
      (functionType second members) := by
  rw [functionType_steps, functionType_steps]
  refine (signatureTypes_follows inner small clear).bind fun types types' outer => ?_
  refine .step fun part there => .step fun list listed => ?_
  obtain ⟨json, smaller⟩ := part
  obtain ⟨items, smaller'⟩ := list
  dsimp only at smaller'
  have whole : members.last? "parameters" = some (.array items) := by
    rw [member_eq_ok.1 there, ← show json = .array items from eq_of_array listed]
  refine (parameters_follows inner (by omega) fun item listed =>
    (clear.member whole).item listed).bind fun parameters parameters' middle => ?_
  refine (memberType_follows inner small clear "return").bind fun result result' last => ?_
  refine .pure ⟨?_, ?_⟩
  · simp only [FunctionType.ungranted, outer.ungranted, middle.ungranted, last.ungranted]
  · intro holds
    rw [outer.same holds, middle.same holds, last.same holds]

private theorem formType_follows (within : first.Within second) (small : sizeOf members ≤ bound)
    (clear : Clear first second kept (.object members)) {kind : String} {form : TypeForm}
    (stated : members.last? "kind" = some (.string kind))
    (known : TypeForm.names.lookup kind = some form) :
    Follows (Alike StaticType.ungranted kept) (formType first members kind form)
      (formType second members kind form) := by
  have single := memberType_follows inner small clear
  have optional := statedType_follows inner small clear
  have several := memberTypes_follows inner small clear
  cases form with
  | optional =>
    exact (single "type").bind fun a b alike => .pure (alike.map StaticType.optional fun _ => rfl)
  | variableArray =>
    exact (single "type").bind fun a b alike =>
      .pure (alike.map StaticType.variableArray fun _ => rfl)
  | constantArray =>
    exact .step fun size _ => (single "type").bind fun a b alike =>
      .pure (alike.map (StaticType.constantArray size) fun _ => rfl)
  | dictionary =>
    exact (single "key").bind fun a b keys => (single "value").bind fun c d values =>
      .pure (keys.map₂ StaticType.dictionary (fun _ _ => rfl) values)
  | reference =>
    obtain rfl := eq_of_lookup_reference known
    refine .lift_bind fun granted accepted => ?_
    obtain ⟨other, accepted', same⟩ := authorization_follows within stated clear accepted
    refine ⟨other, accepted', (single "type").bind fun a b alike => .pure ⟨?_, ?_⟩⟩
    · simp only [StaticType.ungranted, alike.ungranted]
    · intro holds
      rw [same holds, alike.same holds]
  | intersection =>
    exact (several "types").bind fun a b alike =>
      .pure (alike.map StaticType.intersection fun _ => rfl)
  | restriction =>
    dsimp only [formType]
    split
    next older =>
      rw [if_pos (within.olderForms older)]
      refine (optional "type").bind fun a b alike => ?_
      rcases alike.bound_cases with ⟨rfl, rfl⟩ | ⟨base, base', rfl, rfl, outer⟩
      · exact (several "restrictions").bind fun a b alike =>
          .pure (alike.map StaticType.intersection fun _ => rfl)
      · exact (several "restrictions").bind fun a b alike =>
          .pure (outer.map₂ StaticType.restricted (fun _ _ => rfl) alike)
    next => exact .throw
  | capability =>
    refine (optional "type").bind fun a b alike => ?_
    rcases alike.bound_cases with ⟨rfl, rfl⟩ | ⟨borrowed, borrowed', rfl, rfl, inner⟩
    · exact .pure (.refl _ _ _)
    · exact .pure (inner.map StaticType.capabilityOf fun _ => rfl)
  | inclusiveRange =>
    exact (single "element").bind fun a b alike =>
      .pure (alike.map StaticType.inclusiveRange fun _ => rfl)
  | function =>
    dsimp only [formType]
    split
    next =>
      exact (functionType_follows inner small clear).bind fun a b alike =>
        .pure (alike.map StaticType.function fun _ => rfl)
    next => exact .pure (.refl _ _ _)

private theorem wordType_follows (small : sizeOf members ≤ bound)
    (clear : Clear first second kept (.object members)) (kind : String) :
    Follows (Alike StaticType.ungranted kept) (wordType first members kind)
      (wordType second members kind) := by
  unfold wordType
  cases DeclarationKind.ofName? kind with
  | some declared =>
    exact (nominalType_follows inner small clear declared).bind fun a b alike =>
      .pure (alike.map StaticType.nominal fun _ => rfl)
  | none =>
    cases SimpleType.ofId? kind with
    | some simple => exact .pure (.refl _ _ _)
    | none => exact .throw

end parts

theorem staticType_follows (within : first.Within second) (json : Json) :
    TypeFollows first second kept json := by
  induction json using (measure (sizeOf : Json → Nat)).wf.induction with
  | _ json ih =>
    intro clear
    rw [staticType_steps, staticType_steps]
    cases json.text? with
    | some id => exact typeReference_follows within id
    | none =>
      refine .step fun part found => .step fun kind named => ?_
      obtain ⟨members, smaller⟩ := part
      rw [show json = .object members from eq_of_object found] at clear
      have inner : ∀ part : Json, sizeOf part < sizeOf members →
          TypeFollows first second kept part :=
        fun part small => ih part (Nat.lt_trans small smaller)
      cases known : TypeForm.names.lookup kind with
      | none => exact wordType_follows inner (Nat.le_refl _) clear kind
      | some form =>
        exact formType_follows inner within (Nat.le_refl _) clear (textMember_eq_ok.1 named) known

end leniency

end CadenceWire.JsonCdc
