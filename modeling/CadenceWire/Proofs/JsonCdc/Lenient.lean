import CadenceWire.Proofs.JsonCdc.LenientType
import CadenceWire.Proofs.JsonCdc.WrittenTree
import CadenceWire.Value.Equality

/-!
Readers that allow more. Whatever payload is accepted with fewer options allowed is accepted with
more of them, as the same value but for what references entitle to.
-/
namespace CadenceWire.JsonCdc

section leniency

variable {first second : Options} {kept : Prop} {members : Json.Members} {json : Json}

private theorem numberText_within (within : first.Within second) {kind text : String}
    (accepted : numberText first kind json = .ok text) :
    numberText second kind json = .ok text := by
  unfold numberText at accepted ⊢
  split at accepted
  next => exact accepted
  next =>
    split at accepted
    next allowed =>
      simp only [if_pos (within.olderForms allowed)]
      exact accepted
    next => cases accepted
  next => cases accepted

private theorem integer_within (within : first.Within second) {kind : IntegerKind} {n : Integer}
    (accepted : integer first kind json = .ok n) : integer second kind json = .ok n := by
  obtain ⟨literal, text, read⟩ := bind_eq_ok.1 accepted
  exact bind_eq_ok.2 ⟨literal, numberText_within within text, read⟩

private theorem fixedPoint_within (within : first.Within second) {kind : FixedPointKind}
    {n : FixedPoint}
    (accepted : fixedPoint first kind json = .ok n) : fixedPoint second kind json = .ok n := by
  obtain ⟨literal, text, read⟩ := bind_eq_ok.1 accepted
  exact bind_eq_ok.2 ⟨literal, numberText_within within text, read⟩

private theorem addressDigits?_within (within : first.Within second) {literal digits : List Char}
    (found : addressDigits? first literal = some digits) :
    addressDigits? second literal = some digits := by
  unfold addressDigits? at found ⊢
  split at found
  next => exact found
  next =>
    split at found
    next allowed =>
      simp only [if_pos (within.olderForms allowed)]
      exact found
    next => cases found

private theorem address_within (within : first.Within second) {owner : Address}
    (accepted : address first json = .ok owner) : address second json = .ok owner := by
  obtain ⟨literal, text, read⟩ := bind_eq_ok.1 accepted
  refine bind_eq_ok.2 ⟨literal, text, ?_⟩
  split at read
  next found =>
    obtain ⟨digits, listed, denoted⟩ := Option.bind_eq_some_iff.1 found
    have found' : (addressDigits? second literal.toList >>= Address.ofDigits?) = some _ :=
      Option.bind_eq_some_iff.2 ⟨digits, addressDigits?_within within listed, denoted⟩
    rw [found']
    exact read
  next => exact absurd read throw_ne_ok

private theorem scalar?_follows (within : first.Within second) (kind : ValueKind) (json : Json) :
    match scalar? first kind json, scalar? second kind json with
    | some read, some read' => ∀ v, read = .ok v → read' = .ok v
    | none, none => True
    | _, _ => False := by
  cases kind with
  | address =>
    intro v accepted
    obtain ⟨owner, read, rfl⟩ := map_eq_ok.1 accepted
    exact map_eq_ok.2 ⟨owner, address_within within read, rfl⟩
  | integer kind =>
    intro v accepted
    obtain ⟨n, read, rfl⟩ := map_eq_ok.1 accepted
    exact map_eq_ok.2 ⟨n, integer_within within read, rfl⟩
  | fixedPoint kind =>
    intro v accepted
    obtain ⟨n, read, rfl⟩ := map_eq_ok.1 accepted
    exact map_eq_ok.2 ⟨n, fixedPoint_within within read, rfl⟩
  | bool | string | character | path => exact fun _ accepted => accepted
  | _ => trivial

private theorem scalarValue_follows (within : first.Within second) (kind : ValueKind) (json : Json)
    (failure : Failure) :
    Follows (Alike Value.ungranted kept)
      (match scalar? first kind json with
        | some read => (liftM read : Reading Value)
        | none => throw failure)
      (match scalar? second kind json with
        | some read => (liftM read : Reading Value)
        | none => throw failure) := by
  have related := scalar?_follows within kind json
  revert related
  cases scalar? first kind json with
  | none => exact fun _ => .throw
  | some read =>
    cases scalar? second kind json with
    | none => exact False.elim
    | some read' =>
      intro related before v after yields
      obtain ⟨accepted, rfl⟩ := yields_lift.1 yields
      exact ⟨v, .lift (related v accepted) _, .refl _ _ _⟩

/-- With more options allowed, the value is read where it was, up to what references entitle to. -/
def ValueFollows (first second : Options) (kept : Prop) (json : Json) : Prop :=
  Clear first second kept json →
    Follows (Alike Value.ungranted kept) (value first json) (value second json)

private theorem statedType_within (within : first.Within second)
    (clear : Clear first second kept (.object members)) (name : String) :
    Follows (Alike StaticType.ungrantedBound kept) (statedType first members name)
      (statedType second members name) :=
  statedType_follows (fun part _ => staticType_follows within part) (Nat.le_refl _) clear name

private theorem typeValue_follows (within : first.Within second)
    (clear : Clear first second kept json) :
    Follows (Alike Value.ungranted kept) (typeValue first json) (typeValue second json) := by
  refine .step fun part found => ?_
  obtain ⟨members, smaller⟩ := part
  have whole : json = .object members := eq_of_object found
  rw [whole] at clear
  exact (statedType_within within clear "staticType").bind fun a b alike =>
    .pure (alike.map Value.type fun _ => rfl)

private theorem functionValue_follows (within : first.Within second)
    (clear : Clear first second kept json) :
    Follows (Alike Value.ungranted kept) (functionValue first json)
      (functionValue second json) := by
  refine .step fun part found => .step fun inside there => ?_
  obtain ⟨members, smaller⟩ := part
  obtain ⟨type, smaller'⟩ := inside
  have whole : json = .object members := eq_of_object found
  rw [whole] at clear
  have read := staticType_follows within type (clear.member (member_eq_ok.1 there))
  refine read.bind fun a b alike => ?_
  cases a with
  | function signature =>
    obtain ⟨own, rfl, same⟩ := StaticType.function_of_ungranted alike.ungranted
    refine .pure ⟨?_, ?_⟩
    · simp only [Value.ungranted, same]
    · intro holds
      rw [StaticType.function.inj (alike.same holds)]
  | _ => exact .throw

private theorem capabilityId_within (within : first.Within second) {id : UInt64}
    (accepted : capabilityTarget.capabilityId first members = .ok id) :
    capabilityTarget.capabilityId second members = .ok id ∧ members.has "id" = true := by
  obtain ⟨part, there, read⟩ := bind_eq_ok.1 accepted
  obtain ⟨n, number, same⟩ := bind_eq_ok.1 read
  have number' := integer_within within number
  refine ⟨bind_eq_ok.2 ⟨part, there, bind_eq_ok.2 ⟨n, number', same⟩⟩, ?_⟩
  rw [Json.Members.has, member_eq_ok.1 there]
  rfl

section parts

variable {bound : Nat}
  (inner : ∀ part : Json, sizeOf part < bound → ValueFollows first second kept part)

include inner

private theorem values_follows {items : List Json} (small : sizeOf items ≤ bound)
    (clear : ∀ item ∈ items, Clear first second kept item) :
    Follows (Alike Value.ungrantedOf kept) (values first items) (values second items) := by
  refine items_follow ?_ ?_ small clear
  · rw [values.eq_def first, values.eq_def second]
    exact .pure (.refl _ _ _)
  · intro item items small clear others
    have read := inner item small clear
    rw [values.eq_def first, values.eq_def second]
    exact read.bind fun a b alike => others.bind fun as bs alikes =>
      .pure (alike.map₂ List.cons (fun _ _ => rfl) alikes)

private theorem memberValue_follows (small : sizeOf members ≤ bound)
    (clear : Clear first second kept (.object members)) (name context : String) :
    Follows (Alike Value.ungranted kept) (memberValue first members name context)
      (memberValue second members name context) := by
  rw [memberValue.eq_def first, memberValue.eq_def second]
  refine .step fun part found => ?_
  obtain ⟨json, smaller⟩ := part
  exact inner json (by omega) (clear.member (member_eq_ok.1 found))

private theorem entries_follows {items : List Json} (small : sizeOf items ≤ bound)
    (clear : ∀ item ∈ items, Clear first second kept item) :
    Follows (Alike Value.ungrantedEntries kept) (entries first items) (entries second items) := by
  refine items_follow ?_ ?_ small clear
  · rw [entries.eq_def first, entries.eq_def second]
    exact .pure (.refl _ _ _)
  · intro item items small clear others
    rw [entries.eq_def first, entries.eq_def second]
    refine .step fun part found => ?_
    obtain ⟨members, smaller⟩ := part
    have same : item = .object members := eq_of_object found
    have small' : sizeOf members ≤ bound := by omega
    have single := memberValue_follows inner small' (same ▸ clear)
    refine (single "key" _).bind fun key key' keys => ?_
    refine (single "value" _).bind fun v v' alike => others.bind fun rest rest' alikes => ?_
    refine .pure ⟨?_, ?_⟩
    · simp only [Value.ungrantedEntries, keys.ungranted, alike.ungranted, alikes.ungranted]
    · intro holds
      rw [keys.same holds, alike.same holds, alikes.same holds]

private theorem fields_follows {items : List Json} (small : sizeOf items ≤ bound)
    (clear : ∀ item ∈ items, Clear first second kept item) :
    Follows (Alike Value.ungrantedFields kept) (fields first items) (fields second items) := by
  refine items_follow ?_ ?_ small clear
  · rw [fields.eq_def first, fields.eq_def second]
    exact .pure (.refl _ _ _)
  · intro item items small clear others
    rw [fields.eq_def first, fields.eq_def second]
    refine .step fun part found => .step fun name _ => ?_
    obtain ⟨members, smaller⟩ := part
    have same : item = .object members := eq_of_object found
    have read := memberValue_follows inner (by omega) (same ▸ clear) "value" "composite field"
    exact read.bind fun a b alike => others.bind fun as bs alikes =>
      .pure (alike.map₂ (fun v rest => (⟨name, none⟩, v) :: rest) (fun _ _ => rfl) alikes)

private theorem composite_follows (small : sizeOf json ≤ bound)
    (clear : Clear first second kept json) (kind : DeclarationKind) :
    Follows (Alike Value.ungranted kept) (composite first kind json)
      (composite second kind json) := by
  rw [composite.eq_def first, composite.eq_def second]
  refine .step fun part found => .step fun id _ => .step fun inside there =>
    .step fun list listed => ?_
  obtain ⟨members, smaller⟩ := part
  obtain ⟨fields, smaller'⟩ := inside
  obtain ⟨items, smaller''⟩ := list
  dsimp only at smaller' smaller''
  have whole : json = .object members := eq_of_object found
  rw [whole] at clear
  have array : members.last? "fields" = some (.array items) := by
    rw [member_eq_ok.1 there, ← show fields = .array items from eq_of_array listed]
  exact (fields_follows inner (by omega) fun item listed =>
    (clear.member array).item listed).bind fun a b alike =>
      .pure (alike.map (Value.composite ⟨kind, id⟩) fun _ => rfl)

private theorem range_follows (small : sizeOf json ≤ bound) (clear : Clear first second kept json) :
    Follows (Alike Value.ungranted kept) (range first json) (range second json) := by
  rw [range.eq_def first, range.eq_def second]
  refine .step fun part found => ?_
  obtain ⟨members, smaller⟩ := part
  have whole : json = .object members := eq_of_object found
  rw [whole] at clear
  have single := memberValue_follows inner (show sizeOf members ≤ bound by omega) clear
  refine (single "start" _).bind fun start start' one => ?_
  refine (single "end" _).bind fun stop stop' two => ?_
  refine (single "step" _).bind fun step step' three => ?_
  refine .pure ⟨?_, ?_⟩
  · simp only [Value.ungranted, one.ungranted, two.ungranted, three.ungranted]
  · intro holds
    rw [one.same holds, two.same holds, three.same holds]

private theorem capabilityTarget_follows (within : first.Within second)
    (small : sizeOf members ≤ bound) (clear : Clear first second kept (.object members)) :
    Follows Eq (capabilityTarget first members) (capabilityTarget second members) := by
  have known : Follows Eq
      (liftM (capabilityTarget.capabilityId first members) >>= fun id => pure (id, none) :
        Reading (UInt64 × Option Path))
      (liftM (capabilityTarget.capabilityId second members) >>= fun id => pure (id, none)) :=
    .lift_bind fun id accepted => ⟨id, (capabilityId_within within accepted).1, .pure rfl⟩
  rw [capabilityTarget.eq_def first, capabilityTarget.eq_def second]
  cases found : members.part? "path" with
  | none => exact known
  | some part =>
    obtain ⟨json, smaller⟩ := part
    have there : members.last? "path" = some json := by
      rw [← Json.Members.map_part?, found]
      rfl
    have read := inner json (by omega) (clear.member there)
    cases identified : members.has "id" with
    | true =>
      simp only [Bool.not_true, Bool.and_false, Bool.false_eq_true, if_false]
      exact known
    | false =>
      cases older : first.olderForms with
      | true =>
        simp only [within.olderForms older, Bool.not_false, Bool.and_true, if_true]
        refine read.bind fun a b alike => ?_
        cases a with
        | path place =>
          obtain rfl := Value.path_of_ungranted alike.ungranted
          exact .pure rfl
        | _ => exact .throw
      | false =>
        -- Without the older form there has to be an identifier.
        simp only [Bool.false_and, Bool.false_eq_true, if_false]
        intro before result after read
        obtain ⟨id, between, lifted, -⟩ := yields_bind.1 read
        have present := (capabilityId_within within (yields_lift.1 lifted).1).2
        rw [identified] at present
        cases present

private theorem capability_follows (within : first.Within second) (small : sizeOf json ≤ bound)
    (clear : Clear first second kept json) :
    Follows (Alike Value.ungranted kept) (capability first json) (capability second json) := by
  rw [capability.eq_def first, capability.eq_def second]
  refine .step fun part found => ?_
  obtain ⟨members, smaller⟩ := part
  have whole : json = .object members := eq_of_object found
  rw [whole] at clear
  refine (capabilityTarget_follows inner within (by omega) clear).bind fun target target' same => ?_
  subst same
  refine .step fun inside _ => .lift_bind fun owner accepted => ?_
  refine ⟨owner, address_within within accepted, ?_⟩
  exact (statedType_within within clear "borrowType").bind fun a b alike =>
    .pure (alike.map (fun borrowed => Value.capability ⟨target.1, owner, borrowed, target.2⟩)
      fun _ => rfl)

end parts

private theorem value_follows (within : first.Within second) (json : Json) :
    ValueFollows first second kept json := by
  induction json using (measure (sizeOf : Json → Nat)).wf.induction with
  | _ json ih =>
    intro clear
    rw [value.eq_def first, value.eq_def second]
    refine .step fun part found => ?_
    obtain ⟨members, smaller⟩ := part
    have whole : json = .object members := eq_of_object found
    rw [whole] at clear
    refine .step fun name _ => ?_
    split
    next => exact .pure (.refl _ _ _)
    next =>
      refine .step fun inside there => ?_
      obtain ⟨payload, smaller'⟩ := inside
      replace clear : Clear first second kept payload := clear.member (member_eq_ok.1 there)
      have inner : ∀ part : Json, sizeOf part < sizeOf payload →
          ValueFollows first second kept part :=
        fun part small => ih part (Nat.lt_trans small (Nat.lt_trans smaller' smaller))
      cases ValueKind.ofName? name with
      | none => exact .throw
      | some kind =>
        have scalar : Follows (Alike Value.ungranted kept) _ _ :=
          scalarValue_follows within kind payload (.unknownValueKind name)
        cases kind with
        | optional =>
          dsimp only
          split
          next => exact .pure (.refl _ _ _)
          next =>
            exact (ih payload (Nat.lt_trans smaller' smaller) clear).bind fun a b alike =>
              .pure (alike.map Value.present fun _ => rfl)
        | array =>
          refine .step fun part listed => ?_
          obtain ⟨items, smaller''⟩ := part
          rw [show payload = .array items from eq_of_array listed] at clear
          have read := values_follows inner (Nat.le_of_lt smaller'') fun item => clear.item
          exact read.bind fun a b alike => .pure (alike.map Value.array fun _ => rfl)
        | dictionary =>
          refine .step fun part listed => ?_
          obtain ⟨items, smaller''⟩ := part
          rw [show payload = .array items from eq_of_array listed] at clear
          have read := entries_follows inner (Nat.le_of_lt smaller'') fun item => clear.item
          exact read.bind fun a b alike => .pure (alike.map Value.dictionary fun _ => rfl)
        | composite kind =>
          dsimp only
          split
          next => exact .throw
          next => exact composite_follows inner (Nat.le_refl _) clear kind
        | capability => exact capability_follows inner within (Nat.le_refl _) clear
        | type => exact typeValue_follows within clear
        | function => exact functionValue_follows within clear
        | inclusiveRange => exact range_follows inner (Nat.le_refl _) clear
        | _ => exact scalar

end leniency

/-- With more options allowed, what was accepted is accepted, with an equal value up to what
references entitle to. The value is the same if the older forms were allowed before, or if no
reference says anything new in the older form. -/
theorem decode_within {first second : Options} (within : first.Within second)
    {payload : List UInt8} {v : Value} (accepted : decode first payload = .ok v) :
    ∃ w, decode second payload = .ok w ∧ w.ungranted = v.ungranted ∧
      ((first.olderForms = second.olderForms ∨
          ∀ json, Json.ofBytes? payload = some json →
            ∀ members : Json.Members, Within (.object members) json →
              members.last? "kind" = some (.string "Reference") → Consistent members) →
        w = v) := by
  unfold decode at accepted ⊢
  cases read : Json.ofBytes? payload with
  | none =>
    rw [read] at accepted
    cases accepted
  | some json =>
    simp only [read, run'_eq_ok, Option.some.injEq, forall_eq'] at accepted ⊢
    obtain ⟨after, found⟩ := accepted
    obtain ⟨w, found', alike⟩ := value_follows within json id [] v after found
    exact ⟨w, ⟨after, found'⟩, alike.ungranted, alike.same⟩

section references

/-- The text of a value that is the type of references that are said to be authorized. -/
def authorizedText : String :=
  "\x7b\"type\":\"Type\",\"value\":\x7b\"staticType\":\x7b\"kind\":\"Reference\"," ++
    "\"authorized\":true,\"type\":\x7b\"kind\":\"Int\"\x7d\x7d\x7d\x7d"

def authorizedMembers : Json.Members :=
  [("kind", .string "Reference"), ("authorized", .bool true),
    ("type", .object [("kind", .string "Int")])]

set_option maxRecDepth 4000 in
private theorem ofBytes?_authorizedText :
    Json.ofBytes? (Utf8.encode authorizedText) = some (.object [("type", .string "Type"),
      ("value", .object [("staticType", .object authorizedMembers)])]) := by
  rw [Json.ofBytes?, Utf8.decode?_encode]
  rfl

theorem decode_authorizedText {options : Options} {granted : Authorization}
    (grant : authorization options authorizedMembers = .ok granted) :
    decode options (Utf8.encode authorizedText) =
      .ok (.type (some (.reference granted (.simple (.integer .int))))) := by
  have kind : authorizedMembers.last? "kind" = some (.string "Reference") := rfl
  have form : TypeForm.names.lookup "Reference" = some .reference := by decide
  have integer : TypeTree false [] (.simple (.integer .int)) (.object [("kind", .string "Int")]) []
    := .simple rfl nofun
  have referenced := integer.yields (show false = true → options.olderForms = true by simp)
  have inner : memberType options authorizedMembers "type" = _ := memberType_of_last? rfl
  have reference : Yields (staticType options (.object authorizedMembers)) []
      (.reference granted (.simple (.integer .int))) [] := by
    rw [staticType.eq_def]
    simp only [Json.text?, object, liftM_ok, pure_bind, textMember_of_last? kind, form, grant,
      inner]
    exact referenced.bind (.pure _ _)
  have found : Json.Members.last? [("staticType", .object authorizedMembers)] "staticType" =
      some (.object authorizedMembers) := rfl
  have stated : Yields (typeValue options (.object [("staticType", .object authorizedMembers)])) []
      (.type (some (.reference granted (.simple (.integer .int))))) [] := by
    simp only [typeValue, object, liftM_ok, pure_bind,
      statedType_of_last? found (by simp) (by simp [Json.text?])]
    exact (reference.map some).bind (.pure _ _)
  let members : Json.Members :=
    [("type", .string "Type"), ("value", .object [("staticType", .object authorizedMembers)])]
  have named : members.last? "type" = some (.string ValueKind.type.name) := rfl
  have whole : value options (.object members) = typeValue options _ :=
    value_of_last? named rfl (by simp) (by simp)
  simp only [decode, ofBytes?_authorizedText, run'_eq_ok]
  exact ⟨[], whole ▸ stated⟩

/-- Where the older forms are allowed, their truth value counts whether or not more is allowed. -/
theorem decode_within_authorized :
    ∃ w, decode .lenient (Utf8.encode authorizedText) = .ok w ∧
      w = .type (some (.reference .legacy (.simple (.integer .int)))) := by
  have within : Options.Within ⟨true, false⟩ .lenient := ⟨fun _ => rfl, fun _ => rfl⟩
  have accepted : decode ⟨true, false⟩ (Utf8.encode authorizedText) = _ := decode_authorizedText rfl
  obtain ⟨w, read, -, same⟩ := decode_within within accepted
  exact ⟨w, read, same (.inl rfl)⟩

/-- Without the older forms a reference that is said to be authorized in that form is not. -/
theorem decode_authorized_differs :
    Options.Within .strict .lenient ∧
      decode .strict (Utf8.encode authorizedText) =
        .ok (.type (some (.reference .unauthorized (.simple (.integer .int))))) ∧
      decode .lenient (Utf8.encode authorizedText) =
        .ok (.type (some (.reference .legacy (.simple (.integer .int))))) ∧
      (Value.type (some (.reference .unauthorized (.simple (.integer .int))))).same
        (.type (some (.reference .legacy (.simple (.integer .int))))) = false :=
  ⟨⟨nofun, nofun⟩, decode_authorizedText rfl, decode_authorizedText rfl,
    by simp [Value.same]⟩

end references

end CadenceWire.JsonCdc
