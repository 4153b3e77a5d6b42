import CadenceWire.Proofs.Ccf.TypeItem

/-!
Inline types and types that are values are written alike, but for their tags. An inline type written
over with the other tags is read as the same type.
-/
namespace CadenceWire.Ccf

open Cbor (Item itemInduction)

mutual

/-- The item of an inline type with the tags that types have as values. What is not a type in it
stays as it is. -/
def retagged : Item → Item
  | .tag number body =>
    match TypeForm.ofInlineTag? number with
    | none => .tag number body
    | some form => .tag form.valueTag <|
      match form with
      | .known | .simple => body
      | .optional | .variableArray | .capability | .inclusiveRange => retagged body
      | .constantArray =>
        match body with
        | .array [size, element] => .array [size, retagged element]
        | _ => body
      | .dictionary =>
        match body with
        | .array [key, value] => .array [retagged key, retagged value]
        | _ => body
      | .reference =>
        match body with
        | .array [granted, referenced] => .array [granted, retagged referenced]
        | _ => body
      | .intersection =>
        match body with
        | .array [base, .array types] => .array [retagged base, .array (retaggedItems types)]
        | .array types => .array (retaggedItems types)
        | _ => body
  | item => item

def retaggedItems : List Item → List Item
  | [] => []
  | item :: rest => retagged item :: retaggedItems rest

end

mutual

/-- The tags that occur in the item. -/
def tags : Item → List Nat
  | .tag number content => number :: tags content
  | .array items => tagsOf items
  | .map entries => tagsOfEntries entries
  | _ => []

def tagsOf : List Item → List Nat
  | [] => []
  | item :: rest => tags item ++ tagsOf rest

def tagsOfEntries : List (Item × Item) → List Nat
  | [] => []
  | (key, item) :: rest => tags key ++ tags item ++ tagsOfEntries rest

end

section matching

variable {σ ε ε' α β : Type} {state : σ}

/-- From the given state on the reading gives what the step gives, and it leaves the state. -/
def Matches (state : σ) (reading : StateT σ (Except ε) α) (step : Except ε' α) : Prop :=
  ∀ result after, Yields reading state result after ↔ step = .ok result ∧ after = state

theorem Matches.lift {part : Except ε α} {step : Except ε' α}
    (same : ∀ result, part = .ok result ↔ step = .ok result) :
    Matches state (liftM part : StateT σ (Except ε) α) step :=
  fun result _ => yields_lift.trans (and_congr_left fun _ => same result)

theorem Matches.throw {failure : ε} {failure' : ε'} :
    Matches state (throw failure : StateT σ (Except ε) α) (.error failure') := by
  intro result after
  simp

theorem Matches.pure (value : α) :
    Matches state (pure value : StateT σ (Except ε) α) (pure value : Except ε' α) := by
  intro result after
  rw [yields_pure, pure_eq_ok, eq_comm]

theorem Matches.get_bind {next : σ → StateT σ (Except ε) α} {step : Except ε' α}
    (rest : Matches state (next state) step) : Matches state (get >>= next) step := by
  intro result after
  rw [← rest result after]
  simp

theorem Matches.bind {reading : StateT σ (Except ε) α} {step : Except ε' α}
    {next : α → StateT σ (Except ε) β} {next' : α → Except ε' β} (head : Matches state reading step)
    (tail : ∀ value, Matches state (next value) (next' value)) :
    Matches state (reading >>= next) (step >>= next') := by
  intro result after
  rw [yields_bind, bind_eq_ok]
  constructor
  · rintro ⟨value, between, read, rest⟩
    obtain ⟨accepted, rfl⟩ := (head _ _).1 read
    obtain ⟨others, rfl⟩ := (tail value _ _).1 rest
    exact ⟨⟨value, accepted, others⟩, rfl⟩
  · rintro ⟨⟨value, accepted, others⟩, rfl⟩
    exact ⟨value, _, (head _ _).2 ⟨accepted, rfl⟩, (tail value _ _).2 ⟨others, rfl⟩⟩

theorem Matches.map {reading : StateT σ (Except ε) α} {step : Except ε' α}
    (same : Matches state reading step) (f : α → β) :
    Matches state (f <$> reading) (f <$> step) := by
  rw [map_eq_pure_bind, map_eq_pure_bind]
  exact same.bind fun value => .pure (f value)

/-- Two readings that leave the state may come in either order. -/
theorem Matches.bind_swapped {γ : Type} {first : StateT σ (Except ε) α}
    {second : StateT σ (Except ε) β} {step : Except ε' α} {step' : Except ε' β} (f : α → β → γ)
    (head : Matches state first step) (tail : Matches state second step') :
    Matches state (do return f (← first) (← second))
      (do let value ← step'; return f (← step) value) := by
  intro result after
  rw [(head.bind fun value => tail.bind fun value' => .pure (f value value')) result after]
  simp only [bind_eq_ok, pure_eq_ok]
  refine and_congr_left fun _ => ?_
  exact ⟨fun ⟨a, one, b, two, same⟩ => ⟨b, two, a, one, same⟩,
    fun ⟨b, two, a, one, same⟩ => ⟨a, one, b, two, same⟩⟩

end matching

private theorem required_some (reading : Reading StaticType) :
    required (some <$> reading) = reading := by
  rw [required, bind_map_left]
  exact bind_pure reading

theorem TypeForm.ofValueTag?_valueTag (form : TypeForm) :
    ofValueTag? form.valueTag = some form := by
  cases form <;> rfl

/-- No type that is a value has a tag so small. -/
theorem unmarked {number : Nat} (small : number < 184) :
    TypeForm.ofValueTag? number = none ∧ number ≠ functionTag ∧ writtenKind? number = none := by
  refine ⟨Option.eq_none_iff_forall_ne_some.2 fun form named => ?_, ?_,
    Option.eq_none_iff_forall_ne_some.2 fun kind named => ?_⟩
  · rw [TypeForm.eq_valueTag named] at small
    revert small
    cases form <;> decide
  · exact Nat.ne_of_lt (Nat.lt_trans small (by decide))
  · rw [writtenKind?_eq_some_iff.1 named] at small
    revert small
    cases kind <;> decide

private theorem typeValue_unmarked {number : Nat} (small : number < 184) (body : Item) :
    typeValue (.tag number body) = some <$> throw (.unexpectedTag number "type value") := by
  obtain ⟨formless, different, undeclared⟩ := unmarked small
  unfold typeValue
  simp only [formless, if_neg different, undeclared]

private theorem retagged_eq_null {item : Item} : retagged item = .null ↔ item = .null := by
  unfold retagged
  split
  next => split <;> simp
  next => rfl

private theorem retagged_eq_array {item : Item} {items : List Item} :
    retagged item = .array items ↔ item = .array items := by
  unfold retagged
  split
  next => split <;> simp
  next => rfl

private theorem exists_pair {items : List Item} {base : Item} {types : List Item}
    (shape : retaggedItems items = [base, .array types]) :
    ∃ base types, items = [base, .array types] := by
  match items with
  | [first, second] =>
    simp only [retaggedItems, List.cons.injEq, and_true] at shape
    exact ⟨first, types, by rw [retagged_eq_array.1 shape.2]⟩
  | [] | [_] | _ :: _ :: _ :: _ => simp [retaggedItems] at shape

private theorem pair_or (item : Item) :
    (∃ first second, item = .array [first, second]) ∨
      ∀ first second, item ≠ .array [first, second] := by
  by_cases pair : ∃ first second, item = .array [first, second]
  · exact .inl pair
  · exact .inr fun first second shape => pair ⟨first, second, shape⟩

private theorem mem_tagsOf {items : List Item} {item : Item} (member : item ∈ items) {number : Nat}
    (inside : number ∈ tags item) : number ∈ tagsOf items := by
  induction member with
  | head => exact List.mem_append_left _ inside
  | tail _ _ ih => exact List.mem_append_right _ ih

/-- No tag in the item is one of a type that is a value. -/
def Unmarked (item : Item) : Prop := ∀ number ∈ tags item, number < 184

theorem Unmarked.content {number : Nat} {body : Item} (small : Unmarked (.tag number body)) :
    Unmarked body :=
  fun number inside => small number (List.mem_cons_of_mem _ inside)

theorem Unmarked.member {items : List Item} (small : Unmarked (.array items)) {item : Item}
    (member : item ∈ items) : Unmarked item :=
  fun number inside => small number (mem_tagsOf member inside)

section alike

variable {table : TypeTable} {bound : Bound}

/-- The inline type and the item written over are read as the same type, or neither is read. -/
def Alike (table : TypeTable) (bound : Bound) (item : Item) : Prop :=
  Matches bound (required (typeValue (retagged item))) (inlineType table item)

/-- What stands for no type inline does not stand for one as a value either. -/
theorem alike_refused {item : Item}
    (formless : ∀ number body, item = .tag number body →
      TypeForm.ofInlineTag? number = none ∧ number < 184) : Alike table bound item := by
  unfold Alike
  cases item with
  | tag number body =>
    obtain ⟨formless, small⟩ := formless number body rfl
    unfold retagged inlineType
    simp only [formless, typeValue_unmarked small, required_some]
    exact .throw
  | null =>
    unfold retagged typeValue inlineType
    rw [required, pure_bind]
    exact .throw
  | _ =>
    unfold retagged typeValue inlineType
    intro result after
    simp [yields_required]

private theorem alike_items {items : List Item} (each : ∀ item ∈ items, Alike table bound item) :
    Matches bound (knownTypes (retaggedItems items)) (inlineTypes table items) := by
  induction items with
  | nil => exact .pure []
  | cons item items ih =>
    obtain ⟨head, tail⟩ := List.forall_mem_cons.1 each
    unfold retaggedItems knownTypes inlineTypes
    exact head.bind fun type => (ih tail).bind fun types => .pure (type :: types)

/-- The base is read before the types in one of the two, and behind them in the other. -/
theorem alike_intersection {items : List Item}
    (outer : ∀ base types, items = [base, .array types] → Alike table bound base)
    (inner : ∀ base types, items = [base, .array types] → ∀ type ∈ types, Alike table bound type)
    (bare : (∀ base types, items ≠ [base, .array types]) → ∀ type ∈ items, Alike table bound type) :
    Alike table bound (.tag 143 (.array items)) := by
  unfold Alike retagged inlineType typeValue
  simp only [TypeForm.ofInlineTag?, TypeForm.ofValueTag?_valueTag, required_some]
  by_cases pair : ∃ base types, items = [base, .array types]
  · obtain ⟨base, types, rfl⟩ := pair
    have listed := alike_items (inner base types rfl)
    by_cases absent : base = .null
    · subst absent
      simp only [retagged_eq_null.2 rfl]
      exact listed.map _
    · have present : retagged base ≠ .null := mt retagged_eq_null.1 absent
      simp only []
      exact .bind_swapped StaticType.restricted (outer base types rfl) listed
  · have alone (base : Item) (types : List Item) : items ≠ [base, .array types] :=
      fun shape => pair ⟨base, types, shape⟩
    have alone' (base : Item) (types : List Item) : retaggedItems items ≠ [base, .array types] :=
      fun shape => pair (exists_pair shape)
    have listed := alike_items (bare alone)
    -- A null before the types is told from a base first.
    have baseless := alone .null
    have baseless' := alone' .null
    simp only []
    exact listed.map _

private theorem alike_capability {body : Item} (borrowed : Alike table bound body) :
    Alike table bound (.tag 144 body) := by
  unfold Alike retagged inlineType typeValue
  simp only [TypeForm.ofInlineTag?, TypeForm.ofValueTag?_valueTag, required_some]
  by_cases absent : body = .null
  · subst absent
    unfold retagged typeValue
    exact .pure _
  · simp only []
    intro result after
    rw [← borrowed.map StaticType.capabilityOf result after]
    simp only [yields_bind, yields_map, yields_required]
    constructor
    · rintro ⟨found, between, read, rest⟩
      cases found with
      | none => exact absurd (retagged_eq_null.1 (yields_none.1 read).1) absent
      | some type =>
        obtain ⟨rfl, rfl⟩ := yields_pure.1 rest
        exact ⟨type, read, rfl⟩
    · rintro ⟨type, read, rfl⟩
      exact ⟨some type, after, read, .pure _ _⟩

/-- An item is read alike in every form of types if the items in it are. -/
theorem alike_form (same : ∀ id, bound.lookup id = table.lookup id) (form : TypeForm) {body : Item}
    (content : Alike table bound body)
    (part : ∀ items, body = .array items → ∀ item ∈ items, Alike table bound item)
    (inner : ∀ base types, body = .array [base, .array types] →
      ∀ type ∈ types, Alike table bound type) :
    Alike table bound (.tag form.inlineTag body) := by
  have named : TypeForm.ofInlineTag? form.inlineTag = some form := by cases form <;> rfl
  cases form
  case capability => exact alike_capability content
  case intersection =>
    cases body with
    | array items =>
      refine alike_intersection (fun base types shape => ?_) (fun base types shape => ?_)
        fun _ => part items rfl
      · exact part items rfl base (shape ▸ List.mem_cons_self)
      · exact inner base types (congrArg _ shape)
    | _ => exact .throw
  all_goals
    unfold Alike retagged inlineType typeValue
    simp only [named, TypeForm.ofValueTag?_valueTag, required_some]
  case known =>
    refine Matches.bind (.lift fun _ => bytes_eq_ok.trans bytes_eq_ok.symm) fun id => .get_bind ?_
    rw [same id]
    cases table.lookup id with
    | none => exact .throw
    | some type => exact .pure _
  case simple => exact .map (.lift fun _ => Iff.rfl) _
  case optional | variableArray | inclusiveRange => exact content.map _
  case constantArray =>
    obtain ⟨size, element, rfl⟩ | other := pair_or body
    · have element := part _ rfl element (by simp)
      exact .bind (.lift fun _ => Iff.rfl) fun size => element.bind fun element => .pure _
    · simp only []
      exact .throw
  case dictionary =>
    obtain ⟨key, value, rfl⟩ | other := pair_or body
    · have key := part _ rfl key (by simp)
      have value := part _ rfl value (by simp)
      exact key.bind fun key => value.bind fun value => .pure _
    · simp only []
      exact .throw
  case reference =>
    obtain ⟨granted, referenced, rfl⟩ | other := pair_or body
    · have referenced := part _ rfl referenced (by simp)
      exact .bind (.lift fun _ => Iff.rfl) fun granted => referenced.bind fun type => .pure _
    · simp only []
      exact .throw

private theorem alike (same : ∀ id, bound.lookup id = table.lookup id) (item : Item) :
    Unmarked item → Alike table bound item := by
  induction item using itemInduction with
  | step item smaller =>
    intro small
    cases item with
    | tag number body =>
      cases named : TypeForm.ofInlineTag? number with
      | none =>
        refine alike_refused fun number' body' shape => ?_
        cases shape
        exact ⟨named, small number List.mem_cons_self⟩
      | some form =>
        have content := smaller body (Item.sizeOf_lt_tag number body) small.content
        rw [TypeForm.eq_inlineTag named]
        refine alike_form same form content (fun items shape item member => ?_)
          fun base types shape type member => ?_
        all_goals
          have inside := List.sizeOf_lt_of_mem member
          subst shape
        · refine smaller item ?_ (small.content.member member)
          simp
          omega
        · refine smaller type ?_ ((small.content.member (by simp)).member member)
          simp
          omega
    | _ => exact alike_refused fun _ _ shape => by cases shape

end alike

/-- Where the same identifiers stand for the same types, an inline type and the item written over
are read alike, and reading the latter gives no identifier. -/
theorem typeValue_retagged {table : TypeTable} {bound : Bound}
    (same : ∀ id, bound.lookup id = table.lookup id) {item : Item}
    (inline : ∀ number ∈ tags item, number < 184) (type : StaticType) (after : Bound) :
    (typeValue (retagged item)).run bound = .ok (some type, after) ↔
      inlineType table item = .ok type ∧ after = bound := by
  have matching := alike same item inline type after
  rwa [yields_required] at matching

theorem typeValue_retagged_dictionary :
    let event : NominalType := ⟨.event, "A.0.E"⟩
    let resource : NominalType := ⟨.resource, "A.0.R"⟩
    let table : TypeTable := [([0], event), ([1], resource)]
    let bound : Bound := [([1], resource), ([0], event)]
    let item : Item := .tag 141 (.array [
      .tag 143 (.array [.null, .array [.tag 136 (.bytes [0])]]),
      .tag 142 (.array [.tag 146 (.array [.integer 1, .array [.text "F"]]),
        .tag 143 (.array [.tag 144 .null, .array [.tag 136 (.bytes [1])]])])])
    (∀ id, bound.lookup id = table.lookup id) ∧ (∀ number ∈ tags item, number < 184) ∧
      (typeValue (retagged item)).run bound =
        .ok (some (.dictionary (.intersection [.nominal event])
          (.reference (.disjunction ["F"]) (.restricted .capability [.nominal resource]))),
          bound) := by
  intro event resource table bound item
  have same (id : List UInt8) : bound.lookup id = table.lookup id := by
    by_cases zero : id = [0]
    · rw [zero]
      rfl
    · have other : (id == [0]) = false := beq_eq_false_iff_ne.2 zero
      simp only [bound, table, List.lookup_cons, List.lookup_nil, other]
  have inline : ∀ number ∈ tags item, number < 184 := by decide
  exact ⟨same, inline, (typeValue_retagged same inline _ _).2 ⟨rfl, rfl⟩⟩

end CadenceWire.Ccf
