import CadenceWire.Proofs.Ccf.TypeItem
import CadenceWire.Proofs.Ccf.TypedefItem
import CadenceWire.Proofs.Text.Literal

/-!
Why types and the definitions of messages are refused. Of the failures that readers guard against,
some cannot be caused by any message; none of them comes from these readers. Behind definitions that
are read, whatever is declared and can have values has a layout.
-/
namespace CadenceWire.Ccf

open Cbor (Item itemInduction)

/-- Messages can cause the failure. -/
def Failure.Caused : Failure → Prop
  | .missingLayout _ => False
  | .arityMismatch _ expected _ => expected ≠ "one value per field"
  | .unsupportedType id => id ∈ ["DeployedContract", "Block", "Never",
      "StorageCapabilityController", "AccountCapabilityController"]
  | _ => True

section parts

private theorem ofNat_ne_words (n : Nat) : Decimal.ofNat n ≠ "one value per field" := by
  intro same
  have digits := Decimal.isDigit_toDigits n
  rw [← Nat.toList_repr, show Nat.repr n = _ from same] at digits
  exact absurd (digits 'o' (by decide)) (by decide)

theorem miscount_caused (count : Nat) (context : String) (item : Item) :
    (miscount count context item).Caused := by
  cases item with
  | array items => exact ofNat_ne_words count
  | _ => trivial

variable {context : String} {item : Item}

private theorem array_fails : FailsOnly Failure.Caused (array context item) := by
  cases item with
  | array => exact failsOnly_ok
  | _ => exact failsOnly_error.2 trivial

theorem bytes_fails : FailsOnly Failure.Caused (bytes context item) := by
  cases item with
  | bytes => exact failsOnly_ok
  | _ => exact failsOnly_error.2 trivial

theorem text_fails : FailsOnly Failure.Caused (text context item) := by
  cases item with
  | text => exact failsOnly_ok
  | _ => exact failsOnly_error.2 trivial

theorem unsigned_fails : FailsOnly Failure.Caused (unsigned context item) := by
  cases item with
  | integer n =>
    rw [unsigned]
    split
    next => exact failsOnly_ok
    next => exact failsOnly_error.2 trivial
  | _ => exact failsOnly_error.2 trivial

theorem address_fails : FailsOnly Failure.Caused (address item) := by
  refine failsOnly_bind.2 ⟨bytes_fails, fun _ _ => ?_⟩
  split
  next => exact failsOnly_pure
  next => exact failsOnly_throw.2 trivial

private theorem simpleType_fails : FailsOnly Failure.Caused (simpleType item) := by
  refine failsOnly_bind.2 ⟨unsigned_fails, fun _ _ => ?_⟩
  split
  next => exact failsOnly_pure
  next => exact failsOnly_throw.2 trivial

private theorem arraySize_fails : FailsOnly Failure.Caused (arraySize item) :=
  failsOnly_bind.2 ⟨unsigned_fails, fun _ _ => failsOnly_pure⟩

private theorem authorization_fails : FailsOnly Failure.Caused (authorization item) := by
  unfold authorization
  split
  next => exact failsOnly_ok
  next => exact failsOnly_ok
  next => exact failsOnly_ok
  next kind list =>
    refine failsOnly_bind.2 ⟨array_fails, fun items _ => ?_⟩
    refine failsOnly_bind.2 ⟨failsOnly_mapM fun _ _ => text_fails, fun entitlements _ => ?_⟩
    refine failsOnly_bind.2 ⟨unsigned_fails, fun chosen _ => ?_⟩
    split
    next => exact failsOnly_pure
    next => exact failsOnly_pure
    next => exact failsOnly_throw.2 trivial
  next => exact failsOnly_error.2 (miscount_caused _ _ _)
  next => exact failsOnly_map.2 text_fails
  next => exact failsOnly_map.2 text_fails
  next => exact failsOnly_error.2 trivial
  next => exact failsOnly_error.2 trivial

private theorem isView_fails {purity : List Item} : FailsOnly Failure.Caused (isView purity) := by
  unfold isView
  split
  next => exact failsOnly_bind.2 ⟨unsigned_fails, fun _ _ => failsOnly_pure⟩
  next => exact failsOnly_pure

end parts

section types

variable {table : TypeTable}

/-- Inline types one after the other, given that those of smaller items are known to fail so. -/
theorem inlineTypes_fail {items : List Item}
    (each : ∀ item ∈ items, FailsOnly Failure.Caused (inlineType table item)) :
    FailsOnly Failure.Caused (inlineTypes table items) := by
  induction items with
  | nil => exact failsOnly_ok
  | cons item items ih =>
    obtain ⟨head, tail⟩ := List.forall_mem_cons.1 each
    rw [inlineTypes]
    refine failsOnly_bind.2 ⟨head, fun type _ => ?_⟩
    exact failsOnly_bind.2 ⟨ih tail, fun _ _ => failsOnly_pure⟩

theorem inlineType_fails (item : Item) : FailsOnly Failure.Caused (inlineType table item) := by
  induction item using itemInduction with
  | step item inner =>
    rw [inlineType.eq_def]
    split
    next number body =>
      have content := inner body (Item.sizeOf_lt_tag number body)
      have several : ∀ items : List Item, sizeOf items < sizeOf (Item.tag number body) →
          FailsOnly Failure.Caused (inlineTypes table items) := by
        intro items small
        refine inlineTypes_fail fun item member => inner item ?_
        exact Nat.lt_trans (List.sizeOf_lt_of_mem member) small
      split
      next =>
        refine failsOnly_bind.2 ⟨bytes_fails, fun id _ => ?_⟩
        split
        next => exact failsOnly_pure
        next => exact failsOnly_throw.2 trivial
      next => exact failsOnly_map.2 simpleType_fails
      next => exact failsOnly_map.2 content
      next => exact failsOnly_map.2 content
      next =>
        split
        next size element =>
          refine failsOnly_bind.2 ⟨arraySize_fails, fun size _ => ?_⟩
          exact failsOnly_bind.2 ⟨inner element (by simp; omega), fun _ _ => failsOnly_pure⟩
        next => exact failsOnly_error.2 (miscount_caused _ _ _)
      next =>
        split
        next key value =>
          refine failsOnly_bind.2 ⟨inner key (by simp; omega), fun key _ => ?_⟩
          exact failsOnly_bind.2 ⟨inner value (by simp; omega), fun _ _ => failsOnly_pure⟩
        next => exact failsOnly_error.2 (miscount_caused _ _ _)
      next =>
        split
        next granted referenced =>
          refine failsOnly_bind.2 ⟨authorization_fails, fun authorization _ => ?_⟩
          exact failsOnly_bind.2 ⟨inner referenced (by simp; omega), fun _ _ => failsOnly_pure⟩
        next => exact failsOnly_error.2 (miscount_caused _ _ _)
      next =>
        split
        next types => exact failsOnly_map.2 (several types (by simp; omega))
        next base types _ =>
          refine failsOnly_bind.2 ⟨several types (by simp; omega), fun types _ => ?_⟩
          exact failsOnly_bind.2 ⟨inner base (by simp; omega), fun _ _ => failsOnly_pure⟩
        next types _ _ => exact failsOnly_map.2 (several types (by simp; omega))
        next => exact failsOnly_error.2 trivial
      next =>
        split
        next => exact failsOnly_ok
        next => exact failsOnly_map.2 content
      next => exact failsOnly_map.2 content
      next => exact failsOnly_error.2 trivial
    next => exact failsOnly_error.2 trivial

private theorem boundType_stops {item : Item} : StopsOnly Failure.Caused (boundType item) := by
  refine .step bytes_fails fun id _ => StopsOnly.get.bind fun bound => ?_
  split
  next => exact .pure _
  next => exact .throw trivial

private theorem required_stops {reading : Reading (Option StaticType)}
    (only : StopsOnly Failure.Caused reading) : StopsOnly Failure.Caused (required reading) := by
  refine only.bind fun type => ?_
  split
  next => exact .pure _
  next => exact .throw trivial

section parts

variable {limit : Nat}
  (inner : ∀ item : Item, sizeOf item < limit → StopsOnly Failure.Caused (typeValue item))

include inner

private theorem knownTypes_stop {items : List Item} (small : sizeOf items ≤ limit) :
    StopsOnly Failure.Caused (knownTypes items) := by
  refine items_induction ?_ ?_ small
  · rw [knownTypes.eq_def]
    exact .pure _
  · intro item items small others
    rw [knownTypes]
    refine (required_stops (inner item small)).bind fun type => ?_
    exact others.bind fun types => .pure _

private theorem writtenFields_stop {items : List Item} (small : sizeOf items ≤ limit) :
    StopsOnly Failure.Caused (writtenFields items) := by
  refine items_induction ?_ ?_ small
  · rw [writtenFields.eq_def]
    exact .pure _
  · intro item items small others
    rw [writtenFields.eq_def]
    split
    next same => cases same
    next name type rest same =>
      cases same
      simp only [Item.array.sizeOf_spec, List.cons.sizeOf_spec] at small
      refine .step text_fails fun name _ => ?_
      exact (required_stops (inner type (by omega))).bind fun type => others
    next => exact .throw (miscount_caused _ _ _)

private theorem typeParameters_stop {items : List Item} (small : sizeOf items ≤ limit) :
    StopsOnly Failure.Caused (typeParameters items) := by
  refine items_induction ?_ ?_ small
  · rw [typeParameters.eq_def]
    exact .pure _
  · intro item items small others
    rw [typeParameters.eq_def]
    split
    next same => cases same
    next name bound rest same =>
      cases same
      simp only [Item.array.sizeOf_spec, List.cons.sizeOf_spec] at small
      refine .step text_fails fun name _ => (inner bound (by omega)).bind fun bound => ?_
      exact others.bind fun types => .pure _
    next => exact .throw (miscount_caused _ _ _)

private theorem parameters_stop {items : List Item} (small : sizeOf items ≤ limit) :
    StopsOnly Failure.Caused (parameters items) := by
  refine items_induction ?_ ?_ small
  · rw [parameters.eq_def]
    exact .pure _
  · intro item items small others
    rw [parameters.eq_def]
    split
    next same => cases same
    next label identifier type rest same =>
      cases same
      simp only [Item.array.sizeOf_spec, List.cons.sizeOf_spec] at small
      refine .step text_fails fun label _ => .step text_fails fun identifier _ => ?_
      refine (required_stops (inner type (by omega))).bind fun type => ?_
      exact others.bind fun types => .pure _
    next => exact .throw (miscount_caused _ _ _)

theorem functionType_stops {item : Item} (small : sizeOf item ≤ limit) :
    StopsOnly Failure.Caused (functionType item) := by
  rw [functionType.eq_def]
  split
  next typeParameterList parameterList result purity =>
    simp only [Item.array.sizeOf_spec, List.cons.sizeOf_spec] at small
    by_cases long : 1 < purity.length
    · rw [if_pos long]
      exact .throw_bind (by simp [Failure.Caused])
    · rw [if_neg long]
      dsimp only
      split
      next seconds =>
        simp only [Item.array.sizeOf_spec] at small
        refine (typeParameters_stop inner (by omega)).bind fun typeParameters => ?_
        split
        next firsts =>
          simp only [Item.array.sizeOf_spec] at small
          refine (parameters_stop inner (by omega)).bind fun parameters => ?_
          refine .step isView_fails fun isView _ => ?_
          exact (required_stops (inner result (by omega))).bind fun _ => .pure _
        next => exact .throw_bind trivial
      next => exact .throw_bind trivial
  next => exact .throw (by simp [Failure.Caused])
  next => exact .throw trivial

end parts

theorem typeValue_stops (item : Item) : StopsOnly Failure.Caused (typeValue item) := by
  induction item using itemInduction with
  | step item inner =>
    rw [typeValue.eq_def]
    split
    next => exact .pure _
    next number body =>
      have content := inner body (Item.sizeOf_lt_tag number body)
      have several : ∀ items : List Item, sizeOf items < sizeOf (Item.tag number body) →
          StopsOnly Failure.Caused (knownTypes items) :=
        fun items small => knownTypes_stop inner (Nat.le_of_lt small)
      refine StopsOnly.map ?_ some
      split
      next => exact boundType_stops
      next => exact (StopsOnly.lift simpleType_fails).map _
      next => exact (required_stops content).map _
      next => exact (required_stops content).map _
      next =>
        split
        next size element =>
          refine .step arraySize_fails fun size _ => ?_
          exact (required_stops (inner element (by simp; omega))).bind fun _ => .pure _
        next => exact .throw (miscount_caused _ _ _)
      next =>
        split
        next key value =>
          refine (required_stops (inner key (by simp; omega))).bind fun key => ?_
          exact (required_stops (inner value (by simp; omega))).bind fun _ => .pure _
        next => exact .throw (miscount_caused _ _ _)
      next =>
        split
        next granted referenced =>
          refine .step authorization_fails fun authorization _ => ?_
          exact (required_stops (inner referenced (by simp; omega))).bind fun _ => .pure _
        next => exact .throw (miscount_caused _ _ _)
      next =>
        split
        next types => exact (several types (by simp; omega)).map _
        next base types _ =>
          refine (required_stops (inner base (by simp; omega))).bind fun base => ?_
          exact (several types (by simp; omega)).map _
        next types _ _ => exact (several types (by simp; omega)).map _
        next => exact .throw trivial
      next =>
        refine content.bind fun borrowed => ?_
        split
        next => exact .pure _
        next => exact .pure _
      next => exact (required_stops content).map _
      next =>
        split
        next => exact (functionType_stops inner (Nat.le_of_lt (Item.sizeOf_lt_tag _ _))).map _
        next =>
          split
          next => exact .throw trivial
          next kind _ =>
            split
            next id name _ fields _ =>
              refine .step bytes_fails fun id _ => .step text_fails fun name _ => ?_
              refine (StopsOnly.modify _).bind fun _ => ?_
              dsimp only
              split
              next fields _ =>
                refine (writtenFields_stop inner (by simp; omega)).bind fun _ => .pure _
              next => exact .throw_bind trivial
            next => exact .throw (miscount_caused _ _ _)
    next => exact .throw trivial

end types

section definitions

variable {table : TypeTable}

private theorem declaration_fails (item : Item) : FailsOnly Failure.Caused (declaration item) := by
  unfold declaration
  split
  next number content =>
    split
    next =>
      split
      next =>
        refine failsOnly_bind.2 ⟨bytes_fails, fun id _ => ?_⟩
        exact failsOnly_bind.2 ⟨text_fails, fun _ _ => failsOnly_pure⟩
      next => exact failsOnly_throw.2 (by simp [Failure.Caused])
      next => exact failsOnly_throw.2 trivial
    next => exact failsOnly_throw.2 trivial
  next => exact failsOnly_error.2 trivial

private theorem declarations_fail (taken : List Declaration) (items : List Item) :
    FailsOnly Failure.Caused (declarations taken items) := by
  induction items generalizing taken with
  | nil => exact failsOnly_ok
  | cons item items ih =>
    rw [declarations]
    refine failsOnly_bind.2 ⟨declaration_fails item, fun next _ => ?_⟩
    split
    next => exact failsOnly_bind.2 ⟨failsOnly_throw.2 trivial, fun _ _ => ih _⟩
    next => exact ih _

private theorem layoutField_fails (item : Item) :
    FailsOnly Failure.Caused (layoutField table item) := by
  unfold layoutField
  split
  next =>
    refine failsOnly_bind.2 ⟨text_fails, fun name _ => ?_⟩
    exact failsOnly_bind.2 ⟨inlineType_fails _, fun _ _ => failsOnly_pure⟩
  next => exact failsOnly_error.2 (miscount_caused _ _ _)

private theorem layout?_fails (d : Declaration) : FailsOnly Failure.Caused (layout? table d) := by
  have listed (list : Item) : FailsOnly Failure.Caused (do
      let fields ← (← array "typedef fields" list).mapM (layoutField table)
      return some (Layout.mk d.type fields)) := by
    refine failsOnly_bind.2 ⟨array_fails, fun items _ => ?_⟩
    refine failsOnly_bind.2 ⟨failsOnly_mapM fun item _ => layoutField_fails item, fun _ _ => ?_⟩
    exact failsOnly_pure
  unfold layout?
  dsimp only
  split
  next => exact failsOnly_bind.2 ⟨inlineType_fails _, fun _ _ => listed _⟩
  next =>
    split
    next => exact failsOnly_pure
    next => exact failsOnly_throw.2 (by simp [Failure.Caused])
  next =>
    split
    next => exact failsOnly_throw.2 (by simp [Failure.Caused])
    next => exact listed _
  next =>
    refine failsOnly_throw.2 ?_
    split <;> simp [Failure.Caused]

theorem Definitions.read_fails (item : Item) :
    FailsOnly Failure.Caused (Definitions.read item) := by
  refine failsOnly_bind.2 ⟨array_fails, fun items _ => ?_⟩
  refine failsOnly_bind.2 ⟨declarations_fail [] items, fun declarations _ => ?_⟩
  refine failsOnly_bind.2 ⟨failsOnly_mapM fun d _ => layout?_fails d, fun _ _ => ?_⟩
  exact failsOnly_pure

/-- Every type that is declared and can have values is laid out. -/
def Definitions.Complete (definitions : Definitions) : Prop :=
  ∀ id type, definitions.table.lookup id = some type → type.kind.isInterface = false →
    ∃ layout, definitions.layout? type.id = some layout

theorem Typedef.complete (typedefs : List Typedef) : (Typedef.definitions typedefs).Complete := by
  intro id type found concrete
  obtain ⟨t, member, -, rfl⟩ := exists_of_lookup found
  have laid : ⟨t.type, t.fields⟩ ∈ (Typedef.definitions typedefs).layouts :=
    List.mem_filterMap.2 ⟨t, member, layout?_eq_some_iff.2 ⟨concrete, rfl⟩⟩
  -- Another layout of the name may be found, but none cannot.
  refine Option.isSome_iff_exists.1 (List.find?_isSome.2 ⟨_, List.mem_reverse.2 laid, ?_⟩)
  simp

theorem Definitions.complete_of_read {item : Item} {definitions : Definitions}
    (defined : Definitions.read item = .ok definitions) : definitions.Complete := by
  obtain ⟨typedefs, -, rfl⟩ := Definitions.read_eq_ok.1 defined
  exact Typedef.complete typedefs

theorem Definitions.complete_empty : Definitions.empty.Complete := by
  intro id type found
  cases found

end definitions

end CadenceWire.Ccf
