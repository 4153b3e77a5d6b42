import CadenceWire.Proofs.Ccf.Inhabits
import CadenceWire.Proofs.Ccf.TypeRefusal
import CadenceWire.Proofs.Stored

/-!
Why messages are refused. Some of what the readers of values guard against never happens: whatever a
type names has a layout, and only the types whose values never travel are without values.
-/
namespace CadenceWire.Ccf

open Cbor (Item itemInduction)

section parts

variable {kind : String} {item : Item}

private theorem magnitude_fails : FailsOnly Failure.Caused (magnitude kind item) := by
  refine failsOnly_bind.2 ⟨bytes_fails, fun content _ => ?_⟩
  split
  next => exact failsOnly_bind.2 ⟨failsOnly_throw.2 trivial, fun _ _ => failsOnly_pure⟩
  next => exact failsOnly_pure

private theorem number_fails : FailsOnly Failure.Caused (number kind item) := by
  unfold number
  split
  next => exact failsOnly_ok
  next => exact failsOnly_map.2 magnitude_fails
  next => exact failsOnly_map.2 magnitude_fails
  next => exact failsOnly_error.2 trivial

private theorem integer_fails {kind : IntegerKind} :
    FailsOnly Failure.Caused (integer kind item) := by
  refine failsOnly_bind.2 ⟨number_fails, fun _ _ => ?_⟩
  split
  next => exact failsOnly_pure
  next => exact failsOnly_throw.2 trivial

private theorem fixedPoint_fails {kind : FixedPointKind} :
    FailsOnly Failure.Caused (fixedPoint kind item) := by
  refine failsOnly_bind.2 ⟨number_fails, fun _ _ => ?_⟩
  split
  next => exact failsOnly_pure
  next => exact failsOnly_throw.2 trivial

private theorem path_fails : FailsOnly Failure.Caused (path item) := by
  unfold path
  split
  next =>
    refine failsOnly_bind.2 ⟨unsigned_fails, fun code _ => ?_⟩
    split
    next => exact failsOnly_bind.2 ⟨text_fails, fun _ _ => failsOnly_pure⟩
    next => exact failsOnly_throw.2 trivial
  next => exact failsOnly_error.2 (miscount_caused _ _ _)

private theorem capability_fails {borrowType : Option StaticType} :
    FailsOnly Failure.Caused (capability borrowType item) := by
  unfold capability
  split
  next =>
    refine failsOnly_bind.2 ⟨address_fails, fun holder _ => ?_⟩
    exact failsOnly_bind.2 ⟨unsigned_fails, fun _ _ => failsOnly_pure⟩
  next => exact failsOnly_error.2 (miscount_caused _ _ _)

end parts

section values

variable {definitions : Definitions}

private theorem functionValue_stops (item : Item) :
    StopsOnly Failure.Caused (functionValue item) := by
  have signature (item : Item) : StopsOnly Failure.Caused (functionType item) :=
    functionType_stops (fun part _ => typeValue_stops part) (Nat.le_refl _)
  unfold functionValue
  split
  next => exact (signature _).map _
  next => exact (signature _).map _

private theorem simpleValue_stops {type : SimpleType} (concrete : type.isAbstract = false)
    (item : Item) : StopsOnly Failure.Caused (simpleValue type item) := by
  cases type with
  | void =>
    cases item with
    | null => exact .pure _
    | _ => exact .throw trivial
  | bool =>
    cases item with
    | bool => exact .pure _
    | _ => exact .throw trivial
  | string | character => exact .step text_fails fun _ _ => .pure _
  | bytes => exact .step bytes_fails fun _ _ => .pure _
  | address => exact .step address_fails fun _ _ => .pure _
  | integer kind => exact .step integer_fails fun _ _ => .pure _
  | fixedPoint kind => exact .step fixedPoint_fails fun _ _ => .pure _
  | path domain => exact .step path_fails fun _ _ => .pure _
  | metaType => exact (typeValue_stops item).bind fun _ => .pure _
  | function => exact functionValue_stops item
  | abstract => cases concrete
  | resident type =>
    refine .throw ?_
    cases type <;> simp [Failure.Caused, SimpleType.id, ResidentType.id]

private theorem throughLayers_stops {item : Item} {read : StaticType → Reading Value}
    {table : TypeTable}
    (core : ∀ type, IsInline table type → (∀ content, type ≠ .optional content) →
      (∀ granted referenced, type ≠ .reference granted referenced) →
      StopsOnly Failure.Caused (read type))
    {type : StaticType} (inline : IsInline table type) :
    StopsOnly Failure.Caused (throughLayers item read type) := by
  fun_induction throughLayers item read type with
  | case1 => exact .pure _
  | case2 content there ih => exact (ih inline.2).map _
  | case3 granted referenced ih => exact ih inline.2
  | case4 type present referring => exact core type inline present referring

section parts

variable {limit : Nat}
  (inner : ∀ item : Item, sizeOf item < limit → ∀ type, IsInline definitions.table type →
    StopsOnly Failure.Caused (value definitions type item))

include inner

private theorem values_stop {element : StaticType} (inline : IsInline definitions.table element)
    {items : List Item} (small : sizeOf items ≤ limit) :
    StopsOnly Failure.Caused (values definitions element items) := by
  refine items_induction ?_ ?_ small
  · rw [values]
    exact .pure _
  · intro item items small others
    rw [values]
    refine (inner item small element inline).bind fun first => ?_
    exact others.bind fun rest => .pure _

private theorem entries_stop {key element : StaticType} (inlineKey : IsInline definitions.table key)
    (inline : IsInline definitions.table element) (items : List Item)
    (small : sizeOf items ≤ limit) :
    StopsOnly Failure.Caused (entries definitions key element items) := by
  match items with
  | [] | [_] => exact .pure _
  | first :: second :: items =>
    simp only [List.cons.sizeOf_spec] at small
    rw [entries]
    refine (inner first (by omega) key inlineKey).bind fun name => ?_
    refine (inner second (by omega) element inline).bind fun item => ?_
    exact (entries_stop inlineKey inline items (by omega)).bind fun rest => .pure _

private theorem fields_stop {layout : List (String × StaticType)}
    (inline : ∀ field ∈ layout, IsInline definitions.table field.2) {items : List Item}
    (small : sizeOf items ≤ limit) :
    StopsOnly Failure.Caused (fields definitions layout items) := by
  induction items generalizing layout with
  | nil =>
    rw [fields.eq_def]
    split
    next same => cases same
    next => exact .pure _
  | cons item items ih =>
    rw [List.cons.sizeOf_spec] at small
    cases layout with
    | nil => exact .pure _
    | cons field layout =>
      obtain ⟨head, tail⟩ := List.forall_mem_cons.1 inline
      rw [fields.eq_def]
      refine (inner item (by omega) field.2 head).bind fun first => ?_
      exact (ih tail (by omega)).bind fun rest => .pure _

private theorem range_stops {element : StaticType} (inline : IsInline definitions.table element)
    {items : List Item} (small : sizeOf items ≤ limit) :
    StopsOnly Failure.Caused (range definitions element items) := by
  unfold range
  split
  next start stop step =>
    simp only [List.cons.sizeOf_spec] at small
    refine (inner start (by omega) element inline).bind fun start => ?_
    refine (inner stop (by omega) element inline).bind fun stop => ?_
    exact (inner step (by omega) element inline).bind fun step => .pure _
  next => exact .throw (miscount_caused _ _ _)

private theorem typeAndValue_stops {item : Item} (small : sizeOf item ≤ limit) :
    StopsOnly Failure.Caused (typeAndValue definitions item) := by
  unfold typeAndValue
  split
  next type item =>
    simp only [Item.array.sizeOf_spec, List.cons.sizeOf_spec] at small
    refine .step (inlineType_fails type) fun own typed => ?_
    exact inner item (by omega) own (inlineType_eq_ok.1 typed).isInline
  next => exact .throw (miscount_caused _ _ _)

end parts

/-- Reading a value of an inline type stops only at failures that messages can cause: layouts are
there for all types that inline types are made of, and none of these is without values but for the
simple ones whose values never travel. -/
theorem value_stops (closed : definitions.Closed) (complete : definitions.Complete) (item : Item) :
    ∀ type, IsInline definitions.table type →
      StopsOnly Failure.Caused (value definitions type item) := by
  induction item using itemInduction with
  | step item inner =>
    intro type inline
    rw [value.eq_def]
    refine throughLayers_stops ?_ inline
    clear inline type
    intro type inline present referring
    split
    next opens =>
      split
      next body => exact typeAndValue_stops inner (Nat.le_of_lt (Item.sizeOf_lt_tag _ _))
      next => exact .throw trivial
      next => exact .throw trivial
    next concrete =>
      split
      next type => exact simpleValue_stops (by simpa [isOpen] using concrete) item
      next element =>
        split
        next items => exact (values_stop inner inline.2 (by simp)).map _
        next => exact .throw trivial
      next size element =>
        split
        next items =>
          split
          next => exact (values_stop inner inline.2 (by simp)).map _
          next => exact .throw (miscount_caused _ _ _)
        next => exact .throw trivial
      next key element =>
        split
        next items =>
          split
          next => exact (entries_stop inner inline.2.1 inline.2.2 items (by simp)).map _
          next => exact .throw (by simp [Failure.Caused])
        next => exact .throw trivial
      next => exact .lift capability_fails
      next borrowed => exact .lift capability_fails
      next element =>
        split
        next items => exact range_stops inner inline.2 (by simp)
        next => exact .throw trivial
      next declared =>
        obtain ⟨id, known⟩ : ∃ id, definitions.table.lookup id = some declared := inline
        obtain ⟨layout, found⟩ := complete id declared known (by simpa [isOpen] using concrete)
        rw [found]
        dsimp only
        split
        next items =>
          split
          next =>
            have laid := Definitions.layout?_eq_some_iff.1 found
            exact (fields_stop inner (closed.of_laysOut laid) (by simp)).map _
          next => exact .throw (miscount_caused _ _ _)
        next => exact .throw trivial
      next signature => exact inline.1.elim
      next =>
        -- What is left is a layer, is open, or is not among the forms of inline types.
        cases type with
        | optional content => exact absurd rfl (present content)
        | reference granted referenced => exact absurd rfl (referring granted referenced)
        | intersection | restricted => exact absurd rfl concrete
        | unstructured => exact inline.elim
        | _ => simp_all

end values

private theorem message_fails (item : Item) : FailsOnly Failure.Caused (message item) := by
  have whole {definitions : Definitions} (closed : definitions.Closed)
      (complete : definitions.Complete) (body : Item) :
      FailsOnly Failure.Caused ((typeAndValue definitions body).run' []) := by
    refine StopsOnly.run' (typeAndValue_stops ?_ (Nat.le_refl _)) []
    exact fun item _ => value_stops closed complete item
  unfold message
  split
  next first body =>
    refine failsOnly_bind.2 ⟨Definitions.read_fails first, fun definitions defined => ?_⟩
    exact whole (Definitions.closed_of_read defined) (Definitions.complete_of_read defined) body
  next => exact failsOnly_error.2 (miscount_caused _ _ _)
  next body => exact whole Definitions.closed_empty Definitions.complete_empty body
  next => exact failsOnly_error.2 trivial
  next => exact failsOnly_error.2 trivial

private theorem decode_fails (payload : List UInt8) :
    FailsOnly Failure.Caused (decode payload) := by
  have malformed : FailsOnly Failure.Caused ((Cbor.read payload).mapError .malformed) := by
    cases Cbor.read payload with
    | error fault => exact failsOnly_error.2 trivial
    | ok whole => exact failsOnly_ok
  refine failsOnly_bind.2 ⟨malformed, fun whole _ => ?_⟩
  dsimp only
  split
  next => exact failsOnly_bind.2 ⟨failsOnly_throw.2 trivial, fun _ _ => message_fails _⟩
  next => exact message_fails _

theorem InlineForm.ne {table : TypeTable} {type : StaticType} (form : InlineForm table type) :
    (∀ signature, type ≠ .function signature) ∧ ∀ id, type ≠ .unstructured id := by
  cases type with
  | function | unstructured => exact form.elim
  | _ => exact ⟨nofun, nofun⟩

/-- No message is refused for want of a layout or of a value for a field, and none for a type
without values but one of the simple types whose values never travel. For whatever is defined, every
type that values can be of is laid out, with a type for every field; the definitions are given to
the readers of values once and for all; and inline types, which those readers go by, are at no depth
functions or known by an identifier alone. Composites could as well be put together of layouts and
values that might be missing or not fit. -/
theorem decode_refused :
    (∀ payload failure, decode payload = .error failure →
      (∀ id, failure ≠ .missingLayout id) ∧
      (∀ context got, failure ≠ .arityMismatch context "one value per field" got) ∧
      ∀ id, failure = .unsupportedType id → id ∈ ["DeployedContract", "Block", "Never",
        "StorageCapabilityController", "AccountCapabilityController"]) ∧
    (∀ item definitions, Definitions.read item = .ok definitions → ∀ id type,
      definitions.table.lookup id = some type → type.kind.isInterface = false →
        ∃ layout, definitions.layout? type.id = some layout ∧
          ∀ field ∈ layout.stored, field.type ≠ none) ∧
    (∀ table item type, inlineType table item = .ok type → type.Every fun part =>
      (∀ signature, part ≠ .function signature) ∧ ∀ id, part ≠ .unstructured id) ∧
    ∀ definitions declared item, declared.kind.isInterface = false →
      value definitions (.nominal declared) item =
        storedComposite definitions declared item := by
  refine ⟨?failure, ?layout, ?inline, ?stored⟩
  case failure =>
    intro payload failure refused
    have caused : failure.Caused := decode_fails payload failure refused
    refine ⟨?_, ?_, ?_⟩
    · rintro id rfl
      exact caused
    · rintro context got rfl
      exact caused rfl
    · rintro id rfl
      exact caused
  case layout =>
    intro item definitions defined id type known concrete
    obtain ⟨layout, found⟩ := Definitions.complete_of_read defined id type known concrete
    refine ⟨layout, found, List.forall_mem_map.2 fun field _ => ?_⟩
    simp
  case inline =>
    intro table item type typed
    exact (inlineType_eq_ok.1 typed).isInline.imp fun _ => InlineForm.ne
  case stored =>
    intro definitions declared item concrete
    exact value_nominal definitions concrete item

/-- A value of the type of which there is none, and a definition that refers to itself. -/
theorem decode_refused_never :
    let node : NominalType := ⟨.struct, "N"⟩
    let layout : Layout := ⟨node, [("next", .optional (.nominal node))]⟩
    decode [0xd8, 0x82, 0x82, 0xd8, 0x89, 0x18, 0x2a, 0xf6] = .error (.unsupportedType "Never") ∧
      "Never" ∈ ["DeployedContract", "Block", "Never", "StorageCapabilityController",
        "AccountCapabilityController"] ∧
      Definitions.read (.array [.tag 160 (.array [.bytes [1], .text "N",
        .array [.array [.text "next", .tag 138 (.tag 136 (.bytes [1]))]]])]) =
        .ok ⟨[([1], node)], [layout]⟩ ∧
      (∃ found, Definitions.layout? ⟨[([1], node)], [layout]⟩ "N" = some found ∧
        ∀ field ∈ found.stored, field.type ≠ none) ∧
      (StaticType.optional (.nominal node)).Every (fun part =>
        (∀ signature, part ≠ .function signature) ∧ ∀ id, part ≠ .unstructured id) ∧
      value ⟨[([1], node)], [layout]⟩ (.nominal node) (.array [.null]) =
        storedComposite ⟨[([1], node)], [layout]⟩ node (.array [.null]) := by
  intro node layout
  obtain ⟨failure, laid, inline, stored⟩ := decode_refused
  have refused : decode [0xd8, 0x82, 0x82, 0xd8, 0x89, 0x18, 0x2a, 0xf6] =
      .error (.unsupportedType "Never") := rfl
  have typed : inlineType [([1], node)] (.tag 138 (.tag 136 (.bytes [1]))) =
      .ok (.optional (.nominal node)) := rfl
  refine ⟨refused, (failure _ _ refused).2.2 _ rfl, ?defined, laid _ _ ?defined [1] node rfl rfl,
    inline _ _ _ typed, stored _ _ _ rfl⟩
  rfl

end CadenceWire.Ccf
