import CadenceWire.Ccf.Value
import CadenceWire.Proofs.Ccf.TypeItem
import CadenceWire.Proofs.Ccf.TypedefItem

/-!
The items that the values of a type are written as. What is read by a type is exactly what these
items stand for.
-/
namespace CadenceWire.Ccf

open Cbor (Item itemInduction)

/-- A function is written as its type, with the tag of function types or without. -/
inductive FunctionItem : Bound → FunctionType → Item → Bound → Prop
  | tagged {before after : Bound} {signature : FunctionType} {item : Item}
      (inner : SignatureItem before signature item after) :
      FunctionItem before signature (.tag 193 item) after
  | bare {before after : Bound} {signature : FunctionType} {item : Item}
      (inner : SignatureItem before signature item after) :
      FunctionItem before signature item after

inductive SimpleItem : Bound → SimpleType → Value → Item → Bound → Prop
  | void {before : Bound} : SimpleItem before .void .void .null before
  | bool {before : Bound} (b : Bool) : SimpleItem before .bool (.bool b) (.bool b) before
  | string {before : Bound} (s : String) : SimpleItem before .string (.string s) (.text s) before
  | character {before : Bound} (s : String) :
      SimpleItem before .character (.character s) (.text s) before
  | bytes {before : Bound} (content : List UInt8) :
      SimpleItem before .bytes (.bytes content) (.bytes content) before
  | address {before : Bound} (owner : Address) :
      SimpleItem before .address (.address owner) (.bytes owner.bytes) before
  | integer {before : Bound} {n : Integer} {item : Item} (written : NumberItem n.value item) :
      SimpleItem before (.integer n.kind) (.integer n) item before
  | fixedPoint {before : Bound} {n : FixedPoint} {item : Item}
      (written : NumberItem n.scaled item) :
      SimpleItem before (.fixedPoint n.kind) (.fixedPoint n) item before
  | path {before : Bound} (domain : PathDomain) (p : Path) :
      SimpleItem before (.path domain) (.path p)
        (.array [.integer (domainNumber p.domain), .text p.identifier]) before
  | unknownType {before : Bound} : SimpleItem before .metaType (.type none) .null before
  | type {before after : Bound} {known : StaticType} {item : Item}
      (written : TypeItem before known item after) :
      SimpleItem before .metaType (.type (some known)) item after
  | function {before after : Bound} {signature : FunctionType} {item : Item}
      (written : FunctionItem before signature item after) :
      SimpleItem before .function (.function signature) item after

/-- The type leaves open what its values are, so that each of them brings a type of its own. -/
inductive LeavesOpen : StaticType → Prop
  | abstract (type : AbstractType) : LeavesOpen (.simple (.abstract type))
  | structInterface (id : String) : LeavesOpen (.nominal ⟨.structInterface, id⟩)
  | resourceInterface (id : String) : LeavesOpen (.nominal ⟨.resourceInterface, id⟩)
  | contractInterface (id : String) : LeavesOpen (.nominal ⟨.contractInterface, id⟩)
  | intersection (types : List StaticType) : LeavesOpen (.intersection types)
  | restricted (base : StaticType) (types : List StaticType) : LeavesOpen (.restricted base types)

private theorem isOpen_iff {type : StaticType} : isOpen type = true ↔ LeavesOpen type := by
  constructor
  · intro opens
    cases type with
    | simple type =>
      cases type with
      | abstract type => exact .abstract type
      | _ => cases opens
    | nominal declared =>
      obtain ⟨kind, id⟩ := declared
      cases kind with
      | structInterface => exact .structInterface id
      | resourceInterface => exact .resourceInterface id
      | contractInterface => exact .contractInterface id
      | _ => cases opens
    | intersection types => exact .intersection types
    | restricted base types => exact .restricted base types
    | _ => cases opens
  · intro opens
    cases opens <;> rfl

mutual

/-- The item stands for a value of the type. Types written out in it are known behind it. An
optional that is there may be written as null if what it holds is; this loses it. -/
inductive ValueItem (lossless : Bool) (definitions : Definitions) :
    Bound → StaticType → Value → Item → Bound → Prop
  | simple {before after : Bound} {type : SimpleType} {v : Value} {item : Item}
      (written : SimpleItem before type v item after) :
      ValueItem lossless definitions before (.simple type) v item after
  | nil {before : Bound} (content : StaticType) :
      ValueItem lossless definitions before (.optional content) .nil .null before
  | present {before after : Bound} {content : StaticType} {v : Value} {item : Item}
      (there : lossless = true → item ≠ .null)
      (inner : ValueItem lossless definitions before content v item after) :
      ValueItem lossless definitions before (.optional content) (.present v) item after
  | reference {before after : Bound} (granted : Authorization) {referenced : StaticType}
      {v : Value} {item : Item}
      (inner : ValueItem lossless definitions before referenced v item after) :
      ValueItem lossless definitions before (.reference granted referenced) v item after
  | variableArray {before after : Bound} {element : StaticType} {elements : List Value}
      {items : List Item}
      (inner : ValueItems lossless definitions before element elements items after) :
      ValueItem lossless definitions before (.variableArray element) (.array elements)
        (.array items) after
  | constantArray {before after : Bound} {size : UInt64} {element : StaticType}
      {elements : List Value} {items : List Item} (length : items.length = size.toNat)
      (inner : ValueItems lossless definitions before element elements items after) :
      ValueItem lossless definitions before (.constantArray size element) (.array elements)
        (.array items) after
  | dictionary {before after : Bound} {keyType itemType : StaticType}
      {pairs : List (Value × Value)} {items : List Item}
      (inner : EntryItems lossless definitions before keyType itemType pairs items after) :
      ValueItem lossless definitions before (.dictionary keyType itemType) (.dictionary pairs)
        (.array items) after
  | capability {before : Bound} (id : UInt64) (holder : Address) :
      ValueItem lossless definitions before .capability (.capability ⟨id, holder, none, none⟩)
        (.array [.bytes holder.bytes, .integer id.toNat]) before
  | capabilityOf {before : Bound} (borrowed : StaticType) (id : UInt64) (holder : Address) :
      ValueItem lossless definitions before (.capabilityOf borrowed)
        (.capability ⟨id, holder, some borrowed, none⟩)
        (.array [.bytes holder.bytes, .integer id.toNat]) before
  | range {before second third after : Bound} {element : StaticType} {start stop step : Value}
      {startItem stopItem stepItem : Item}
      (first : ValueItem lossless definitions before element start startItem second)
      (last : ValueItem lossless definitions second element stop stopItem third)
      (difference : ValueItem lossless definitions third element step stepItem after) :
      ValueItem lossless definitions before (.inclusiveRange element) (.range start stop step)
        (.array [startItem, stopItem, stepItem]) after
  | embedded {before after : Bound} {type own : StaticType} {v : Value} {typeItem item : Item}
      (opens : LeavesOpen type) (typed : InlineItem definitions.table own typeItem)
      (inner : ValueItem lossless definitions before own v item after) :
      ValueItem lossless definitions before type v (.tag 130 (.array [typeItem, item])) after
  | composite {before after : Bound} {declared : NominalType} {layout : Layout}
      {parts : List (Field × Value)} {items : List Item}
      (concrete : declared.kind.isInterface = false)
      (laid : definitions.LaysOut declared.id layout)
      (inner : PartItems lossless definitions before layout.fields parts items after) :
      ValueItem lossless definitions before (.nominal declared) (.composite layout.type parts)
        (.array items) after
  | function {before after : Bound} (declared : FunctionType) {signature : FunctionType}
      {item : Item} (written : FunctionItem before signature item after) :
      ValueItem lossless definitions before (.function declared) (.function signature) item after

inductive ValueItems (lossless : Bool) (definitions : Definitions) :
    Bound → StaticType → List Value → List Item → Bound → Prop
  | nil {before : Bound} {element : StaticType} :
      ValueItems lossless definitions before element [] [] before
  | cons {before between after : Bound} {element : StaticType} {v : Value} {elements : List Value}
      {item : Item} {items : List Item}
      (head : ValueItem lossless definitions before element v item between)
      (tail : ValueItems lossless definitions between element elements items after) :
      ValueItems lossless definitions before element (v :: elements) (item :: items) after

inductive EntryItems (lossless : Bool) (definitions : Definitions) :
    Bound → StaticType → StaticType → List (Value × Value) → List Item → Bound → Prop
  | nil {before : Bound} {keyType itemType : StaticType} :
      EntryItems lossless definitions before keyType itemType [] [] before
  | cons {before middle between after : Bound} {keyType itemType : StaticType} {key v : Value}
      {pairs : List (Value × Value)} {first second : Item} {items : List Item}
      (name : ValueItem lossless definitions before keyType key first middle)
      (head : ValueItem lossless definitions middle itemType v second between)
      (tail : EntryItems lossless definitions between keyType itemType pairs items after) :
      EntryItems lossless definitions before keyType itemType ((key, v) :: pairs)
        (first :: second :: items) after

inductive PartItems (lossless : Bool) (definitions : Definitions) :
    Bound → List (String × StaticType) → List (Field × Value) → List Item → Bound → Prop
  | nil {before : Bound} : PartItems lossless definitions before [] [] [] before
  | cons {before between after : Bound} (name : String) {type : StaticType} {v : Value}
      {declared : List (String × StaticType)} {parts : List (Field × Value)} {item : Item}
      {items : List Item} (head : ValueItem lossless definitions before type v item between)
      (tail : PartItems lossless definitions between declared parts items after) :
      PartItems lossless definitions before ((name, type) :: declared)
        ((⟨name, some type⟩, v) :: parts) (item :: items) after

end

private theorem functionValue_yields {item : Item} {before after : Bound} {v : Value} :
    Yields (functionValue item) before v after ↔
      ∃ signature, v = .function signature ∧ FunctionItem before signature item after := by
  constructor
  · intro read
    unfold functionValue at read
    split at read
    next =>
      obtain ⟨signature, inner, rfl⟩ := yields_map.1 read
      exact ⟨signature, rfl, .tagged (functionType_yields.1 inner)⟩
    next =>
      obtain ⟨signature, inner, rfl⟩ := yields_map.1 read
      exact ⟨signature, rfl, .bare (functionType_yields.1 inner)⟩
  · rintro ⟨signature, rfl, written⟩
    cases written with
    | tagged inner => exact yields_map.2 ⟨_, inner.yields, rfl⟩
    | bare inner =>
      have read := inner.yields
      cases inner
      exact yields_map.2 ⟨_, read, rfl⟩

private theorem capability_eq_ok {borrowed : Option StaticType} {item : Item} {v : Value} :
    capability borrowed item = .ok v ↔
      ∃ (id : UInt64) (holder : Address), v = .capability ⟨id, holder, borrowed, none⟩ ∧
        item = .array [.bytes holder.bytes, .integer id.toNat] := by
  constructor
  · intro accepted
    unfold capability at accepted
    split at accepted
    next =>
      simp only [bind_eq_ok, address_eq_ok, unsigned_eq_ok, pure_eq_ok] at accepted
      obtain ⟨holder, rfl, id, ⟨rfl, small⟩, rfl⟩ := accepted
      exact ⟨UInt64.ofNat id, holder, rfl, by rw [UInt64.toNat_ofNat_of_lt' small]⟩
    next => cases accepted
  · rintro ⟨id, holder, rfl, rfl⟩
    simp only [capability, bind_eq_ok, address_eq_ok, unsigned_eq_ok, pure_eq_ok]
    exact ⟨holder, rfl, id.toNat, ⟨rfl, id.toNat_lt⟩, by rw [UInt64.ofNat_toNat]⟩

private theorem simpleValue_yields {type : SimpleType} {item : Item} {before after : Bound}
    {v : Value} :
    Yields (simpleValue type item) before v after ↔ SimpleItem before type v item after := by
  constructor
  · intro read
    cases type with
    | void =>
      unfold simpleValue at read
      dsimp only at read
      split at read
      next =>
        obtain ⟨rfl, rfl⟩ := yields_pure.1 read
        exact .void
      next => exact absurd read not_yields_throw
    | bool =>
      unfold simpleValue at read
      dsimp only at read
      split at read
      next b =>
        obtain ⟨rfl, rfl⟩ := yields_pure.1 read
        exact .bool b
      next => exact absurd read not_yields_throw
    | string =>
      simp only [simpleValue, yields_bind, yields_lift, yields_pure, text_eq_ok] at read
      obtain ⟨s, _, ⟨rfl, rfl⟩, rfl, rfl⟩ := read
      exact .string s
    | character =>
      simp only [simpleValue, yields_bind, yields_lift, yields_pure, text_eq_ok] at read
      obtain ⟨s, _, ⟨rfl, rfl⟩, rfl, rfl⟩ := read
      exact .character s
    | bytes =>
      simp only [simpleValue, yields_bind, yields_lift, yields_pure, bytes_eq_ok] at read
      obtain ⟨content, _, ⟨rfl, rfl⟩, rfl, rfl⟩ := read
      exact .bytes content
    | address =>
      simp only [simpleValue, yields_bind, yields_lift, yields_pure, address_eq_ok] at read
      obtain ⟨owner, _, ⟨rfl, rfl⟩, rfl, rfl⟩ := read
      exact .address owner
    | integer kind =>
      simp only [simpleValue, yields_bind, yields_lift, yields_pure, integer_eq_ok] at read
      obtain ⟨n, _, ⟨⟨rfl, written⟩, rfl⟩, rfl, rfl⟩ := read
      exact .integer written
    | fixedPoint kind =>
      simp only [simpleValue, yields_bind, yields_lift, yields_pure, fixedPoint_eq_ok] at read
      obtain ⟨n, _, ⟨⟨rfl, written⟩, rfl⟩, rfl, rfl⟩ := read
      exact .fixedPoint written
    | path domain =>
      simp only [simpleValue, yields_bind, yields_lift, yields_pure, path_eq_ok] at read
      obtain ⟨p, _, ⟨rfl, rfl⟩, rfl, rfl⟩ := read
      exact .path domain p
    | metaType =>
      simp only [simpleValue, yields_bind, yields_pure] at read
      obtain ⟨found, _, inner, rfl, rfl⟩ := read
      cases found with
      | none =>
        obtain ⟨rfl, rfl⟩ := yields_none.1 inner
        exact .unknownType
      | some known => exact .type (typeValue_yields.1 inner)
    | function =>
      obtain ⟨signature, rfl, written⟩ := functionValue_yields.1 read
      exact .function written
    | abstract | resident => exact absurd read not_yields_throw
  · intro written
    cases written with
    | void | bool => exact yields_pure.2 ⟨rfl, rfl⟩
    | string | character | bytes =>
      simp [simpleValue, text_eq_ok, bytes_eq_ok]
    | address owner =>
      simp [simpleValue, address_eq_ok]
    | integer written => simp [simpleValue, integer_eq_ok, written]
    | fixedPoint written => simp [simpleValue, fixedPoint_eq_ok, written]
    | path domain p => simp [simpleValue, path_eq_ok]
    | unknownType => simp [simpleValue, yields_none]
    | type written => simp [simpleValue, typeValue_yields, written]
    | function written => exact functionValue_yields.2 ⟨_, rfl, written⟩

variable {definitions : Definitions}

theorem value_optional (content : StaticType) {item : Item} (there : item ≠ .null) :
    value definitions (.optional content) item = .present <$> value definitions content item := by
  rw [value.eq_def, throughLayers, value.eq_def]
  exact there

theorem value_reference (granted : Authorization) (referenced : StaticType) (item : Item) :
    value definitions (.reference granted referenced) item =
      value definitions referenced item := by
  rw [value.eq_def, throughLayers, value.eq_def]

private theorem value_open {type : StaticType} (opens : LeavesOpen type) (body : Item) :
    value definitions type (.tag 130 body) = typeAndValue definitions body := by
  cases opens <;>
  · rw [value.eq_def]
    rfl

theorem value_simple {type : SimpleType} (concrete : type.isAbstract = false) (item : Item) :
    value definitions (.simple type) item = simpleValue type item := by
  rw [value.eq_def]
  simp [throughLayers, isOpen, concrete]

theorem SimpleItem.concrete {before after : Bound} {type : SimpleType} {v : Value} {item : Item}
    (written : SimpleItem before type v item after) : type.isAbstract = false := by
  cases written <;> rfl

theorem EntryItems.even {lossless : Bool} {before after : Bound} {keyType itemType : StaticType}
    {pairs : List (Value × Value)} {items : List Item}
    (written : EntryItems lossless definitions before keyType itemType pairs items after) :
    items.length % 2 = 0 := by
  match written with
  | .nil => rfl
  | .cons _ _ tail =>
    have even := tail.even
    simp only [List.length_cons]
    omega

theorem PartItems.length_eq {lossless : Bool} {before after : Bound}
    {declared : List (String × StaticType)}
    {parts : List (Field × Value)} {items : List Item}
    (written : PartItems lossless definitions before declared parts items after) :
    items.length = declared.length := by
  match written with
  | .nil => rfl
  | .cons _ _ tail => simp only [List.length_cons, tail.length_eq]

mutual

theorem ValueItem.yields {before after : Bound} {type : StaticType} {v : Value} {item : Item}
    (written : ValueItem true definitions before type v item after) :
    Yields (value definitions type item) before v after := by
  match written with
  | .simple written =>
    rw [value_simple written.concrete]
    exact simpleValue_yields.2 written
  | .nil content =>
    rw [value.eq_def]
    exact .pure _ _
  | .present there inner =>
    rw [value_optional _ (there rfl)]
    exact inner.yields.map _
  | .reference granted inner =>
    rw [value_reference]
    exact inner.yields
  | .variableArray inner =>
    rw [value.eq_def]
    exact inner.yields.map _
  | .constantArray length inner =>
    rw [value.eq_def]
    simp only [throughLayers, isOpen, if_pos length]
    exact inner.yields.map _
  | .dictionary inner =>
    rw [value.eq_def]
    simp only [throughLayers, isOpen, if_pos inner.even]
    exact inner.yields.map _
  | .capability id holder | .capabilityOf _ id holder =>
    rw [value.eq_def]
    exact .lift (capability_eq_ok.2 ⟨id, holder, rfl, rfl⟩) _
  | .range first last difference =>
    have start := first.yields
    have stop := last.yields
    have step := difference.yields
    rw [value.eq_def]
    exact start.bind (stop.bind (step.bind (.pure _ _)))
  | .embedded opens typed inner =>
    have own := typed.eq_ok
    rw [value_open opens]
    exact (Yields.lift own _).bind inner.yields
  | .composite concrete laid inner =>
    have found := Definitions.layout?_eq_some_iff.2 laid
    rw [value.eq_def]
    simp only [throughLayers, isOpen, concrete, found, if_pos inner.length_eq]
    exact inner.yields.map _
  | .function declared written =>
    rw [value.eq_def]
    exact functionValue_yields.2 ⟨_, rfl, written⟩

theorem ValueItems.yields {before after : Bound} {element : StaticType} {elements : List Value}
    {items : List Item}
    (written : ValueItems true definitions before element elements items after) :
    Yields (values definitions element items) before elements after := by
  match written with
  | .nil => exact .pure _ _
  | .cons head tail =>
    have first := head.yields
    have others := tail.yields
    exact first.bind (others.bind (.pure _ _))

theorem EntryItems.yields {before after : Bound} {keyType itemType : StaticType}
    {pairs : List (Value × Value)} {items : List Item}
    (written : EntryItems true definitions before keyType itemType pairs items after) :
    Yields (entries definitions keyType itemType items) before pairs after := by
  match written with
  | .nil => exact .pure _ _
  | .cons name head tail =>
    have key := name.yields
    have first := head.yields
    have others := tail.yields
    exact key.bind (first.bind (others.bind (.pure _ _)))

theorem PartItems.yields {before after : Bound} {declared : List (String × StaticType)}
    {parts : List (Field × Value)} {items : List Item}
    (written : PartItems true definitions before declared parts items after) :
    Yields (fields definitions declared items) before parts after := by
  match written with
  | .nil => exact .pure _ _
  | .cons name head tail =>
    have first := head.yields
    have others := tail.yields
    exact first.bind (others.bind (.pure _ _))

end

/- The parts of a value are taken apart item by item, given that this can be done with all items
that are smaller than some limit. -/
section parts

variable {limit : Nat}
  (written : ∀ item, sizeOf item < limit → ∀ type before v after,
    Yields (value definitions type item) before v after →
      ValueItem true definitions before type v item after)
include written

private theorem valueItems_of_values {element : StaticType} {items : List Item}
    (small : sizeOf items < limit) {before after : Bound} {elements : List Value}
    (read : Yields (values definitions element items) before elements after) :
    ValueItems true definitions before element elements items after := by
  induction items generalizing before elements with
  | nil =>
    obtain ⟨rfl, rfl⟩ := yields_pure.1 read
    exact .nil
  | cons item items ih =>
    simp only [List.cons.sizeOf_spec] at small
    simp only [values, yields_bind, yields_pure] at read
    obtain ⟨v, between, head, others, _, tail, rfl, rfl⟩ := read
    exact .cons (written item (by omega) _ _ _ _ head) (ih (by omega) tail)

private theorem entryItems_of_entries {keyType itemType : StaticType} (items : List Item)
    (small : sizeOf items < limit) (even : items.length % 2 = 0) {before after : Bound}
    {pairs : List (Value × Value)}
    (read : Yields (entries definitions keyType itemType items) before pairs after) :
    EntryItems true definitions before keyType itemType pairs items after := by
  match items with
  | [] =>
    obtain ⟨rfl, rfl⟩ := yields_pure.1 read
    exact .nil
  | [_] => cases even
  | first :: second :: items =>
    simp only [List.cons.sizeOf_spec] at small
    simp only [entries, yields_bind, yields_pure] at read
    obtain ⟨key, middle, name, v, between, head, others, _, tail, rfl, rfl⟩ := read
    exact .cons (written first (by omega) _ _ _ _ name) (written second (by omega) _ _ _ _ head)
      (entryItems_of_entries items (by omega) (by simp only [List.length_cons] at even; omega) tail)

private theorem partItems_of_fields {declared : List (String × StaticType)} {items : List Item}
    (small : sizeOf items < limit) (length : items.length = declared.length)
    {before after : Bound} {parts : List (Field × Value)}
    (read : Yields (fields definitions declared items) before parts after) :
    PartItems true definitions before declared parts items after := by
  induction items generalizing declared before parts with
  | nil =>
    obtain rfl := List.eq_nil_of_length_eq_zero length.symm
    obtain ⟨rfl, rfl⟩ := yields_pure.1 read
    exact .nil
  | cons item items ih =>
    cases declared with
    | nil => cases length
    | cons field declared =>
      simp only [List.cons.sizeOf_spec] at small
      simp only [fields, yields_bind, yields_pure] at read
      obtain ⟨v, between, head, others, _, tail, rfl, rfl⟩ := read
      exact .cons field.1 (written item (by omega) _ _ _ _ head)
        (ih (by omega) (by simpa using length) tail)

end parts

private theorem valueItem_of_throughLayers {item : Item} {read : StaticType → Reading Value}
    (core : ∀ type before v after, Yields (read type) before v after →
      ValueItem true definitions before type v item after)
    {type : StaticType} {before after : Bound} {v : Value}
    (accepted : Yields (throughLayers item read type) before v after) :
    ValueItem true definitions before type v item after := by
  fun_induction throughLayers item read type generalizing v with
  | case1 content null =>
    subst null
    obtain ⟨rfl, rfl⟩ := yields_pure.1 accepted
    exact .nil content
  | case2 content there ih =>
    obtain ⟨inner, found, rfl⟩ := yields_map.1 accepted
    exact .present (fun _ => there) (ih found)
  | case3 granted referenced ih => exact .reference granted (ih accepted)
  | case4 type => exact core type before v after accepted

private theorem valueItem_of_value (item : Item) : ∀ type before v after,
    Yields (value definitions type item) before v after →
      ValueItem true definitions before type v item after := by
  induction item using itemInduction with
  | step item written =>
    intro type before v after read
    rw [value.eq_def] at read
    -- Optionals and references do not take up items of their own, so the induction on the item does
    -- not reach through them.
    refine valueItem_of_throughLayers ?_ read
    clear read
    intro type before v after read
    split at read
    next opens =>
      split at read
      next body =>
        unfold typeAndValue at read
        split at read
        next =>
          simp only [yields_bind, yields_lift, inlineType_eq_ok] at read
          obtain ⟨own, _, ⟨typed, rfl⟩, inner⟩ := read
          exact .embedded (isOpen_iff.1 opens) typed (written _ (by simp; omega) _ _ _ _ inner)
        next => exact absurd read not_yields_throw
      next => exact absurd read not_yields_throw
      next => exact absurd read not_yields_throw
    next closed =>
      split at read
      next type => exact .simple (simpleValue_yields.1 read)
      next element =>
        split at read
        next items =>
          obtain ⟨elements, inner, rfl⟩ := yields_map.1 read
          exact .variableArray (valueItems_of_values written (by simp) inner)
        next => exact absurd read not_yields_throw
      next size element =>
        split at read
        next items =>
          split at read
          next length =>
            obtain ⟨elements, inner, rfl⟩ := yields_map.1 read
            exact .constantArray length (valueItems_of_values written (by simp) inner)
          next => exact absurd read not_yields_throw
        next => exact absurd read not_yields_throw
      next keyType itemType =>
        split at read
        next items =>
          split at read
          next even =>
            obtain ⟨pairs, inner, rfl⟩ := yields_map.1 read
            exact .dictionary (entryItems_of_entries written items (by simp) even inner)
          next => exact absurd read not_yields_throw
        next => exact absurd read not_yields_throw
      next =>
        obtain ⟨accepted, rfl⟩ := yields_lift.1 read
        obtain ⟨id, holder, rfl, rfl⟩ := capability_eq_ok.1 accepted
        exact .capability id holder
      next borrowed =>
        obtain ⟨accepted, rfl⟩ := yields_lift.1 read
        obtain ⟨id, holder, rfl, rfl⟩ := capability_eq_ok.1 accepted
        exact .capabilityOf borrowed id holder
      next element =>
        split at read
        next items =>
          unfold range at read
          split at read
          next =>
            simp only [yields_bind, yields_pure] at read
            obtain ⟨start, second, first, stop, third, last, step, _, difference, rfl, rfl⟩ := read
            exact .range (written _ (by simp; omega) _ _ _ _ first)
              (written _ (by simp; omega) _ _ _ _ last)
              (written _ (by simp; omega) _ _ _ _ difference)
          next => exact absurd read not_yields_throw
        next => exact absurd read not_yields_throw
      next declared =>
        split at read
        next => exact absurd read not_yields_throw
        next layout found =>
          split at read
          next items =>
            split at read
            next length =>
              obtain ⟨parts, inner, rfl⟩ := yields_map.1 read
              exact .composite (by simpa [isOpen] using closed)
                (Definitions.layout?_eq_some_iff.1 found)
                (partItems_of_fields written (by simp) length inner)
            next => exact absurd read not_yields_throw
          next => exact absurd read not_yields_throw
      next declared =>
        obtain ⟨signature, rfl, inner⟩ := functionValue_yields.1 read
        exact .function declared inner
      next => exact absurd read not_yields_throw

/-- Values are read from the items that are written for them. -/
theorem value_yields {type : StaticType} {item : Item} {before after : Bound} {v : Value} :
    Yields (value definitions type item) before v after ↔
      ValueItem true definitions before type v item after :=
  ⟨valueItem_of_value item type before v after, ValueItem.yields⟩

end CadenceWire.Ccf
