import CadenceWire.Proofs.Ccf.Ladder
import CadenceWire.Proofs.Ccf.Occurrence
import CadenceWire.Proofs.Ccf.Payload
import CadenceWire.Proofs.Value.Nesting

/-!
How deep the values of messages get. Items lie within each other only so deep; optionals take up no
items of their own, so there may be as many of them around each item as a type can have.
-/
namespace CadenceWire

/-- How many optionals and references lie within each other in a type at most, on the way to the
types of what its values are made of. -/
def StaticType.layers : StaticType → Nat
  | .optional content => content.layers + 1
  | .reference _ referenced => referenced.layers + 1
  | .variableArray element | .constantArray _ element | .inclusiveRange element => element.layers
  | .dictionary key value => max key.layers value.layers
  | .simple _ | .intersection _ | .restricted _ _ | .capability | .capabilityOf _ | .nominal _
  | .function _ | .unstructured _ => 0

namespace Ccf

open Cbor (Item)

private theorem height_pair (number : Nat) (first second : Item) :
    first.height + 2 ≤ (Item.tag number (.array [first, second])).height ∧
      second.height + 2 ≤ (Item.tag number (.array [first, second])).height := by
  have left : first.height < (Item.array [first, second]).height :=
    Item.height_lt_array (by simp)
  have right : second.height < (Item.array [first, second]).height :=
    Item.height_lt_array (by simp)
  rw [Item.height]
  omega

/-- Every layer of a type takes an item around the rest of it. -/
theorem InlineItem.layers_lt {table : TypeTable} {type : StaticType} {item : Item}
    (written : InlineItem table type item) : type.layers < item.height := by
  cases written with
  | known | simple | capability | capabilityOf | intersection | baseless | restricted =>
    exact Nat.succ_pos _
  | optional inner => exact Nat.succ_lt_succ inner.layers_lt
  | variableArray inner | inclusiveRange inner => exact Nat.lt_succ_of_lt inner.layers_lt
  | @constantArray size element item inner =>
    have layers := inner.layers_lt
    have outer := (height_pair 140 (.integer size.toNat) item).2
    rw [StaticType.layers]
    omega
  | @reference granted referenced first second grant inner =>
    have layers := inner.layers_lt
    have outer := (height_pair 142 first second).2
    rw [StaticType.layers]
    omega
  | @dictionary key value first second keys values =>
    have left := keys.layers_lt
    have right := values.layers_lt
    obtain ⟨outer, outer'⟩ := height_pair 141 first second
    rw [StaticType.layers]
    omega

/-- A bound of how deep the values of a type are that are read from an item, with so many layers
around each value at most. -/
def rank (layer most : Nat) (type : StaticType) (item : Item) : Nat :=
  layer * type.layers + item.height * (1 + layer * most)

/-- What a reader of values adds to what those within it read. -/
def cost (layer : Nat) : StaticType → Nat
  | .optional _ | .reference _ _ => layer
  | _ => 1

/-- One reader of values has another read. -/
def Calls (definitions : Definitions) (outer inner : StaticType × Item) : Prop :=
  Task.value inner.1 inner.2 ∈ valueParts definitions outer.2 outer.1

/-- The types of fields have so many layers at most. -/
def Definitions.Layered (definitions : Definitions) (most : Nat) : Prop :=
  ∀ layout ∈ definitions.layouts, ∀ field ∈ layout.fields, field.2.layers ≤ most

section ranking

variable {layer most : Nat} {definitions : Definitions} {type own : StaticType} {item part : Item}

/-- An item less pays for the layers around what lies within it. -/
theorem rank_lt_of_height_lt (deeper : part.height < item.height)
    (layers : own.layers ≤ type.layers + most) :
    rank layer most own part + 1 ≤ rank layer most type item := by
  have items : (part.height + 1) * (1 + layer * most) ≤ item.height * (1 + layer * most) :=
    Nat.mul_le_mul_right _ deeper
  have around : layer * own.layers ≤ layer * type.layers + layer * most := by
    rw [← Nat.mul_add]
    exact Nat.mul_le_mul_left _ layers
  rw [Nat.succ_mul] at items
  unfold rank
  omega

/-- Two items less pay for a type of its own around what lies within. -/
theorem rank_embedded {table : TypeTable} {typeItem : Item} (typed : InlineItem table own typeItem)
    (shallow : (Item.tag 130 (.array [typeItem, part])).height ≤ 2 * most + 3) :
    rank layer most own part + 1 ≤ rank layer most type (.tag 130 (.array [typeItem, part])) := by
  obtain ⟨outer, deeper⟩ := height_pair 130 typeItem part
  have layers := typed.layers_lt
  have around : layer * own.layers ≤ layer * (most + most) :=
    Nat.mul_le_mul_left _ (by omega)
  have items : (part.height + 2) * (1 + layer * most) ≤
      (Item.tag 130 (.array [typeItem, part])).height * (1 + layer * most) :=
    Nat.mul_le_mul_right _ deeper
  rw [Nat.mul_add] at around
  rw [Nat.add_mul, Nat.two_mul] at items
  unfold rank
  omega

private theorem height_lt_of_mem_itemsOf (member : part ∈ itemsOf item) :
    part.height < item.height := by
  cases item with
  | array items => exact Item.height_lt_array member
  | _ => cases member

private theorem not_mem_types {items : List Item} : Task.value own part ∉ items.map .type := by
  simp

private theorem not_mem_functionParts : Task.value own part ∉ functionParts item := by
  have signature (item : Item) : Task.value own part ∉ signatureParts item := by
    unfold signatureParts
    split
    next => exact not_mem_types
    next => exact List.not_mem_nil
  unfold functionParts
  split
  next => exact signature _
  next => exact signature _

private theorem of_mem_entryParts {key element : StaticType} {items : List Item}
    (member : Task.value own part ∈ entryParts key element items) :
    part ∈ items ∧ (own = key ∨ own = element) := by
  fun_induction entryParts key element items with
  | case1 first second rest ih =>
    simp only [List.mem_cons, Task.value.injEq] at member ⊢
    rcases member with ⟨rfl, rfl⟩ | ⟨rfl, rfl⟩ | inside
    · exact ⟨.inl rfl, .inl rfl⟩
    · exact ⟨.inr (.inl rfl), .inr rfl⟩
    · exact ⟨.inr (.inr (ih inside).1), (ih inside).2⟩
  | case2 => cases member

/-- With every reader that is called the rank falls by what the caller adds, so no more readers are
called within each other than the rank allows for. -/
theorem rank_of_calls (layered : definitions.Layered most) (shallow : item.height ≤ 2 * most + 3)
    (calls : Calls definitions (type, item) (own, part)) :
    rank layer most own part + cost layer type ≤ rank layer most type item ∧
      part.height ≤ item.height := by
  have embedded (inside : Task.value own part ∈ embeddedParts definitions.table item) :
      rank layer most own part + 1 ≤ rank layer most type item ∧ part.height ≤ item.height := by
    unfold embeddedParts at inside
    split at inside
    next typeItem item =>
      split at inside
      next known typed =>
        obtain ⟨rfl, rfl⟩ := Task.value.inj (List.mem_singleton.1 inside)
        have deeper := (height_pair 130 typeItem part).2
        exact ⟨rank_embedded (inlineType_eq_ok.1 typed) shallow, by omega⟩
      next => cases inside
    next => cases inside
  have deeper (inside : part ∈ itemsOf item) (layers : own.layers ≤ type.layers + most) :
      rank layer most own part + 1 ≤ rank layer most type item ∧ part.height ≤ item.height := by
    have less := height_lt_of_mem_itemsOf inside
    exact ⟨rank_lt_of_height_lt less layers, Nat.le_of_lt less⟩
  unfold Calls valueParts at calls
  dsimp only at calls
  cases type with
  | optional content =>
    dsimp only at calls
    split at calls
    next => cases calls
    next =>
      obtain ⟨rfl, rfl⟩ := Task.value.inj (List.mem_singleton.1 calls)
      simp only [rank, cost, StaticType.layers, Nat.mul_succ]
      omega
  | reference granted referenced =>
    obtain ⟨rfl, rfl⟩ := Task.value.inj (List.mem_singleton.1 calls)
    simp only [rank, cost, StaticType.layers, Nat.mul_succ]
    omega
  | variableArray element | constantArray size element | inclusiveRange element =>
    obtain ⟨part, inside, same⟩ := List.mem_map.1 calls
    obtain ⟨rfl, rfl⟩ := Task.value.inj same
    exact deeper inside (Nat.le_add_right _ _)
  | dictionary key element =>
    obtain ⟨inside, known⟩ := of_mem_entryParts calls
    refine deeper inside ?_
    rw [StaticType.layers]
    rcases known with rfl | rfl <;> omega
  | simple type =>
    cases type with
    | abstract => exact embedded calls
    | function => exact absurd calls not_mem_functionParts
    | metaType => cases List.mem_singleton.1 calls
    | _ => cases calls
  | function => exact absurd calls not_mem_functionParts
  | intersection | restricted => exact embedded calls
  | nominal declared =>
    dsimp only at calls
    split at calls
    next => exact embedded calls
    next =>
      split at calls
      next layout found =>
        obtain ⟨i, there, same⟩ := List.mem_iff_getElem.1 calls
        rw [List.getElem_zipWith] at same
        obtain ⟨rfl, rfl⟩ := Task.value.inj same
        have named := List.getElem_mem (List.lt_length_left_of_zipWith there)
        have laid := Definitions.layout?_eq_some_iff.1 found
        have within := layered layout laid.mem _ named
        exact deeper (List.getElem_mem _) (Nat.le_trans within (Nat.le_add_left _ _))
      next => cases calls
  | _ => cases calls

/-- Readers of values call each other within each other as often as the rank says at most. -/
theorem length_le_rank (layered : definitions.Layered most) (shallow : item.height ≤ 2 * most + 3)
    {within : List (StaticType × Item)}
    (calls : List.IsChain (Calls definitions) ((type, item) :: within)) :
    within.length ≤ rank 1 most type item := by
  induction within generalizing type item with
  | nil => exact Nat.zero_le _
  | cons inner within ih =>
    obtain ⟨first, rest⟩ := List.isChain_cons_cons.1 calls
    have paid : cost 1 type = 1 := by cases type <;> rfl
    have lower : rank 1 most inner.1 inner.2 + cost 1 type ≤ rank 1 most type item ∧ _ :=
      rank_of_calls layered shallow first
    have others := ih (Nat.le_trans lower.2 shallow) rest
    rw [paid] at lower
    exact Nat.le_trans (Nat.succ_le_succ others) lower.1

end ranking

section values

variable {layer most : Nat} {lossless : Bool} {definitions : Definitions} {before after : Bound}

theorem SimpleItem.nesting {type : SimpleType} {v : Value} {item : Item}
    (written : SimpleItem before type v item after) : v.nesting layer = 0 := by
  cases written <;> rfl

/-- What holds items, and whose types are as layered as the fields of composites at most, is as deep
as what it holds allows for. -/
theorem rank_of_mem {type own : StaticType} {items : List Item} {part : Item}
    (shallow : (Item.array items).height ≤ 2 * most + 3) (member : part ∈ items)
    (layers : own.layers ≤ type.layers + most) :
    part.height ≤ 2 * most + 3 ∧
      rank layer most own part < rank layer most type (.array items) := by
  have less := Item.height_lt_array member
  exact ⟨Nat.le_trans (Nat.le_of_lt less) shallow, rank_lt_of_height_lt less layers⟩

mutual

/-- What is read is as deep as the rank allows for, and one deeper if there is nothing in it. -/
theorem ValueItem.nesting_le (layered : definitions.Layered most) {before after : Bound}
    {type : StaticType} {v : Value} {item : Item}
    (written : ValueItem lossless definitions before type v item after)
    (shallow : item.height ≤ 2 * most + 3) : v.nesting layer ≤ rank layer most type item + 1 := by
  match written with
  | .simple written =>
    rw [written.nesting]
    exact Nat.zero_le _
  | .nil content =>
    rw [Value.nesting, rank, StaticType.layers, Nat.mul_succ]
    omega
  | .present _ inner =>
    have deep := inner.nesting_le layered shallow
    simp only [Value.nesting, rank, StaticType.layers, Nat.mul_succ] at deep ⊢
    omega
  | .reference _ inner =>
    have deep := inner.nesting_le layered shallow
    simp only [rank, StaticType.layers, Nat.mul_succ] at deep ⊢
    omega
  | .variableArray inner | .constantArray _ inner =>
    refine Nat.succ_le_succ (inner.nesting_le layered fun item member => ?_)
    exact rank_of_mem shallow member (Nat.le_add_right _ _)
  | @ValueItem.dictionary _ _ before after keyType itemType pairs items inner =>
    refine Nat.succ_le_succ (inner.nesting_le layered fun item member => ?_)
    have keys : _ ∧ rank layer most keyType item <
        rank layer most (.dictionary keyType itemType) (.array items) :=
      rank_of_mem shallow member (by rw [StaticType.layers]; omega)
    have values : _ ∧ rank layer most itemType item <
        rank layer most (.dictionary keyType itemType) (.array items) :=
      rank_of_mem shallow member (by rw [StaticType.layers]; omega)
    exact ⟨keys.1, keys.2, values.2⟩
  | .capability id holder | .capabilityOf borrowed id holder | .function _ _ => exact Nat.zero_le _
  | @ValueItem.range _ _ _ _ _ _ element start stop step startItem stopItem stepItem first last
      difference =>
    have below : ∀ item ∈ [startItem, stopItem, stepItem], item.height ≤ 2 * most + 3 ∧
        rank layer most element item < rank layer most (.inclusiveRange element) (.array _) :=
      fun item member => rank_of_mem shallow member (Nat.le_add_right _ _)
    have one := below startItem (by simp)
    have two := below stopItem (by simp)
    have three := below stepItem (by simp)
    have deep := first.nesting_le layered one.1
    have deep' := last.nesting_le layered two.1
    have deep'' := difference.nesting_le layered three.1
    rw [Value.nesting]
    omega
  | @ValueItem.embedded _ _ before after type own v typeItem item opens typed inner =>
    have outer := (height_pair 130 typeItem item).2
    have deep := inner.nesting_le layered (by omega)
    exact Nat.le_trans deep (Nat.le_succ_of_le (rank_embedded typed shallow))
  | .composite concrete laid inner =>
    refine Nat.succ_le_succ (inner.nesting_le layered fun field named item member => ?_)
    have within := layered _ laid.mem field named
    exact rank_of_mem shallow member (Nat.le_trans within (Nat.le_add_left _ _))

theorem ValueItems.nesting_le (layered : definitions.Layered most) {before after : Bound}
    {element : StaticType} {elements : List Value} {items : List Item} {bound : Nat}
    (written : ValueItems lossless definitions before element elements items after)
    (below : ∀ item ∈ items, item.height ≤ 2 * most + 3 ∧ rank layer most element item < bound) :
    Value.nestingOf layer elements ≤ bound := by
  match written with
  | .nil => exact Nat.zero_le _
  | .cons head tail =>
    obtain ⟨first, rest⟩ := List.forall_mem_cons.1 below
    have deep := head.nesting_le layered first.1
    have others := tail.nesting_le layered rest
    exact Nat.max_le.2 ⟨Nat.le_trans deep first.2, others⟩

theorem EntryItems.nesting_le (layered : definitions.Layered most) {before after : Bound}
    {keyType itemType : StaticType} {pairs : List (Value × Value)} {items : List Item} {bound : Nat}
    (written : EntryItems lossless definitions before keyType itemType pairs items after)
    (below : ∀ item ∈ items, item.height ≤ 2 * most + 3 ∧
      rank layer most keyType item < bound ∧ rank layer most itemType item < bound) :
    Value.nestingOfEntries layer pairs ≤ bound := by
  match written with
  | .nil => exact Nat.zero_le _
  | .cons name head tail =>
    obtain ⟨first, below⟩ := List.forall_mem_cons.1 below
    obtain ⟨second, below⟩ := List.forall_mem_cons.1 below
    have key := name.nesting_le layered first.1
    have deep := head.nesting_le layered second.1
    have others := tail.nesting_le layered below
    refine Nat.max_le.2 ⟨Nat.max_le.2 ⟨?_, ?_⟩, others⟩
    · exact Nat.le_trans key first.2.1
    · exact Nat.le_trans deep second.2.2

theorem PartItems.nesting_le (layered : definitions.Layered most) {before after : Bound}
    {declared : List (String × StaticType)} {parts : List (Field × Value)} {items : List Item}
    {bound : Nat} (written : PartItems lossless definitions before declared parts items after)
    (below : ∀ field ∈ declared, ∀ item ∈ items, item.height ≤ 2 * most + 3 ∧
      rank layer most field.2 item < bound) :
    Value.nestingOfFields layer parts ≤ bound := by
  match written with
  | .nil => exact Nat.zero_le _
  | .cons name head tail =>
    obtain ⟨first, rest⟩ := List.forall_mem_cons.1 below
    obtain ⟨here, -⟩ := List.forall_mem_cons.1 first
    have deep := head.nesting_le layered here.1
    have others := tail.nesting_le layered fun field named item member =>
      rest field named item (List.mem_cons_of_mem _ member)
    exact Nat.max_le.2 ⟨Nat.le_trans deep here.2, others⟩

end

end values

section messages

variable {whole third : Item} {definitions : Definitions} {type : StaticType}

theorem FieldItem.layers_le {table : TypeTable} {field : String × StaticType} {item : Item}
    (written : FieldItem table field item) : field.2.layers + 2 ≤ item.height := by
  cases written with
  | @field name type item typed =>
    have layers := typed.layers_lt
    have outer : item.height < (Item.array [.text name, item]).height :=
      Item.height_lt_array (by simp)
    dsimp only
    omega

theorem TypedefItem.layers_le {table : TypeTable} {t : Typedef} {item : Item}
    (written : TypedefItem table t item) :
    ∀ field ∈ t.fields, field.2.layers + 5 ≤ item.height := by
  -- Behind whatever comes before it, the list of fields is an item of the definition.
  have listed {fields : List (String × StaticType)} {items front : List Item} {number : Nat}
      (laid : List.Forall₂ (FieldItem table) fields items) : ∀ field ∈ fields,
        field.2.layers + 5 ≤ (Item.tag number (.array (front ++ [.array items]))).height := by
    intro field member
    obtain ⟨item, inside, inner⟩ := exists_mem_of_forall₂ laid member
    have layers := inner.layers_le
    have outer := Item.height_lt_array inside
    have outer' : (Item.array items).height < (Item.array (front ++ [.array items])).height :=
      Item.height_lt_array (by simp)
    rw [Item.height]
    omega
  cases written with
  | interface => exact fun field member => absurd member List.not_mem_nil
  | composite concrete id name laid => exact @listed _ _ [.bytes id, .text name] _ laid
  | attachment id name attached laid => exact @listed _ _ [.bytes id, .text name, _] _ laid

/-- Types of fields lie deep within the definitions of a message, which leaves them few layers. -/
theorem Definitions.layered_of_read {item : Item} {most : Nat}
    (defined : Definitions.read item = .ok definitions) (shallow : item.height ≤ most + 6) :
    definitions.Layered most := by
  obtain ⟨typedefs, written, rfl⟩ := Definitions.read_eq_ok.1 defined
  obtain ⟨distinct, laid⟩ := written
  intro layout member field named
  obtain ⟨t, listed, -, rfl⟩ := Typedef.exists_of_mem_layouts member
  obtain ⟨item, inside, inner⟩ := exists_mem_of_forall₂ laid listed
  have layers := inner.layers_le field named
  have outer := Item.height_lt_array inside
  omega

/-- What a message opens with leaves room for few layers and few items in its value. -/
theorem Opens.rank_le (opens : Opens whole definitions type third)
    (shallow : whole.height ≤ Cbor.maxDepth) :
    third.height < 255 ∧ ∃ most, definitions.Layered most ∧ third.height ≤ 2 * most + 3 ∧
      rank 1 most type third < 63250 := by
  rw [show Cbor.maxDepth = 256 from rfl] at shallow
  cases opens with
  | @defining definitions type first second third defined typed =>
    have layers := (inlineType_eq_ok.1 typed).layers_lt
    obtain ⟨left, right⟩ := height_pair 129 first (.array [second, third])
    have typeOuter : second.height < (Item.array [second, third]).height :=
      Item.height_lt_array (by simp)
    have outer : third.height < (Item.array [second, third]).height :=
      Item.height_lt_array (by simp)
    refine ⟨by omega, 248, Definitions.layered_of_read defined (by omega), by omega, ?_⟩
    unfold rank
    omega
  | @bare type second third typed =>
    have layers := (inlineType_eq_ok.1 typed).layers_lt
    obtain ⟨left, right⟩ := height_pair 130 second third
    refine ⟨by omega, 126, ?_, by omega, ?_⟩
    · intro layout member
      cases member
    · unfold rank
      omega

/-- The limit on how deep items lie in each other keeps values within bounds, whatever is defined:
of all containers but optionals there are fewer within each other than the limit. Each of them may
have optionals around it, as many as there is room for in a type, so with these there may be 63250,
and in some messages there are. As many values at most does a recursion over the value go through on
its way down, and as many readers does the reader of the value have call each other. -/
theorem decode_nesting :
    (∀ payload v, decode payload = .ok v →
      v.nesting 0 < Cbor.maxDepth ∧ v.nesting 1 ≤ 63250 ∧
      (∀ below, List.IsChain (fun whole part => part ∈ whole.parts) (v :: below) →
        below.length ≤ 63250) ∧
      ∀ item definitions type third, Cbor.read payload = .ok (item, []) →
        Opens item definitions type third → ∀ within,
          List.IsChain (Calls definitions) ((type, third) :: within) → within.length < 63250) ∧
    ∃ payload v, decode payload = .ok v ∧ v.nesting 1 = 63250 := by
  constructor
  case left =>
    intro payload v decoded
    obtain ⟨item, read, accepted⟩ := decode_eq_ok.1 decoded
    obtain ⟨-, -, shallow, -⟩ := Cbor.read_eq_ok.1 read
    obtain ⟨definitions, type, third, after, opens, yields⟩ := message_eq_ok.1 accepted
    obtain ⟨height, most, layered, fits, bound⟩ := opens.rank_le shallow
    have written := value_yields.1 yields
    have deep : v.nesting 1 ≤ 63250 := Nat.le_trans (written.nesting_le layered fits) bound
    refine ⟨?_, deep, ?_, ?_⟩
    · have containers : v.nesting 0 ≤ rank 0 most type third + 1 := written.nesting_le layered fits
      rw [show Cbor.maxDepth = 256 from rfl]
      unfold rank at containers
      omega
    · intro below down
      exact Nat.le_trans (Value.length_le_nesting down) deep
    · intro item' definitions type third read' opens within calls
      obtain rfl : item = item' := by
        rw [read] at read'
        cases read'
        rfl
      obtain ⟨-, most, layered, fits, bound⟩ := opens.rank_le shallow
      exact Nat.lt_of_le_of_lt (length_le_rank layered fits calls) bound
  case right =>
    have room : 248 + 8 ≤ Cbor.maxDepth ∧ 253 + 3 ≤ Cbor.maxDepth ∧ 252 + 4 ≤ Cbor.maxDepth := by
      decide
    obtain ⟨payload, decoded⟩ := exists_decode_descent room.1 room.2.1 room.2.2
    refine ⟨payload, _, decoded, ?_⟩
    rw [Value.nesting_iterate_present, nesting_descent]

/-- A message of an array of one optional. -/
theorem decode_nesting_optional :
    let v : Value := .array [.present (.bool true)]
    decode [0xd8, 0x82, 0x82, 0xd8, 0x8b, 0xd8, 0x8a, 0xd8, 0x89, 0x00, 0x81, 0xf5] = .ok v ∧
      v.nesting 0 < Cbor.maxDepth ∧ v.nesting 1 ≤ 63250 ∧
      [Value.present (.bool true), .bool true].length ≤ 63250 ∧
      [(StaticType.optional (.simple .bool), Item.bool true),
        (.simple .bool, .bool true)].length < 63250 := by
  intro v
  have decoded : decode [0xd8, 0x82, 0x82, 0xd8, 0x8b, 0xd8, 0x8a, 0xd8, 0x89, 0x00, 0x81, 0xf5] =
      .ok v := rfl
  obtain ⟨containers, deep, values, readers⟩ := decode_nesting.1 _ v decoded
  have down : List.IsChain (fun whole part => part ∈ whole.parts)
      [v, .present (.bool true), .bool true] := by
    simp [v, Value.parts]
  have calls : List.IsChain (Calls .empty)
      [(.variableArray (.optional (.simple .bool)), .array [.bool true]),
        (.optional (.simple .bool), .bool true), (.simple .bool, .bool true)] := by
    simp [Calls, valueParts, itemsOf]
  exact ⟨decoded, containers, deep, values _ down, readers _ _ _ _ rfl (.bare rfl) _ calls⟩

set_option maxRecDepth 2000 in
/-- A struct with a field of its own type in sixteen optionals: each of the sixteen structs within
each other takes up an item of the message, but their optionals do not. -/
theorem nesting_exceeds_maxDepth :
    ∃ v, decode ([0xd8, 0x81, 0x82, 0x81, 0xd8, 0xa0, 0x83, 0x41, 0x01, 0x61, 0x53, 0x81, 0x82,
        0x61, 0x61] ++ (List.replicate 16 [0xd8, 0x8a]).flatten ++
        [0xd8, 0x88, 0x41, 0x01, 0x82, 0xd8, 0x88, 0x41, 0x01] ++ List.replicate 16 0x81 ++
        [0xf6]) = .ok v ∧ Cbor.maxDepth < v.nesting 1 :=
  ⟨_, rfl, by decide⟩

end messages

end Ccf

end CadenceWire
