import CadenceWire.Proofs.Ccf.WrittenType
import CadenceWire.Proofs.Value.Every

/-!
Every value of a type has an item. Only an optional that is there while its content is written as
null loses something: it cannot be told from one that is not there.
-/
namespace CadenceWire.Ccf

open Cbor (Item)

/-- What a message writes as null. -/
def WrittenNull : Value → Prop
  | .nil | .void | .type none => True
  | _ => False

/-- An optional that is there can be told from one that is not. -/
def Telling : Value → Prop
  | .present content => ¬ WrittenNull content
  | _ => True

private theorem exists_numberItem {n : Int} (low : -Width.w256.count ≤ n)
    (high : n < Width.w256.count) : ∃ item, NumberItem n item ∧ item.Encodable := by
  by_cases negative : n < 0
  · obtain ⟨content, length, denoted⟩ :=
      Cbor.exists_denoted 32 (-1 - n).toNat (show _ < Width.w256.count by omega)
    have same : n = -1 - (Cbor.denoted content : Int) := by omega
    rw [same]
    exact ⟨_, .countingDown content (by simp [length]), by decide, trivial⟩
  · obtain ⟨content, length, denoted⟩ :=
      Cbor.exists_denoted 32 n.toNat (show _ < Width.w256.count by omega)
    have same : n = (Cbor.denoted content : Int) := by omega
    rw [same]
    exact ⟨_, .counting content (by simp [length]), by decide, trivial⟩

theorem NumberItem.ne_null {n : Int} {item : Item} (written : NumberItem n item) :
    item ≠ .null := by
  cases written <;> simp

private theorem exists_integerItem (n : Integer) :
    ∃ item, NumberItem n.value item ∧ item.Encodable := by
  have bounds (kind : IntegerKind) :
      -Width.w256.count ≤ kind.min ∧ kind.max < Width.w256.count := by
    cases kind with
    | int | uint => decide
    | intOf w | uintOf w | wordOf w => cases w <;> decide
  obtain ⟨low, high⟩ := bounds n.kind
  exact exists_numberItem (Int.le_trans low n.holds.1) (Int.lt_of_le_of_lt n.holds.2 high)

private theorem exists_fixedPointItem (n : FixedPoint) :
    ∃ item, NumberItem n.scaled item ∧ item.Encodable := by
  obtain ⟨kind, scaled, holds⟩ := n
  cases kind with
  | fix64 | ufix64 =>
    simp only [FixedPointKind.Holds, Width.half, Width.count, Width.bits] at holds
    refine exists_numberItem ?_ ?_ <;> simp only [Width.count, Width.bits] <;> omega

private theorem exists_simpleItem {type : SimpleType} {v : Value} (inhabits : SimpleInhabits type v)
    (before : Bound) : ∃ item after, SimpleItem before type v item after ∧ item.Encodable := by
  cases inhabits with
  | void => exact ⟨_, _, .void, trivial⟩
  | bool b => exact ⟨_, _, .bool b, trivial⟩
  | string s => exact ⟨_, _, .string s, trivial⟩
  | character s => exact ⟨_, _, .character s, trivial⟩
  | bytes content => exact ⟨_, _, .bytes content, trivial⟩
  | address owner => exact ⟨_, _, .address owner, trivial⟩
  | integer n =>
    obtain ⟨item, written, encodable⟩ := exists_integerItem n
    exact ⟨_, _, .integer written, encodable⟩
  | fixedPoint n =>
    obtain ⟨item, written, encodable⟩ := exists_fixedPointItem n
    exact ⟨_, _, .fixedPoint written, encodable⟩
  | path domain p =>
    have small := encodable_natural.2 (domainNumber_lt p.domain)
    exact ⟨_, _, .path domain p, encodable_pair.2 ⟨small, trivial⟩⟩
  | unknownType => exact ⟨_, _, .unknownType, trivial⟩
  | type structured =>
    obtain ⟨item, after, written, encodable⟩ := exists_typeItem _ structured before
    exact ⟨_, _, .type written, encodable⟩
  | function structured =>
    obtain ⟨item, after, written, encodable⟩ := exists_signatureItem _ structured before
    exact ⟨_, _, .function (.tagged written), by decide, encodable⟩

variable {definitions : Definitions} {lossless : Bool}

/-- Nothing but what a message writes as null is written as null. -/
theorem ValueItem.writtenNull {before after : Bound} {type : StaticType} {v : Value}
    (written : ValueItem true definitions before type v .null after) :
    WrittenNull v ∧ after = before := by
  match written with
  | .simple written =>
    cases written with
    | void | unknownType => exact ⟨trivial, rfl⟩
    | integer written | fixedPoint written => exact absurd rfl written.ne_null
    | type written => cases written
    | function written => cases written with | bare inner => cases inner
  | .nil _ => exact ⟨trivial, rfl⟩
  | .present there _ => exact absurd rfl (there rfl)
  | .reference _ inner => exact inner.writtenNull
  | .function _ written => cases written with | bare inner => cases inner

private theorem exists_valueItems {element : StaticType} {elements : List Value}
    (each : ∀ v ∈ elements, ∀ before, ∃ item after,
      ValueItem lossless definitions before element v item after ∧ item.Encodable)
    (before : Bound) :
    ∃ items after, ValueItems lossless definitions before element elements items after ∧
      items.length = elements.length ∧ (Item.array items).Encodable := by
  induction elements generalizing before with
  | nil => exact ⟨[], before, .nil, rfl, trivial⟩
  | cons v elements ih =>
    obtain ⟨first, others⟩ := List.forall_mem_cons.1 each
    obtain ⟨item, between, head, encodable⟩ := first before
    obtain ⟨items, after, tail, length, encodable'⟩ := ih others between
    exact ⟨_, _, .cons head tail, congrArg (· + 1) length, encodable, encodable'⟩

private theorem exists_entryItems {keyType itemType : StaticType} {pairs : List (Value × Value)}
    (keys : ∀ entry ∈ pairs, ∀ before, ∃ item after,
      ValueItem lossless definitions before keyType entry.1 item after ∧ item.Encodable)
    (items : ∀ entry ∈ pairs, ∀ before, ∃ item after,
      ValueItem lossless definitions before itemType entry.2 item after ∧ item.Encodable)
    (before : Bound) :
    ∃ items after, EntryItems lossless definitions before keyType itemType pairs items after ∧
      (Item.array items).Encodable := by
  induction pairs generalizing before with
  | nil => exact ⟨[], before, .nil, trivial⟩
  | cons entry pairs ih =>
    obtain ⟨name, names⟩ := List.forall_mem_cons.1 keys
    obtain ⟨first, others⟩ := List.forall_mem_cons.1 items
    obtain ⟨key, middle, read, encodable⟩ := name before
    obtain ⟨item, between, head, encodable'⟩ := first middle
    obtain ⟨items, after, tail, encodable''⟩ := ih names others between
    exact ⟨_, _, .cons read head tail, encodable, encodable', encodable''⟩

private theorem exists_partItems {declared : List (String × StaticType)}
    {parts : List (Field × Value)}
    (names : parts.map Prod.fst = declared.map fun field => ⟨field.1, some field.2⟩)
    (each : ∀ part ∈ parts, ∀ type, part.1.type = some type → ∀ before, ∃ item after,
      ValueItem lossless definitions before type part.2 item after ∧ item.Encodable)
    (before : Bound) :
    ∃ items after, PartItems lossless definitions before declared parts items after ∧
      (Item.array items).Encodable := by
  induction declared generalizing parts before with
  | nil =>
    obtain rfl := List.map_eq_nil_iff.1 names
    exact ⟨[], before, .nil, trivial⟩
  | cons field declared ih =>
    obtain ⟨⟨_, v⟩, parts, rfl, same, rest⟩ := List.map_eq_cons_iff.1 names
    cases same
    obtain ⟨first, others⟩ := List.forall_mem_cons.1 each
    obtain ⟨item, between, head, encodable⟩ := first field.2 rfl before
    obtain ⟨items, after, tail, encodable'⟩ := ih rest others between
    exact ⟨_, _, .cons field.1 head tail, encodable, encodable'⟩

theorem exists_valueItem {type : StaticType} {v : Value} (inhabits : Inhabits definitions type v)
    (telling : lossless = true → v.Every Telling) (before : Bound) :
    ∃ item after, ValueItem lossless definitions before type v item after ∧ item.Encodable := by
  induction inhabits generalizing before with
  | simple inhabits =>
    obtain ⟨item, after, written, encodable⟩ := exists_simpleItem inhabits before
    exact ⟨_, _, .simple written, encodable⟩
  | nil content => exact ⟨_, _, .nil content, trivial⟩
  | present _ ih =>
    obtain ⟨item, after, inner, encodable⟩ := ih (fun exact => (telling exact).2) before
    refine ⟨_, _, .present ?_ inner, encodable⟩
    -- Were the content written as null, it would be what the optional must not hold.
    rintro rfl rfl
    exact (telling rfl).1 inner.writtenNull.1
  | reference _ ih =>
    obtain ⟨item, after, inner, encodable⟩ := ih telling before
    exact ⟨_, _, .reference _ inner, encodable⟩
  | variableArray _ ih =>
    obtain ⟨items, after, inner, -, encodable⟩ := exists_valueItems (fun v member =>
      ih v member fun exact => Value.everyOf_iff.1 (telling exact).2 v member) before
    exact ⟨_, _, .variableArray inner, encodable⟩
  | constantArray length _ ih =>
    obtain ⟨items, after, inner, same, encodable⟩ := exists_valueItems (fun v member =>
      ih v member fun exact => Value.everyOf_iff.1 (telling exact).2 v member) before
    exact ⟨_, _, .constantArray (same.trans length) inner, encodable⟩
  | dictionary _ _ keys items =>
    have every exact := Value.everyEntry_iff.1 (telling exact).2
    obtain ⟨items, after, inner, encodable⟩ := exists_entryItems
      (fun entry member => keys entry member fun exact => (every exact entry member).1)
      (fun entry member => items entry member fun exact => (every exact entry member).2) before
    exact ⟨_, _, .dictionary inner, encodable⟩
  | capability id holder =>
    exact ⟨_, _, .capability id holder, trivial, encodable_size id, trivial⟩
  | capabilityOf borrowed id holder =>
    exact ⟨_, _, .capabilityOf borrowed id holder, trivial, encodable_size id, trivial⟩
  | range _ _ _ first last difference =>
    obtain ⟨start, second, first, encodable⟩ := first (fun exact => (telling exact).2.1) before
    obtain ⟨stop, third, last, encodable'⟩ := last (fun exact => (telling exact).2.2.1) second
    obtain ⟨step, after, difference, encodable''⟩ :=
      difference (fun exact => (telling exact).2.2.2) third
    exact ⟨_, _, .range first last difference, encodable, encodable', encodable'', trivial⟩
  | embedded opens inline _ ih =>
    obtain ⟨typeItem, typed, encodable⟩ := exists_inlineItem _ inline
    obtain ⟨item, after, inner, encodable'⟩ := ih telling before
    exact ⟨_, _, .embedded opens typed inner, by decide, encodable_pair.2 ⟨encodable, encodable'⟩⟩
  | composite concrete laid names _ ih =>
    obtain ⟨items, after, inner, encodable⟩ := exists_partItems names
      (fun part member type same => ih part member type same fun exact =>
        Value.everyField_iff.1 (telling exact).2 part member) before
    exact ⟨_, _, .composite concrete laid inner, encodable⟩

end CadenceWire.Ccf
