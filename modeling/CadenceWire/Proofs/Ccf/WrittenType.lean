import CadenceWire.Proofs.Cbor.Encodable
import CadenceWire.Proofs.Ccf.Inhabits

/-!
Every type has an item: inline types where the message defines what they name, and types that are
values wherever they stand.
-/
namespace CadenceWire.Ccf

open Cbor (Item)

variable {table : TypeTable}

theorem encodable_pair {first second : Item} :
    (Item.array [first, second]).Encodable ↔ first.Encodable ∧ second.Encodable := by
  simp [Cbor.Item.encodable_array]

theorem encodable_natural {n : Nat} : (Item.integer n).Encodable ↔ n < Width.w64.count := by
  simp only [Item.Encodable]
  omega

theorem encodable_size (n : UInt64) : (Item.integer n.toNat).Encodable :=
  encodable_natural.2 n.toNat_lt

private theorem encodable_simpleNumber (type : SimpleType) :
    (Item.integer (simpleNumber type)).Encodable :=
  encodable_natural.2 (simpleNumber_lt type)

private theorem encodable_texts (texts : List String) :
    (Item.array (texts.map .text)).Encodable := by
  rw [Cbor.Item.encodable_array]
  simp [Item.Encodable]

private theorem exists_authorizationItem (granted : Authorization) :
    ∃ item, AuthorizationItem granted item ∧ item.Encodable := by
  cases granted with
  | unauthorized => exact ⟨_, .unauthorized, trivial⟩
  | legacy => exact ⟨_, .legacy, trivial⟩
  | conjunction entitlements =>
    exact ⟨_, .conjunction entitlements, by decide,
      encodable_pair.2 ⟨encodable_size 0, encodable_texts entitlements⟩⟩
  | disjunction entitlements =>
    exact ⟨_, .disjunction entitlements, by decide,
      encodable_pair.2 ⟨encodable_size 1, encodable_texts entitlements⟩⟩
  | mapping entitlementMap => exact ⟨_, .mapping entitlementMap, by decide, trivial⟩

mutual

theorem exists_inlineItem (type : StaticType) (inline : IsInline table type) :
    ∃ item, InlineItem table type item ∧ item.Encodable := by
  match type with
  | .simple type => exact ⟨_, .simple type, by decide, encodable_simpleNumber type⟩
  | .optional content =>
    obtain ⟨item, inner, encodable⟩ := exists_inlineItem content inline.2
    exact ⟨_, .optional inner, by decide, encodable⟩
  | .variableArray element =>
    obtain ⟨item, inner, encodable⟩ := exists_inlineItem element inline.2
    exact ⟨_, .variableArray inner, by decide, encodable⟩
  | .constantArray size element =>
    obtain ⟨item, inner, encodable⟩ := exists_inlineItem element inline.2
    exact ⟨_, .constantArray size inner, by decide,
      encodable_pair.2 ⟨encodable_size size, encodable⟩⟩
  | .dictionary key value =>
    obtain ⟨first, keys, encodable⟩ := exists_inlineItem key inline.2.1
    obtain ⟨second, values, encodable'⟩ := exists_inlineItem value inline.2.2
    exact ⟨_, .dictionary keys values, by decide, encodable_pair.2 ⟨encodable, encodable'⟩⟩
  | .reference granted referenced =>
    obtain ⟨first, grant, encodable⟩ := exists_authorizationItem granted
    obtain ⟨second, inner, encodable'⟩ := exists_inlineItem referenced inline.2
    exact ⟨_, .reference grant inner, by decide, encodable_pair.2 ⟨encodable, encodable'⟩⟩
  | .intersection types =>
    obtain ⟨items, inner, encodable⟩ := exists_inlineItems types inline.2
    exact ⟨_, .intersection inner, by decide, encodable⟩
  | .restricted base types =>
    obtain ⟨item, outer, encodable⟩ := exists_inlineItem base inline.2.1
    obtain ⟨items, inner, encodable'⟩ := exists_inlineItems types inline.2.2
    exact ⟨_, .restricted outer inner, by decide, encodable_pair.2 ⟨encodable, encodable'⟩⟩
  | .capability => exact ⟨_, .capability, by decide, trivial⟩
  | .capabilityOf borrowed =>
    obtain ⟨item, inner, encodable⟩ := exists_inlineItem borrowed inline.2
    exact ⟨_, .capabilityOf inner, by decide, encodable⟩
  | .inclusiveRange element =>
    obtain ⟨item, inner, encodable⟩ := exists_inlineItem element inline.2
    exact ⟨_, .inclusiveRange inner, by decide, encodable⟩
  | .nominal type =>
    obtain ⟨id, found⟩ := inline
    exact ⟨_, .known found, by decide, trivial⟩
  | .function signature => exact inline.1.elim
  | .unstructured id => exact inline.elim

theorem exists_inlineItems (types : List StaticType)
    (inline : StaticType.EveryOf (InlineForm table) types) :
    ∃ items, InlineItems table types items ∧ (Item.array items).Encodable := by
  match types with
  | [] => exact ⟨[], .nil, trivial⟩
  | type :: rest =>
    obtain ⟨item, head, encodable⟩ := exists_inlineItem type inline.1
    obtain ⟨items, tail, encodable'⟩ := exists_inlineItems rest inline.2
    exact ⟨_, .cons head tail, encodable, encodable'⟩

end

/-- The types that inline types stand for are those made of what a message defines. -/
theorem isInline_iff {type : StaticType} :
    IsInline table type ↔ ∃ item, inlineType table item = .ok type := by
  constructor
  · intro inline
    obtain ⟨item, written, -⟩ := exists_inlineItem type inline
    exact ⟨item, written.eq_ok⟩
  · rintro ⟨item, accepted⟩
    exact (inlineType_eq_ok.1 accepted).isInline

mutual

theorem exists_typeItem (type : StaticType) (structured : type.Structured) (before : Bound) :
    ∃ item after, TypeItem before type item after ∧ item.Encodable := by
  match type with
  | .simple type => exact ⟨_, _, .simple type, by decide, encodable_simpleNumber type⟩
  | .optional content =>
    obtain ⟨item, after, inner, encodable⟩ := exists_typeItem content structured.2 before
    exact ⟨_, _, .optional inner, by decide, encodable⟩
  | .variableArray element =>
    obtain ⟨item, after, inner, encodable⟩ := exists_typeItem element structured.2 before
    exact ⟨_, _, .variableArray inner, by decide, encodable⟩
  | .constantArray size element =>
    obtain ⟨item, after, inner, encodable⟩ := exists_typeItem element structured.2 before
    exact ⟨_, _, .constantArray size inner, by decide,
      encodable_pair.2 ⟨encodable_size size, encodable⟩⟩
  | .dictionary key value =>
    obtain ⟨first, between, keys, encodable⟩ := exists_typeItem key structured.2.1 before
    obtain ⟨second, after, values, encodable'⟩ := exists_typeItem value structured.2.2 between
    exact ⟨_, _, .dictionary keys values, by decide, encodable_pair.2 ⟨encodable, encodable'⟩⟩
  | .reference granted referenced =>
    obtain ⟨first, grant, encodable⟩ := exists_authorizationItem granted
    obtain ⟨second, after, inner, encodable'⟩ := exists_typeItem referenced structured.2 before
    exact ⟨_, _, .reference grant inner, by decide, encodable_pair.2 ⟨encodable, encodable'⟩⟩
  | .intersection types =>
    obtain ⟨items, after, inner, encodable⟩ := exists_typeItems types structured.2 before
    exact ⟨_, _, .intersection inner, by decide, encodable⟩
  | .restricted base types =>
    obtain ⟨item, between, outer, encodable⟩ := exists_typeItem base structured.2.1 before
    obtain ⟨items, after, inner, encodable'⟩ := exists_typeItems types structured.2.2 between
    exact ⟨_, _, .restricted outer inner, by decide, encodable_pair.2 ⟨encodable, encodable'⟩⟩
  | .capability => exact ⟨_, before, .capability, by decide, trivial⟩
  | .capabilityOf borrowed =>
    obtain ⟨item, after, inner, encodable⟩ := exists_typeItem borrowed structured.2 before
    exact ⟨_, _, .capabilityOf inner, by decide, encodable⟩
  | .inclusiveRange element =>
    obtain ⟨item, after, inner, encodable⟩ := exists_typeItem element structured.2 before
    exact ⟨_, _, .inclusiveRange inner, by decide, encodable⟩
  | .nominal ⟨kind, name⟩ =>
    have small : writtenTag kind < Width.w64.count := by cases kind <;> decide
    exact ⟨_, _, .declared kind [] name .null .null .nil, small, trivial, trivial, trivial, trivial,
      trivial, trivial⟩
  | .function signature =>
    obtain ⟨item, after, inner, encodable⟩ := exists_signatureItem signature structured.2 before
    exact ⟨_, _, .function inner, by decide, encodable⟩
  | .unstructured id => exact structured.elim

theorem exists_typeItems (types : List StaticType)
    (structured : StaticType.EveryOf StaticType.HasForm types) (before : Bound) :
    ∃ items after, TypeItems before types items after ∧ (Item.array items).Encodable := by
  match types with
  | [] => exact ⟨[], before, .nil, trivial⟩
  | type :: rest =>
    obtain ⟨item, between, head, encodable⟩ := exists_typeItem type structured.1 before
    obtain ⟨items, after, tail, encodable'⟩ := exists_typeItems rest structured.2 between
    exact ⟨_, _, .cons head tail, encodable, encodable'⟩

theorem exists_signatureItem (signature : FunctionType) (structured : signature.Structured)
    (before : Bound) :
    ∃ item after, SignatureItem before signature item after ∧ item.Encodable := by
  match signature with
  | .signature isView typeParameters parameters result =>
    obtain ⟨first, middle, outer, encodable⟩ :=
      exists_typeParameterItems typeParameters structured.1 before
    obtain ⟨second, later, inner, encodable'⟩ :=
      exists_parameterItems parameters structured.2.1 middle
    obtain ⟨third, after, last, encodable''⟩ := exists_typeItem result structured.2.2 later
    cases isView with
    | false =>
      exact ⟨_, _, .signature .absent outer inner last, encodable, encodable', encodable'', trivial⟩
    | true =>
      exact ⟨_, _, .signature .view outer inner last, encodable, encodable', encodable'',
        encodable_size 1, trivial⟩

theorem exists_typeParameterItems (types : List TypeParameter)
    (structured : TypeParameter.EveryOf StaticType.HasForm types) (before : Bound) :
    ∃ items after, TypeParameterItems before types items after ∧ (Item.array items).Encodable := by
  match types with
  | [] => exact ⟨[], before, .nil, trivial⟩
  | .named name none :: rest =>
    obtain ⟨items, after, tail, encodable⟩ := exists_typeParameterItems rest structured.2 before
    exact ⟨_, _, .unbounded name tail, ⟨trivial, trivial, trivial⟩, encodable⟩
  | .named name (some bound) :: rest =>
    obtain ⟨item, between, head, encodable⟩ := exists_typeItem bound structured.1 before
    obtain ⟨items, after, tail, encodable'⟩ := exists_typeParameterItems rest structured.2 between
    exact ⟨_, _, .bounded name head tail, ⟨trivial, encodable, trivial⟩, encodable'⟩

theorem exists_parameterItems (types : List Parameter)
    (structured : Parameter.EveryOf StaticType.HasForm types) (before : Bound) :
    ∃ items after, ParameterItems before types items after ∧ (Item.array items).Encodable := by
  match types with
  | [] => exact ⟨[], before, .nil, trivial⟩
  | .labelled label identifier type :: rest =>
    obtain ⟨item, between, head, encodable⟩ := exists_typeItem type structured.1 before
    obtain ⟨items, after, tail, encodable'⟩ := exists_parameterItems rest structured.2 between
    exact ⟨_, _, .cons label identifier head tail, ⟨trivial, trivial, encodable, trivial⟩,
      encodable'⟩

end

end CadenceWire.Ccf
