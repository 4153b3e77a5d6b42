import CadenceWire.Ccf.TypeValue
import CadenceWire.Proofs.Ccf.InlineItem

/-!
The items that types are written as where they are values. A declared type is written out once and
known by its identifier from there on, so each item is read behind those before it.
-/
namespace CadenceWire.Ccf

open Cbor (Item itemInduction)

def TypeForm.valueTag : TypeForm → Nat
  | known => 184
  | simple => 185
  | optional => 186
  | variableArray => 187
  | constantArray => 188
  | dictionary => 189
  | reference => 190
  | intersection => 191
  | capability => 192
  | inclusiveRange => 194

theorem TypeForm.eq_valueTag {number : Nat} {form : TypeForm}
    (named : ofValueTag? number = some form) : number = form.valueTag := by
  unfold ofValueTag? at named
  split at named <;> cases named <;> rfl

def writtenTag : DeclarationKind → Nat
  | .struct => 208
  | .resource => 209
  | .event => 210
  | .contract => 211
  | .enum => 212
  | .attachment => 213
  | .structInterface => 224
  | .resourceInterface => 225
  | .contractInterface => 226

theorem writtenKind?_eq_some_iff {number : Nat} {kind : DeclarationKind} :
    writtenKind? number = some kind ↔ number = writtenTag kind := by
  constructor
  · intro written
    unfold writtenKind? at written
    split at written <;> cases written <;> rfl
  · rintro rfl
    cases kind <;> rfl

/-- What may stand behind the result of a function. Numbers other than one mean nothing. -/
inductive PurityItems : Bool → List Item → Prop
  | absent : PurityItems false []
  | view : PurityItems true [.integer 1]
  | other {n : Nat} (different : n ≠ 1) (small : n < Width.w64.count) :
      PurityItems false [.integer n]

mutual

/-- The item stands for the type where the identifiers `before` are known, and those `after` are
known behind it. What a type written out says of its base and its initializers is not looked at. -/
inductive TypeItem : Bound → StaticType → Item → Bound → Prop
  | known {before : Bound} {id : List UInt8} {type : NominalType}
      (found : before.lookup id = some type) :
      TypeItem before (.nominal type) (.tag 184 (.bytes id)) before
  | simple {before : Bound} (type : SimpleType) :
      TypeItem before (.simple type) (.tag 185 (.integer (simpleNumber type))) before
  | optional {before after : Bound} {content : StaticType} {item : Item}
      (inner : TypeItem before content item after) :
      TypeItem before (.optional content) (.tag 186 item) after
  | variableArray {before after : Bound} {element : StaticType} {item : Item}
      (inner : TypeItem before element item after) :
      TypeItem before (.variableArray element) (.tag 187 item) after
  | constantArray {before after : Bound} (size : UInt64) {element : StaticType} {item : Item}
      (inner : TypeItem before element item after) :
      TypeItem before (.constantArray size element)
        (.tag 188 (.array [.integer size.toNat, item])) after
  | dictionary {before between after : Bound} {key value : StaticType} {first second : Item}
      (keys : TypeItem before key first between) (values : TypeItem between value second after) :
      TypeItem before (.dictionary key value) (.tag 189 (.array [first, second])) after
  | reference {before after : Bound} {granted : Authorization} {referenced : StaticType}
      {first second : Item} (grant : AuthorizationItem granted first)
      (inner : TypeItem before referenced second after) :
      TypeItem before (.reference granted referenced) (.tag 190 (.array [first, second])) after
  | intersection {before after : Bound} {types : List StaticType} {items : List Item}
      (inner : TypeItems before types items after) :
      TypeItem before (.intersection types) (.tag 191 (.array items)) after
  | baseless {before after : Bound} {types : List StaticType} {items : List Item}
      (inner : TypeItems before types items after) :
      TypeItem before (.intersection types) (.tag 191 (.array [.null, .array items])) after
  | restricted {before between after : Bound} {base : StaticType} {types : List StaticType}
      {item : Item} {items : List Item} (outer : TypeItem before base item between)
      (inner : TypeItems between types items after) :
      TypeItem before (.restricted base types) (.tag 191 (.array [item, .array items])) after
  | capability {before : Bound} : TypeItem before .capability (.tag 192 .null) before
  | capabilityOf {before after : Bound} {borrowed : StaticType} {item : Item}
      (inner : TypeItem before borrowed item after) :
      TypeItem before (.capabilityOf borrowed) (.tag 192 item) after
  | function {before after : Bound} {signature : FunctionType} {item : Item}
      (inner : SignatureItem before signature item after) :
      TypeItem before (.function signature) (.tag 193 item) after
  | inclusiveRange {before after : Bound} {element : StaticType} {item : Item}
      (inner : TypeItem before element item after) :
      TypeItem before (.inclusiveRange element) (.tag 194 item) after
  | declared {before after : Bound} (kind : DeclarationKind) (id : List UInt8) (name : String)
      (base initializers : Item) {fields : List Item}
      (inner : FieldItems ((id, ⟨kind, name⟩) :: before) fields after) :
      TypeItem before (.nominal ⟨kind, name⟩)
        (.tag (writtenTag kind)
          (.array [.bytes id, .text name, base, .array fields, initializers])) after

inductive TypeItems : Bound → List StaticType → List Item → Bound → Prop
  | nil {before : Bound} : TypeItems before [] [] before
  | cons {before between after : Bound} {type : StaticType} {types : List StaticType}
      {item : Item} {items : List Item} (head : TypeItem before type item between)
      (tail : TypeItems between types items after) :
      TypeItems before (type :: types) (item :: items) after

inductive FieldItems : Bound → List Item → Bound → Prop
  | nil {before : Bound} : FieldItems before [] before
  | cons {before between after : Bound} (name : String) {type : StaticType} {item : Item}
      {items : List Item} (head : TypeItem before type item between)
      (tail : FieldItems between items after) :
      FieldItems before (.array [.text name, item] :: items) after

inductive SignatureItem : Bound → FunctionType → Item → Bound → Prop
  | signature {before middle later after : Bound} {isView : Bool}
      {typeParameters : List TypeParameter} {parameters : List Parameter} {result : StaticType}
      {first second purity : List Item} {third : Item} (pure : PurityItems isView purity)
      (outer : TypeParameterItems before typeParameters first middle)
      (inner : ParameterItems middle parameters second later)
      (last : TypeItem later result third after) :
      SignatureItem before (.signature isView typeParameters parameters result)
        (.array (.array first :: .array second :: third :: purity)) after

inductive TypeParameterItems : Bound → List TypeParameter → List Item → Bound → Prop
  | nil {before : Bound} : TypeParameterItems before [] [] before
  | unbounded {before after : Bound} (name : String) {types : List TypeParameter}
      {items : List Item} (tail : TypeParameterItems before types items after) :
      TypeParameterItems before (.named name none :: types)
        (.array [.text name, .null] :: items) after
  | bounded {before between after : Bound} (name : String) {bound : StaticType}
      {types : List TypeParameter} {item : Item} {items : List Item}
      (head : TypeItem before bound item between)
      (tail : TypeParameterItems between types items after) :
      TypeParameterItems before (.named name (some bound) :: types)
        (.array [.text name, item] :: items) after

inductive ParameterItems : Bound → List Parameter → List Item → Bound → Prop
  | nil {before : Bound} : ParameterItems before [] [] before
  | cons {before between after : Bound} (label identifier : String) {type : StaticType}
      {types : List Parameter} {item : Item} {items : List Item}
      (head : TypeItem before type item between)
      (tail : ParameterItems between types items after) :
      ParameterItems before (.labelled label identifier type :: types)
        (.array [.text label, .text identifier, item] :: items) after

end

theorem TypeItem.isTag {before after : Bound} {type : StaticType} {item : Item}
    (written : TypeItem before type item after) : ∃ number body, item = .tag number body := by
  cases written <;> exact ⟨_, _, rfl⟩

theorem yields_none {item : Item} {before after : Bound} :
    Yields (typeValue item) before none after ↔ item = .null ∧ after = before := by
  unfold typeValue
  split
  next => simp
  next => simp
  next notNull _ =>
    simp only [not_yields_throw, false_iff]
    exact fun same => notNull same.1

theorem yields_required {reading : Reading (Option StaticType)} {before after : Bound}
    {type : StaticType} :
    Yields (required reading) before type after ↔ Yields reading before (some type) after := by
  simp only [required, yields_bind]
  constructor
  · rintro ⟨found, between, read, rest⟩
    cases found with
    | none => simp at rest
    | some known =>
      obtain ⟨rfl, rfl⟩ := yields_pure.1 rest
      exact read
  · intro read
    exact ⟨some type, after, read, yields_pure.2 ⟨rfl, rfl⟩⟩

private theorem isView_eq_ok {purity : List Item} (short : purity.length ≤ 1) {view : Bool} :
    isView purity = .ok view ↔ PurityItems view purity := by
  constructor
  · intro accepted
    unfold isView at accepted
    split at accepted
    next item =>
      simp only [bind_eq_ok, unsigned_eq_ok, pure_eq_ok] at accepted
      obtain ⟨n, ⟨rfl, small⟩, rfl⟩ := accepted
      by_cases one : n = 1
      · rw [one]
        exact .view
      · rw [beq_eq_false_iff_ne.2 one]
        exact .other one small
    next longer =>
      cases accepted
      cases purity with
      | nil => exact .absent
      | cons first others =>
        cases others with
        | nil => exact absurd rfl (longer first)
        | cons => simp at short
  · intro written
    cases written with
    | absent | view => rfl
    | @other n different small =>
      simp only [isView, bind_eq_ok, unsigned_eq_ok, pure_eq_ok]
      exact ⟨n, ⟨rfl, small⟩, beq_eq_false_iff_ne.2 different⟩

mutual

theorem TypeItem.yields {before after : Bound} {type : StaticType} {item : Item}
    (written : TypeItem before type item after) :
    Yields (typeValue item) before (some type) after := by
  match written with
  | @TypeItem.known _ id type found =>
    unfold typeValue
    simp only [TypeForm.ofValueTag?, boundType, yields_map, yields_bind, yields_lift, yields_get,
      bytes_eq_ok]
    refine ⟨.nominal type, ⟨id, before, ⟨rfl, rfl⟩, before, before, ⟨rfl, rfl⟩, ?_⟩, rfl⟩
    simp [found]
  | .simple type =>
    have named := simpleType_eq_ok.2 (rfl : Item.integer (simpleNumber type) = _)
    unfold typeValue
    simp only [TypeForm.ofValueTag?]
    refine Yields.map ?_ some
    exact (Yields.lift named _).map _
  | .optional inner | .variableArray inner | .inclusiveRange inner =>
    have content := yields_required.2 inner.yields
    unfold typeValue
    exact (content.map _).map _
  | .constantArray size inner =>
    have sized := arraySize_eq_ok.2 (rfl : Item.integer size.toNat = _)
    have element := yields_required.2 inner.yields
    unfold typeValue
    simp only [TypeForm.ofValueTag?]
    refine Yields.map ?_ some
    exact (Yields.lift sized _).bind (element.bind (.pure _ _))
  | .dictionary keys values =>
    have key := yields_required.2 keys.yields
    have value := yields_required.2 values.yields
    unfold typeValue
    simp only [TypeForm.ofValueTag?]
    refine Yields.map ?_ some
    exact key.bind (value.bind (.pure _ _))
  | .reference grant inner =>
    have granted := authorization_eq_ok.2 grant
    have referenced := yields_required.2 inner.yields
    unfold typeValue
    simp only [TypeForm.ofValueTag?]
    refine Yields.map ?_ some
    exact (Yields.lift granted _).bind (referenced.bind (.pure _ _))
  | .intersection inner =>
    have types := inner.yields
    unfold typeValue
    simp only [TypeForm.ofValueTag?]
    refine Yields.map ?_ some
    -- No item of a list of types is an array, so the older layouts do not apply.
    split
    next same =>
      cases same
      cases inner with | cons head tail => cases head
    next _ same =>
      cases same
      cases inner with | cons head tail =>
      cases tail with | cons second rest => cases second
    next same =>
      cases same
      exact types.map _
    next different => exact absurd rfl (different _)
  | .baseless inner =>
    have types := inner.yields
    unfold typeValue
    exact (types.map _).map _
  | .restricted outer inner =>
    have base := yields_required.2 outer.yields
    have types := inner.yields
    obtain ⟨number, body, rfl⟩ := outer.isTag
    unfold typeValue
    simp only [TypeForm.ofValueTag?]
    refine Yields.map ?_ some
    exact base.bind (types.bind (.pure _ _))
  | @TypeItem.capability before =>
    have unknown : Yields (typeValue .null) before none before := yields_none.2 ⟨rfl, rfl⟩
    unfold typeValue
    simp only [TypeForm.ofValueTag?]
    refine Yields.map ?_ some
    exact unknown.bind (.pure _ _)
  | .capabilityOf inner =>
    have borrowed := inner.yields
    unfold typeValue
    simp only [TypeForm.ofValueTag?]
    refine Yields.map ?_ some
    exact borrowed.bind (.pure _ _)
  | .function inner =>
    have signature := inner.yields
    unfold typeValue
    exact (signature.map _).map _
  | .declared kind id name base initializers inner =>
    have written : writtenKind? (writtenTag kind) = some kind := writtenKind?_eq_some_iff.2 rfl
    have unformed : TypeForm.ofValueTag? (writtenTag kind) = none := by cases kind <;> rfl
    have other : writtenTag kind ≠ functionTag := by cases kind <;> decide
    have fields := inner.yields
    unfold typeValue
    simp only [unformed, if_neg other, written]
    refine Yields.map ?_ some
    refine Yields.bind (.lift rfl _) (.bind (.lift rfl _) (.bind (.modify _ _) ?_))
    exact fields.bind (.pure _ _)

theorem TypeItems.yields {before after : Bound} {types : List StaticType} {items : List Item}
    (written : TypeItems before types items after) :
    Yields (knownTypes items) before types after := by
  match written with
  | .nil => exact .pure _ _
  | .cons head tail =>
    have first := yields_required.2 head.yields
    have others := tail.yields
    exact first.bind (others.bind (.pure _ _))

theorem FieldItems.yields {before after : Bound} {items : List Item}
    (written : FieldItems before items after) : Yields (writtenFields items) before () after := by
  match written with
  | .nil => exact .pure _ _
  | .cons name head tail =>
    have first := yields_required.2 head.yields
    have others := tail.yields
    exact Yields.bind (.lift rfl _) (first.bind others)

theorem SignatureItem.yields {before after : Bound} {signature : FunctionType} {item : Item}
    (written : SignatureItem before signature item after) :
    Yields (functionType item) before signature after := by
  match written with
  | @SignatureItem.signature _ _ _ _ _ _ _ _ _ _ purity _ pure outer inner last =>
    have short : purity.length ≤ 1 := by cases pure <;> simp
    have view := (isView_eq_ok short).2 pure
    have types := outer.yields
    have parameters := inner.yields
    have result := yields_required.2 last.yields
    unfold functionType
    simp only [if_neg (Nat.not_lt.2 short)]
    exact types.bind (parameters.bind ((Yields.lift view _).bind (result.bind (.pure _ _))))

theorem TypeParameterItems.yields {before after : Bound} {types : List TypeParameter}
    {items : List Item} (written : TypeParameterItems before types items after) :
    Yields (typeParameters items) before types after := by
  match written with
  | .nil => exact .pure _ _
  | @TypeParameterItems.unbounded before _ name _ _ tail =>
    have unknown : Yields (typeValue .null) before none before := yields_none.2 ⟨rfl, rfl⟩
    have others := tail.yields
    exact Yields.bind (.lift rfl _) (unknown.bind (others.bind (.pure _ _)))
  | .bounded name head tail =>
    have bound := head.yields
    have others := tail.yields
    exact Yields.bind (.lift rfl _) (bound.bind (others.bind (.pure _ _)))

theorem ParameterItems.yields {before after : Bound} {types : List Parameter} {items : List Item}
    (written : ParameterItems before types items after) :
    Yields (parameters items) before types after := by
  match written with
  | .nil => exact .pure _ _
  | .cons label identifier head tail =>
    have first := yields_required.2 head.yields
    have others := tail.yields
    exact Yields.bind (.lift rfl _)
      (Yields.bind (.lift rfl _) (first.bind (others.bind (.pure _ _))))

end

section lists

/- The lists in a type are taken apart item by item, given that this can be done with all types that
are smaller than some limit. -/
variable {limit : Nat}
  (written : ∀ item, sizeOf item < limit → ∀ before type after,
    Yields (typeValue item) before (some type) after → TypeItem before type item after)
include written

private theorem typeItems_of_knownTypes {items : List Item} (small : sizeOf items < limit)
    {before after : Bound} {types : List StaticType}
    (read : Yields (knownTypes items) before types after) : TypeItems before types items after := by
  induction items generalizing before types with
  | nil =>
    obtain ⟨rfl, rfl⟩ := yields_pure.1 read
    exact .nil
  | cons item items ih =>
    simp only [List.cons.sizeOf_spec] at small
    simp only [knownTypes, yields_bind, yields_required, yields_pure] at read
    obtain ⟨type, between, head, others, _, tail, rfl, rfl⟩ := read
    exact .cons (written item (by omega) _ _ _ head) (ih (by omega) tail)

private theorem fieldItems_of_writtenFields {items : List Item} (small : sizeOf items < limit)
    {before after : Bound} (read : Yields (writtenFields items) before () after) :
    FieldItems before items after := by
  induction items generalizing before with
  | nil =>
    obtain ⟨-, rfl⟩ := yields_pure.1 read
    exact .nil
  | cons item items ih =>
    unfold writtenFields at read
    split at read
    next none => cases none
    next name type rest same =>
      cases same
      simp only [List.cons.sizeOf_spec, Item.array.sizeOf_spec] at small
      simp only [yields_bind, yields_lift, yields_required, text_eq_ok] at read
      obtain ⟨name, _, ⟨rfl, rfl⟩, type, between, head, tail⟩ := read
      exact .cons name (written _ (by omega) _ _ _ head) (ih (by omega) tail)
    next => exact absurd read not_yields_throw

private theorem typeParameterItems_of_typeParameters {items : List Item}
    (small : sizeOf items < limit) {before after : Bound} {types : List TypeParameter}
    (read : Yields (typeParameters items) before types after) :
    TypeParameterItems before types items after := by
  induction items generalizing before types with
  | nil =>
    obtain ⟨rfl, rfl⟩ := yields_pure.1 read
    exact .nil
  | cons item items ih =>
    unfold typeParameters at read
    split at read
    next none => cases none
    next name bound rest same =>
      cases same
      simp only [List.cons.sizeOf_spec, Item.array.sizeOf_spec] at small
      simp only [yields_bind, yields_lift, yields_pure, text_eq_ok] at read
      obtain ⟨name, _, ⟨rfl, rfl⟩, found, between, head, others, _, tail, rfl, rfl⟩ := read
      cases found with
      | none =>
        obtain ⟨rfl, rfl⟩ := yields_none.1 head
        exact .unbounded name (ih (by omega) tail)
      | some known => exact .bounded name (written _ (by omega) _ _ _ head) (ih (by omega) tail)
    next => exact absurd read not_yields_throw

private theorem parameterItems_of_parameters {items : List Item} (small : sizeOf items < limit)
    {before after : Bound} {types : List Parameter}
    (read : Yields (parameters items) before types after) :
    ParameterItems before types items after := by
  induction items generalizing before types with
  | nil =>
    obtain ⟨rfl, rfl⟩ := yields_pure.1 read
    exact .nil
  | cons item items ih =>
    unfold parameters at read
    split at read
    next none => cases none
    next label identifier type rest same =>
      cases same
      simp only [List.cons.sizeOf_spec, Item.array.sizeOf_spec] at small
      simp only [yields_bind, yields_lift, yields_required, yields_pure, text_eq_ok] at read
      obtain ⟨label, _, ⟨rfl, rfl⟩, identifier, _, ⟨rfl, rfl⟩, type, between, head, others, _, tail,
        rfl, rfl⟩ := read
      exact .cons label identifier (written _ (by omega) _ _ _ head) (ih (by omega) tail)
    next => exact absurd read not_yields_throw

private theorem signatureItem_of_functionType {item : Item} (small : sizeOf item ≤ limit)
    {before after : Bound} {signature : FunctionType}
    (read : Yields (functionType item) before signature after) :
    SignatureItem before signature item after := by
  unfold functionType at read
  split at read
  next first second third purity =>
    simp only [List.cons.sizeOf_spec, Item.array.sizeOf_spec] at small
    by_cases long : 1 < purity.length
    · simp [long] at read
    simp only [if_neg long] at read
    split at read
    next seconds =>
      split at read
      next firsts =>
        simp only [Item.array.sizeOf_spec] at small
        simp only [yields_bind, yields_lift, yields_required, yields_pure] at read
        obtain ⟨types, middle, outer, parameters, later, inner, view, _, ⟨pure, rfl⟩, result, _,
          last, rfl, rfl⟩ := read
        exact .signature ((isView_eq_ok (by omega)).1 pure)
          (typeParameterItems_of_typeParameters written (by omega) outer)
          (parameterItems_of_parameters written (by omega) inner)
          (written _ (by omega) _ _ _ last)
      next => simp at read
    next => split at read <;> simp at read
  next => exact absurd read not_yields_throw
  next => exact absurd read not_yields_throw

end lists

private theorem typeItem_of_typeValue (item : Item) : ∀ before type after,
    Yields (typeValue item) before (some type) after → TypeItem before type item after := by
  induction item using itemInduction with
  | step item written =>
    intro before type after read
    have list {items : List Item} (small : sizeOf items < sizeOf item) {before after : Bound}
        {types : List StaticType} (read : Yields (knownTypes items) before types after) :
        TypeItems before types items after := typeItems_of_knownTypes written small read
    unfold typeValue at read
    split at read
    next => simp at read
    next number body =>
      simp only [yields_map, Option.some.injEq, exists_eq_right] at read
      cases named : TypeForm.ofValueTag? number with
      | some form =>
        obtain rfl := TypeForm.eq_valueTag named
        simp only [named] at read
        cases form with
        | known =>
          simp only [boundType, yields_bind, yields_lift, yields_get, bytes_eq_ok] at read
          obtain ⟨id, _, ⟨rfl, rfl⟩, _, _, ⟨rfl, rfl⟩, read⟩ := read
          split at read
          next type found =>
            obtain ⟨rfl, rfl⟩ := yields_pure.1 read
            exact .known found
          next => exact absurd read not_yields_throw
        | simple =>
          simp only [yields_map, yields_lift, simpleType_eq_ok] at read
          obtain ⟨type, ⟨rfl, rfl⟩, rfl⟩ := read
          exact .simple type
        | optional =>
          simp only [yields_map, yields_required] at read
          obtain ⟨content, inner, rfl⟩ := read
          exact .optional (written body (Cbor.Item.sizeOf_lt_tag _ _) _ _ _ inner)
        | variableArray =>
          simp only [yields_map, yields_required] at read
          obtain ⟨element, inner, rfl⟩ := read
          exact .variableArray (written body (Cbor.Item.sizeOf_lt_tag _ _) _ _ _ inner)
        | constantArray =>
          dsimp only at read
          split at read
          next =>
            simp only [yields_bind, yields_lift, yields_required, yields_pure,
              arraySize_eq_ok] at read
            obtain ⟨size, _, ⟨rfl, rfl⟩, element, _, inner, rfl, rfl⟩ := read
            exact .constantArray size (written _ (by simp; omega) _ _ _ inner)
          next => exact absurd read not_yields_throw
        | dictionary =>
          dsimp only at read
          split at read
          next =>
            simp only [yields_bind, yields_required, yields_pure] at read
            obtain ⟨key, between, keys, value, _, values, rfl, rfl⟩ := read
            exact .dictionary (written _ (by simp; omega) _ _ _ keys)
              (written _ (by simp; omega) _ _ _ values)
          next => exact absurd read not_yields_throw
        | reference =>
          dsimp only at read
          split at read
          next =>
            simp only [yields_bind, yields_lift, yields_required, yields_pure,
              authorization_eq_ok] at read
            obtain ⟨granted, _, ⟨grant, rfl⟩, referenced, _, inner, rfl, rfl⟩ := read
            exact .reference grant (written _ (by simp; omega) _ _ _ inner)
          next => exact absurd read not_yields_throw
        | intersection =>
          dsimp only at read
          split at read
          next =>
            obtain ⟨types, inner, rfl⟩ := yields_map.1 read
            exact .baseless (list (by simp; omega) inner)
          next =>
            simp only [yields_bind, yields_required, yields_pure] at read
            obtain ⟨base, between, outer, types, _, inner, rfl, rfl⟩ := read
            exact .restricted (written _ (by simp; omega) _ _ _ outer)
              (list (by simp; omega) inner)
          next =>
            obtain ⟨types, inner, rfl⟩ := yields_map.1 read
            exact .intersection (list (by simp; omega) inner)
          next => exact absurd read not_yields_throw
        | capability =>
          obtain ⟨found, between, inner, read⟩ := yields_bind.1 read
          cases found with
          | none =>
            obtain ⟨rfl, rfl⟩ := yields_none.1 inner
            obtain ⟨rfl, rfl⟩ := yields_pure.1 read
            exact .capability
          | some borrowed =>
            obtain ⟨rfl, rfl⟩ := yields_pure.1 read
            exact .capabilityOf (written _ (Cbor.Item.sizeOf_lt_tag _ _) _ _ _ inner)
        | inclusiveRange =>
          simp only [yields_map, yields_required] at read
          obtain ⟨element, inner, rfl⟩ := read
          exact .inclusiveRange (written body (Cbor.Item.sizeOf_lt_tag _ _) _ _ _ inner)
      | none =>
        -- What is left are the tags of functions and of types written out.
        simp only [named] at read
        split at read
        next isFunction =>
          subst isFunction
          obtain ⟨signature, inner, rfl⟩ := yields_map.1 read
          exact .function (signatureItem_of_functionType written (by simp) inner)
        next =>
          split at read
          next => exact absurd read not_yields_throw
          next kind declares =>
            split at read
            next base fields initializers =>
              simp only [yields_bind, yields_lift, yields_modify, bytes_eq_ok, text_eq_ok] at read
              obtain ⟨id, _, ⟨rfl, rfl⟩, name, _, ⟨rfl, rfl⟩, _, _, rfl, read⟩ := read
              split at read
              -- The identifier is known before the fields are read, which may mention it.
              next items =>
                simp only [yields_bind, yields_pure] at read
                obtain ⟨_, _, inner, rfl, rfl⟩ := read
                obtain rfl := writtenKind?_eq_some_iff.1 declares
                exact .declared kind id name _ _
                  (fieldItems_of_writtenFields written (by simp; omega) inner)
              next => simp at read
            next => exact absurd read not_yields_throw
    next => exact absurd read not_yields_throw

/-- A type that is a value is read from the items that are written for it. -/
theorem typeValue_yields {item : Item} {before after : Bound} {type : StaticType} :
    Yields (typeValue item) before (some type) after ↔ TypeItem before type item after :=
  ⟨typeItem_of_typeValue item before type after, TypeItem.yields⟩

theorem functionType_yields {item : Item} {before after : Bound} {signature : FunctionType} :
    Yields (functionType item) before signature after ↔
      SignatureItem before signature item after :=
  ⟨signatureItem_of_functionType (fun item _ => typeItem_of_typeValue item) (Nat.le_refl _),
    SignatureItem.yields⟩

/- Nothing in a type that is read is known by its identifier alone. -/
mutual

theorem TypeItem.structured {before after : Bound} {type : StaticType} {item : Item}
    (written : TypeItem before type item after) : type.Structured := by
  match written with
  | .known _ | .simple _ | .capability | .declared _ _ _ _ _ _ => trivial
  | .optional inner | .variableArray inner | .constantArray _ inner | .reference _ inner
  | .capabilityOf inner | .inclusiveRange inner => exact ⟨trivial, inner.structured⟩
  | .dictionary keys values => exact ⟨trivial, keys.structured, values.structured⟩
  | .intersection inner | .baseless inner => exact ⟨trivial, inner.structured⟩
  | .restricted outer inner => exact ⟨trivial, outer.structured, inner.structured⟩
  | .function inner => exact ⟨trivial, inner.structured⟩

theorem TypeItems.structured {before after : Bound} {types : List StaticType} {items : List Item}
    (written : TypeItems before types items after) :
    StaticType.EveryOf StaticType.HasForm types := by
  match written with
  | .nil => trivial
  | .cons head tail => exact ⟨head.structured, tail.structured⟩

theorem SignatureItem.structured {before after : Bound} {signature : FunctionType} {item : Item}
    (written : SignatureItem before signature item after) : signature.Structured := by
  match written with
  | .signature _ outer inner last => exact ⟨outer.structured, inner.structured, last.structured⟩

theorem TypeParameterItems.structured {before after : Bound} {types : List TypeParameter}
    {items : List Item} (written : TypeParameterItems before types items after) :
    TypeParameter.EveryOf StaticType.HasForm types := by
  match written with
  | .nil => trivial
  | .unbounded _ tail => exact ⟨trivial, tail.structured⟩
  | .bounded _ head tail => exact ⟨head.structured, tail.structured⟩

theorem ParameterItems.structured {before after : Bound} {types : List Parameter}
    {items : List Item} (written : ParameterItems before types items after) :
    Parameter.EveryOf StaticType.HasForm types := by
  match written with
  | .nil => trivial
  | .cons _ _ head tail => exact ⟨head.structured, tail.structured⟩

end

end CadenceWire.Ccf
