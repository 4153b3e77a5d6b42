import CadenceWire.Proofs.Ccf.ValueItem

/-!
Other identifiers for the types that a message defines. Whatever is read by the definitions that
bear them is read as before.
-/
namespace CadenceWire.Ccf

open Cbor (Item itemInduction)

mutual

/-- The item with other identifiers in its references to defined types. -/
def renamed (f : List UInt8 → List UInt8) : Item → Item
  | .tag 136 (.bytes id) => .tag 136 (.bytes (f id))
  | .tag number content => .tag number (renamed f content)
  | .array items => .array (renamedItems f items)
  | .map entries => .map (renamedEntries f entries)
  | item => item

def renamedItems (f : List UInt8 → List UInt8) : List Item → List Item
  | [] => []
  | item :: rest => renamed f item :: renamedItems f rest

def renamedEntries (f : List UInt8 → List UInt8) : List (Item × Item) → List (Item × Item)
  | [] => []
  | (key, item) :: rest => (renamed f key, renamed f item) :: renamedEntries f rest

end

section renamed

variable {f g : List UInt8 → List UInt8}

theorem renamedItems_eq_map (items : List Item) : renamedItems f items = items.map (renamed f) := by
  induction items with
  | nil => rfl
  | cons item items ih => exact congrArg (renamed f item :: ·) ih

private theorem length_renamedItems (items : List Item) :
    (renamedItems f items).length = items.length := by
  rw [renamedItems_eq_map, List.length_map]

private theorem renamed_eq_null {item : Item} : renamed f item = .null ↔ item = .null := by
  fun_cases renamed f item <;> simp_all

theorem renamed_eq_bytes {item : Item} {id : List UInt8} :
    renamed f item = .bytes id ↔ item = .bytes id := by
  fun_cases renamed f item <;> simp_all

theorem renamed_tag {number : Nat} {content : Item}
    (other : number = 136 → ∀ id, content ≠ .bytes id) :
    renamed f (.tag number content) = .tag number (renamed f content) := by
  rw [renamed]
  intro id same bytes
  exact other same id bytes

mutual

theorem renamed_id (item : Item) : renamed id item = item := by
  match item with
  | .tag 136 (.bytes id) => rfl
  | .tag number content =>
    by_cases reference : number = 136 ∧ ∃ id, content = .bytes id
    · obtain ⟨rfl, id, rfl⟩ := reference
      rfl
    · rw [renamed_tag (fun same id bytes => reference ⟨same, id, bytes⟩), renamed_id content]
  | .array items => exact congrArg Item.array (renamedItems_id items)
  | .map entries => exact congrArg Item.map (renamedEntries_id entries)
  | .integer _ | .bytes _ | .text _ | .bool _ | .null | .float _ => rfl

theorem renamedItems_id (items : List Item) : renamedItems id items = items := by
  match items with
  | [] => rfl
  | item :: rest => simp only [renamedItems, renamed_id item, renamedItems_id rest]

theorem renamedEntries_id (entries : List (Item × Item)) : renamedEntries id entries = entries := by
  match entries with
  | [] => rfl
  | (key, item) :: rest =>
    simp only [renamedEntries, renamed_id key, renamed_id item, renamedEntries_id rest]

end

mutual

theorem renamed_comp (item : Item) : renamed g (renamed f item) = renamed (g ∘ f) item := by
  match item with
  | .tag number content =>
    by_cases reference : number = 136 ∧ ∃ id, content = .bytes id
    · obtain ⟨rfl, id, rfl⟩ := reference
      rfl
    · have other : number = 136 → ∀ id, content ≠ .bytes id :=
        fun same id bytes => reference ⟨same, id, bytes⟩
      have other' : number = 136 → ∀ id, renamed f content ≠ .bytes id :=
        fun same id bytes => other same id (renamed_eq_bytes.1 bytes)
      rw [renamed_tag other, renamed_tag other', renamed_tag other, renamed_comp content]
  | .array items => exact congrArg Item.array (renamedItems_comp items)
  | .map entries => exact congrArg Item.map (renamedEntries_comp entries)
  | .integer _ | .bytes _ | .text _ | .bool _ | .null | .float _ => rfl

theorem renamedItems_comp (items : List Item) :
    renamedItems g (renamedItems f items) = renamedItems (g ∘ f) items := by
  match items with
  | [] => rfl
  | item :: rest => simp only [renamedItems, renamed_comp item, renamedItems_comp rest]

theorem renamedEntries_comp (entries : List (Item × Item)) :
    renamedEntries g (renamedEntries f entries) = renamedEntries (g ∘ f) entries := by
  match entries with
  | [] => rfl
  | (key, item) :: rest =>
    simp only [renamedEntries, renamed_comp key, renamed_comp item, renamedEntries_comp rest]

end

end renamed

/-! What does not name a defined type is written as before. -/
section types

variable {f : List UInt8 → List UInt8} {item : Item}

private theorem renamedItems_texts (texts : List String) :
    renamedItems f (texts.map .text) = texts.map .text := by
  rw [renamedItems_eq_map, List.map_map]
  rfl

theorem AuthorizationItem.renamed {granted : Authorization}
    (written : AuthorizationItem granted item) : AuthorizationItem granted (renamed f item) := by
  cases written with
  | null => exact .null
  | unauthorized => exact .unauthorized
  | legacy => exact .legacy
  | conjunction entitlements =>
    change AuthorizationItem _ (.tag 146 (.array [_, .array (renamedItems f _)]))
    rw [renamedItems_texts]
    exact .conjunction entitlements
  | disjunction entitlements =>
    change AuthorizationItem _ (.tag 146 (.array [_, .array (renamedItems f _)]))
    rw [renamedItems_texts]
    exact .disjunction entitlements
  | mapping entitlementMap => exact .mapping entitlementMap
  | listedMapping entitlementMap => exact .listedMapping entitlementMap

theorem PurityItems.renamed {isView : Bool} {items : List Item} (pure : PurityItems isView items) :
    PurityItems isView (renamedItems f items) := by
  cases pure with
  | absent => exact .absent
  | view => exact .view
  | other different small => exact .other different small

theorem NumberItem.renamed {n : Int} (written : NumberItem n item) :
    NumberItem n (renamed f item) := by
  cases written with
  | integer n => exact .integer n
  | counting content short => exact .counting content short
  | countingDown content short => exact .countingDown content short

mutual

theorem TypeItem.renamed {before after : Bound} {type : StaticType} {item : Item}
    (written : TypeItem before type item after) :
    TypeItem before type (renamed f item) after := by
  match written with
  | .known found => exact .known found
  | .simple type => exact .simple type
  | .optional inner => exact .optional inner.renamed
  | .variableArray inner => exact .variableArray inner.renamed
  | .constantArray size inner => exact .constantArray size inner.renamed
  | .dictionary keys values => exact .dictionary keys.renamed values.renamed
  | .reference grant inner => exact .reference grant.renamed inner.renamed
  | .intersection inner => exact .intersection inner.renamed
  | .baseless inner => exact .baseless inner.renamed
  | .restricted outer inner => exact .restricted outer.renamed inner.renamed
  | .capability => exact .capability
  | .capabilityOf inner => exact .capabilityOf inner.renamed
  | .function inner => exact .function inner.renamed
  | .inclusiveRange inner => exact .inclusiveRange inner.renamed
  | .declared kind id name base initializers inner =>
    have other : writtenTag kind ≠ 136 := by cases kind <;> decide
    rw [renamed_tag fun same => absurd same other]
    exact .declared kind id name _ _ inner.renamed

theorem TypeItems.renamed {before after : Bound} {types : List StaticType} {items : List Item}
    (written : TypeItems before types items after) :
    TypeItems before types (renamedItems f items) after := by
  match written with
  | .nil => exact .nil
  | .cons head tail => exact .cons head.renamed tail.renamed

theorem FieldItems.renamed {before after : Bound} {items : List Item}
    (written : FieldItems before items after) :
    FieldItems before (renamedItems f items) after := by
  match written with
  | .nil => exact .nil
  | .cons name head tail => exact .cons name head.renamed tail.renamed

theorem SignatureItem.renamed {before after : Bound} {signature : FunctionType} {item : Item}
    (written : SignatureItem before signature item after) :
    SignatureItem before signature (renamed f item) after := by
  match written with
  | .signature pure outer inner last =>
    exact .signature pure.renamed outer.renamed inner.renamed last.renamed

theorem TypeParameterItems.renamed {before after : Bound} {types : List TypeParameter}
    {items : List Item} (written : TypeParameterItems before types items after) :
    TypeParameterItems before types (renamedItems f items) after := by
  match written with
  | .nil => exact .nil
  | .unbounded name tail => exact .unbounded name tail.renamed
  | .bounded name head tail => exact .bounded name head.renamed tail.renamed

theorem ParameterItems.renamed {before after : Bound} {types : List Parameter} {items : List Item}
    (written : ParameterItems before types items after) :
    ParameterItems before types (renamedItems f items) after := by
  match written with
  | .nil => exact .nil
  | .cons label identifier head tail => exact .cons label identifier head.renamed tail.renamed

end

theorem FunctionItem.renamed {before after : Bound} {signature : FunctionType}
    (written : FunctionItem before signature item after) :
    FunctionItem before signature (renamed f item) after := by
  cases written with
  | tagged inner => exact .tagged inner.renamed
  | bare inner => exact .bare inner.renamed

theorem SimpleItem.renamed {before after : Bound} {type : SimpleType} {v : Value}
    (written : SimpleItem before type v item after) :
    SimpleItem before type v (renamed f item) after := by
  cases written with
  | void => exact .void
  | bool b => exact .bool b
  | string s => exact .string s
  | character s => exact .character s
  | bytes content => exact .bytes content
  | address owner => exact .address owner
  | integer inner => exact .integer inner.renamed
  | fixedPoint inner => exact .fixedPoint inner.renamed
  | path domain p => exact .path domain p
  | unknownType => exact .unknownType
  | type inner => exact .type inner.renamed
  | function inner => exact .function inner.renamed

end types

/-- The types and layouts of one are those of the other, where identifiers have become others. -/
structure Carries (f : List UInt8 → List UInt8) (definitions definitions' : Definitions) :
    Prop where
  type : ∀ id type, definitions.table.lookup id = some type →
    definitions'.table.lookup (f id) = some type
  layout : ∀ name layout, definitions.LaysOut name layout → definitions'.LaysOut name layout

section carried

variable {f : List UInt8 → List UInt8} {table table' : TypeTable}

mutual

theorem InlineItem.carried
    (types : ∀ id type, table.lookup id = some type → table'.lookup (f id) = some type)
    {type : StaticType} {item : Item} (written : InlineItem table type item) :
    InlineItem table' type (renamed f item) := by
  match written with
  | .known found => exact .known (types _ _ found)
  | .simple type => exact .simple type
  | .optional inner => exact .optional (inner.carried types)
  | .variableArray inner => exact .variableArray (inner.carried types)
  | .constantArray size inner => exact .constantArray size (inner.carried types)
  | .dictionary keys values => exact .dictionary (keys.carried types) (values.carried types)
  | .reference grant inner => exact .reference grant.renamed (inner.carried types)
  | .intersection inner => exact .intersection (inner.carried types)
  | .baseless inner => exact .baseless (inner.carried types)
  | .restricted outer inner => exact .restricted (outer.carried types) (inner.carried types)
  | .capability => exact .capability
  | .capabilityOf inner => exact .capabilityOf (inner.carried types)
  | .inclusiveRange inner => exact .inclusiveRange (inner.carried types)

theorem InlineItems.carried
    (types : ∀ id type, table.lookup id = some type → table'.lookup (f id) = some type)
    {list : List StaticType} {items : List Item} (written : InlineItems table list items) :
    InlineItems table' list (renamedItems f items) := by
  match written with
  | .nil => exact .nil
  | .cons head tail => exact .cons (head.carried types) (tail.carried types)

end

variable {lossless : Bool} {definitions definitions' : Definitions}

mutual

theorem ValueItem.carried (carries : Carries f definitions definitions') {before after : Bound}
    {type : StaticType} {v : Value} {item : Item}
    (written : ValueItem lossless definitions before type v item after) :
    ValueItem lossless definitions' before type v (renamed f item) after := by
  match written with
  | .simple inner => exact .simple inner.renamed
  | .nil content => exact .nil content
  | .present there inner =>
    exact .present (fun strict null => there strict (renamed_eq_null.1 null))
      (inner.carried carries)
  | .reference granted inner => exact .reference granted (inner.carried carries)
  | .variableArray inner => exact .variableArray (inner.carried carries)
  | .constantArray length inner =>
    exact .constantArray ((length_renamedItems _).trans length) (inner.carried carries)
  | .dictionary inner => exact .dictionary (inner.carried carries)
  | .capability id holder => exact .capability id holder
  | .capabilityOf borrowed id holder => exact .capabilityOf borrowed id holder
  | .range first last difference =>
    exact .range (first.carried carries) (last.carried carries) (difference.carried carries)
  | .embedded opens typed inner =>
    exact .embedded opens (typed.carried carries.type) (inner.carried carries)
  | .composite concrete laid inner =>
    exact .composite concrete (carries.layout _ _ laid) (inner.carried carries)
  | .function declared inner => exact .function declared inner.renamed

theorem ValueItems.carried (carries : Carries f definitions definitions') {before after : Bound}
    {element : StaticType} {elements : List Value} {items : List Item}
    (written : ValueItems lossless definitions before element elements items after) :
    ValueItems lossless definitions' before element elements (renamedItems f items) after := by
  match written with
  | .nil => exact .nil
  | .cons head tail => exact .cons (head.carried carries) (tail.carried carries)

theorem EntryItems.carried (carries : Carries f definitions definitions') {before after : Bound}
    {keyType itemType : StaticType} {pairs : List (Value × Value)} {items : List Item}
    (written : EntryItems lossless definitions before keyType itemType pairs items after) :
    EntryItems lossless definitions' before keyType itemType pairs (renamedItems f items)
      after := by
  match written with
  | .nil => exact .nil
  | .cons name head tail =>
    exact .cons (name.carried carries) (head.carried carries) (tail.carried carries)

theorem PartItems.carried (carries : Carries f definitions definitions') {before after : Bound}
    {declared : List (String × StaticType)} {parts : List (Field × Value)} {items : List Item}
    (written : PartItems lossless definitions before declared parts items after) :
    PartItems lossless definitions' before declared parts (renamedItems f items) after := by
  match written with
  | .nil => exact .nil
  | .cons name head tail => exact .cons name (head.carried carries) (tail.carried carries)

end

end carried

end CadenceWire.Ccf
