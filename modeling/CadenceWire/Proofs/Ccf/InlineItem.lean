import CadenceWire.Proofs.Cbor.Grammar
import CadenceWire.Proofs.Ccf.Part
import CadenceWire.Proofs.StaticType.Every

/-!
The items that inline types are written as. Reading an inline type accepts exactly these.
-/
namespace CadenceWire.Ccf

open Cbor (Item itemInduction)

def TypeForm.inlineTag : TypeForm → Nat
  | known => 136
  | simple => 137
  | optional => 138
  | variableArray => 139
  | constantArray => 140
  | dictionary => 141
  | reference => 142
  | intersection => 143
  | capability => 144
  | inclusiveRange => 145

theorem TypeForm.eq_inlineTag {number : Nat} {form : TypeForm}
    (named : ofInlineTag? number = some form) : number = form.inlineTag := by
  unfold ofInlineTag? at named
  split at named <;> cases named <;> rfl

mutual

/-- The item stands for the type, given the identifiers of the types that the message defines. An
intersection may be written as its types alone, or behind a null in place of a base type. -/
inductive InlineItem (table : TypeTable) : StaticType → Item → Prop
  | known {id : List UInt8} {type : NominalType} (found : table.lookup id = some type) :
      InlineItem table (.nominal type) (.tag 136 (.bytes id))
  | simple (type : SimpleType) :
      InlineItem table (.simple type) (.tag 137 (.integer (simpleNumber type)))
  | optional {content : StaticType} {item : Item} (inner : InlineItem table content item) :
      InlineItem table (.optional content) (.tag 138 item)
  | variableArray {element : StaticType} {item : Item} (inner : InlineItem table element item) :
      InlineItem table (.variableArray element) (.tag 139 item)
  | constantArray (size : UInt64) {element : StaticType} {item : Item}
      (inner : InlineItem table element item) :
      InlineItem table (.constantArray size element)
        (.tag 140 (.array [.integer size.toNat, item]))
  | dictionary {key value : StaticType} {first second : Item} (keys : InlineItem table key first)
      (values : InlineItem table value second) :
      InlineItem table (.dictionary key value) (.tag 141 (.array [first, second]))
  | reference {granted : Authorization} {referenced : StaticType} {first second : Item}
      (grant : AuthorizationItem granted first) (inner : InlineItem table referenced second) :
      InlineItem table (.reference granted referenced) (.tag 142 (.array [first, second]))
  | intersection {types : List StaticType} {items : List Item}
      (inner : InlineItems table types items) :
      InlineItem table (.intersection types) (.tag 143 (.array items))
  | baseless {types : List StaticType} {items : List Item} (inner : InlineItems table types items) :
      InlineItem table (.intersection types) (.tag 143 (.array [.null, .array items]))
  | restricted {base : StaticType} {types : List StaticType} {item : Item} {items : List Item}
      (outer : InlineItem table base item) (inner : InlineItems table types items) :
      InlineItem table (.restricted base types) (.tag 143 (.array [item, .array items]))
  | capability : InlineItem table .capability (.tag 144 .null)
  | capabilityOf {borrowed : StaticType} {item : Item} (inner : InlineItem table borrowed item) :
      InlineItem table (.capabilityOf borrowed) (.tag 144 item)
  | inclusiveRange {element : StaticType} {item : Item} (inner : InlineItem table element item) :
      InlineItem table (.inclusiveRange element) (.tag 145 item)

inductive InlineItems (table : TypeTable) : List StaticType → List Item → Prop
  | nil : InlineItems table [] []
  | cons {type : StaticType} {types : List StaticType} {item : Item} {items : List Item}
      (head : InlineItem table type item) (tail : InlineItems table types items) :
      InlineItems table (type :: types) (item :: items)

end

theorem InlineItem.isTag {table : TypeTable} {type : StaticType} {item : Item}
    (written : InlineItem table type item) : ∃ number body, item = .tag number body := by
  cases written <;> exact ⟨_, _, rfl⟩

mutual

theorem InlineItem.eq_ok {table : TypeTable} {type : StaticType} {item : Item}
    (written : InlineItem table type item) : inlineType table item = .ok type := by
  cases written with
  | known found =>
    unfold inlineType
    simp only [TypeForm.ofInlineTag?, bytes, bind, Except.bind, found]
    rfl
  | simple type =>
    unfold inlineType
    simp only [TypeForm.ofInlineTag?, map_eq_ok, simpleType_eq_ok]
    exact ⟨type, rfl, rfl⟩
  | optional inner | variableArray inner | inclusiveRange inner =>
    unfold inlineType
    simp only [TypeForm.ofInlineTag?, inner.eq_ok]
    rfl
  | constantArray size inner =>
    unfold inlineType
    simp only [TypeForm.ofInlineTag?, arraySize_eq_ok.2 rfl, inner.eq_ok]
    rfl
  | dictionary keys values =>
    unfold inlineType
    simp only [TypeForm.ofInlineTag?, keys.eq_ok, values.eq_ok]
    rfl
  | reference grant inner =>
    unfold inlineType
    simp only [TypeForm.ofInlineTag?, authorization_eq_ok.2 grant, inner.eq_ok]
    rfl
  | intersection inner =>
    have read := inner.eq_ok
    unfold inlineType
    simp only [TypeForm.ofInlineTag?]
    -- No item of a list of inline types is an array, so the older layouts do not apply.
    split
    next same =>
      cases same
      cases inner with | cons head tail => cases head
    next _ same =>
      cases same
      cases inner with | cons head tail =>
      cases tail with | cons second rest => cases second
    next same =>
      cases same
      rw [read]
      rfl
    next different => exact absurd rfl (different _)
  | baseless inner =>
    unfold inlineType
    simp only [TypeForm.ofInlineTag?, inner.eq_ok]
    rfl
  | restricted outer inner =>
    obtain ⟨number, body, rfl⟩ := outer.isTag
    unfold inlineType
    simp only [TypeForm.ofInlineTag?, inner.eq_ok, outer.eq_ok]
    rfl
  | capability => rfl
  | capabilityOf inner =>
    obtain ⟨number, body, rfl⟩ := inner.isTag
    unfold inlineType
    simp only [TypeForm.ofInlineTag?, inner.eq_ok]
    rfl

theorem InlineItems.eq_ok {table : TypeTable} {types : List StaticType} {items : List Item}
    (written : InlineItems table types items) : inlineTypes table items = .ok types := by
  cases written with
  | nil => rfl
  | cons head tail =>
    simp only [inlineTypes, head.eq_ok, tail.eq_ok]
    rfl

end

private theorem inlineItems_of_inlineTypes {table : TypeTable} {items : List Item}
    (written : ∀ item ∈ items, ∀ type, inlineType table item = .ok type →
      InlineItem table type item)
    {types : List StaticType} (accepted : inlineTypes table items = .ok types) :
    InlineItems table types items := by
  induction items generalizing types with
  | nil => cases accepted; exact .nil
  | cons item items ih =>
    simp only [inlineTypes, bind_eq_ok, pure_eq_ok] at accepted
    obtain ⟨type, head, others, tail, rfl⟩ := accepted
    exact .cons (written item List.mem_cons_self type head)
      (ih (fun i member => written i (List.mem_cons_of_mem _ member)) tail)

private theorem inlineItem_of_inlineType {table : TypeTable} (item : Item) :
    ∀ type, inlineType table item = .ok type → InlineItem table type item := by
  induction item using itemInduction with
  | step item written =>
    intro type accepted
    have list {items : List Item} (smaller : sizeOf items < sizeOf item) {types : List StaticType}
        (accepted : inlineTypes table items = .ok types) : InlineItems table types items :=
      inlineItems_of_inlineTypes
        (fun i member => written i (Nat.lt_trans (List.sizeOf_lt_of_mem member) smaller)) accepted
    unfold inlineType at accepted
    split at accepted
    next number body =>
      cases named : TypeForm.ofInlineTag? number with
      | none => simp [named] at accepted
      | some form =>
        obtain rfl := TypeForm.eq_inlineTag named
        simp only [named] at accepted
        cases form with
        | known =>
          simp only [bind_eq_ok, bytes_eq_ok] at accepted
          obtain ⟨id, rfl, accepted⟩ := accepted
          split at accepted
          next type found => cases accepted; exact .known found
          next => exact absurd accepted throw_ne_ok
        | simple =>
          simp only [map_eq_ok, simpleType_eq_ok] at accepted
          obtain ⟨type, rfl, rfl⟩ := accepted
          exact .simple type
        | optional =>
          simp only [map_eq_ok] at accepted
          obtain ⟨content, inner, rfl⟩ := accepted
          exact .optional (written body (Cbor.Item.sizeOf_lt_tag _ _) content inner)
        | variableArray =>
          simp only [map_eq_ok] at accepted
          obtain ⟨element, inner, rfl⟩ := accepted
          exact .variableArray (written body (Cbor.Item.sizeOf_lt_tag _ _) element inner)
        | constantArray =>
          dsimp only at accepted
          split at accepted
          next =>
            simp only [bind_eq_ok, arraySize_eq_ok, pure_eq_ok] at accepted
            obtain ⟨size, rfl, element, inner, rfl⟩ := accepted
            exact .constantArray size (written _ (by simp; omega) element inner)
          next => cases accepted
        | dictionary =>
          dsimp only at accepted
          split at accepted
          next =>
            simp only [bind_eq_ok, pure_eq_ok] at accepted
            obtain ⟨key, keys, value, values, rfl⟩ := accepted
            exact .dictionary (written _ (by simp; omega) key keys)
              (written _ (by simp; omega) value values)
          next => cases accepted
        | reference =>
          dsimp only at accepted
          split at accepted
          next =>
            simp only [bind_eq_ok, authorization_eq_ok, pure_eq_ok] at accepted
            obtain ⟨granted, grant, referenced, inner, rfl⟩ := accepted
            exact .reference grant (written _ (by simp; omega) referenced inner)
          next => cases accepted
        | intersection =>
          dsimp only at accepted
          split at accepted
          next =>
            simp only [map_eq_ok] at accepted
            obtain ⟨types, inner, rfl⟩ := accepted
            exact .baseless (list (by simp; omega) inner)
          next =>
            simp only [bind_eq_ok, pure_eq_ok] at accepted
            obtain ⟨types, inner, base, outer, rfl⟩ := accepted
            exact .restricted (written _ (by simp; omega) base outer) (list (by simp; omega) inner)
          next =>
            simp only [map_eq_ok] at accepted
            obtain ⟨types, inner, rfl⟩ := accepted
            exact .intersection (list (by simp; omega) inner)
          next => cases accepted
        | capability =>
          dsimp only at accepted
          split at accepted
          next => cases accepted; exact .capability
          next =>
            simp only [map_eq_ok] at accepted
            obtain ⟨borrowed, inner, rfl⟩ := accepted
            exact .capabilityOf (written _ (Cbor.Item.sizeOf_lt_tag _ _) borrowed inner)
        | inclusiveRange =>
          simp only [map_eq_ok] at accepted
          obtain ⟨element, inner, rfl⟩ := accepted
          exact .inclusiveRange (written body (Cbor.Item.sizeOf_lt_tag _ _) element inner)
    next => cases accepted

theorem inlineType_eq_ok {table : TypeTable} {type : StaticType} {item : Item} :
    inlineType table item = .ok type ↔ InlineItem table type item :=
  ⟨inlineItem_of_inlineType item type, InlineItem.eq_ok⟩

end CadenceWire.Ccf
