import CadenceWire.Proofs.Ccf.Occurrence
import CadenceWire.Proofs.Ccf.ValueItem
import CadenceWire.Proofs.JsonCdc.Passage

/-!
Readers go through a message place by place, in the order in which it is written, and bind what is
written out there before they read what lies within.
-/
namespace CadenceWire.Ccf

open Cbor (Item)
open JsonCdc (Threads)

/-- Those that are not passed over. -/
def outside (occurrences : List Occurrence) : List Occurrence :=
  occurrences.filter fun occurrence => !occurrence.passedOver

/-- The identifiers that are given once the occurrences have been gone through. -/
def boundOf (occurrences : List Occurrence) : Bound :=
  ((outside occurrences).map fun occurrence => (occurrence.id, occurrence.type)).reverse

/-- The reader of a task succeeds, unless the task is passed over. -/
def Passes (definitions : Definitions) : Task → Bound → Bound → Prop
  | .value type item, before, after =>
    ∃ v, Yields (value definitions type item) before v after
  | .type item, before, after => ∃ found, Yields (typeValue item) before found after
  | .passedOver _, before, after => after = before

section threads

variable {definitions : Definitions} {before after : Bound} {item : Item} {items : List Item}

private theorem threads_type (found : Option StaticType)
    (read : Yields (typeValue item) before found after) :
    Threads (Passes definitions) [.type item] before after :=
  .cons ⟨found, read⟩ .nil

private theorem threads_passedOver (items : List Item) (state : Bound) :
    Threads (Passes definitions) (items.map .passedOver) state state := by
  induction items with
  | nil => exact .nil
  | cons item items ih => exact .cons rfl ih

private theorem threads_null : Threads (Passes definitions) [.type .null] before before :=
  threads_type none (yields_none.2 ⟨rfl, rfl⟩)

theorem TypeItem.threads {type : StaticType} (written : TypeItem before type item after) :
    Threads (Passes definitions) [.type item] before after :=
  threads_type (some type) written.yields

theorem TypeItems.threads {types : List StaticType} (written : TypeItems before types items after) :
    Threads (Passes definitions) (items.map .type) before after := by
  induction items generalizing before types with
  | nil =>
    cases written
    exact .nil
  | cons item items ih =>
    cases written with | cons head tail =>
    exact head.threads.append (ih tail)

theorem FieldItems.threads (written : FieldItems before items after) :
    Threads (Passes definitions) ((lastOf 1 items).map .type) before after := by
  induction items generalizing before with
  | nil =>
    cases written
    exact .nil
  | cons item items ih =>
    cases written with | cons name head tail =>
    exact head.threads.append (ih tail)

theorem TypeParameterItems.threads {types : List TypeParameter}
    (written : TypeParameterItems before types items after) :
    Threads (Passes definitions) ((lastOf 1 items).map .type) before after := by
  induction items generalizing before types with
  | nil =>
    cases written
    exact .nil
  | cons item items ih =>
    cases written with
    | unbounded name tail => exact threads_null.append (ih tail)
    | bounded name head tail => exact head.threads.append (ih tail)

theorem ParameterItems.threads {types : List Parameter}
    (written : ParameterItems before types items after) :
    Threads (Passes definitions) ((lastOf 2 items).map .type) before after := by
  induction items generalizing before types with
  | nil =>
    cases written
    exact .nil
  | cons item items ih =>
    cases written with | cons label identifier head tail =>
    exact head.threads.append (ih tail)

theorem SignatureItem.threads {signature : FunctionType}
    (written : SignatureItem before signature item after) :
    Threads (Passes definitions) (signatureParts item) before after := by
  cases written with
  | signature pure outer inner last =>
    rw [signatureParts, List.map_append, List.map_append]
    exact (outer.threads.append inner.threads).append last.threads

theorem FunctionItem.threads {signature : FunctionType}
    (written : FunctionItem before signature item after) :
    Threads (Passes definitions) (functionParts item) before after := by
  cases written with
  | tagged inner => exact inner.threads
  | bare inner =>
    have parts : Threads (Passes definitions) (signatureParts item) before after := inner.threads
    cases inner
    exact parts

private theorem boundOf_passedOver (item : Item) : boundOf (own (.passedOver item)) = [] := by
  rw [own]
  cases written? item with
  | none => rfl
  | some => rfl

/-- Nothing is bound by an item that does not write out a type. -/
theorem own_of_unwritten {number : Nat} (unwritten : writtenKind? number = none) (body : Item) :
    own (.type (.tag number body)) = [] := by
  have none : written? (.tag number body) = none := by
    unfold written?
    split
    next same =>
      cases same
      rw [unwritten]
      rfl
    next => rfl
  rw [own, none]
  rfl

theorem TypeItem.parts_threads {type : StaticType} (written : TypeItem before type item after) :
    Threads (Passes definitions) (typeParts item) (boundOf (own (.type item)) ++ before) after := by
  cases written with
  | known => exact .nil
  | simple => exact .nil
  | optional inner | variableArray inner | capabilityOf inner | inclusiveRange inner =>
    rw [own_of_unwritten rfl]
    exact inner.threads
  | constantArray size inner => exact inner.threads
  | dictionary keys values =>
    rw [own_of_unwritten rfl]
    exact keys.threads.append values.threads
  | reference grant inner =>
    rw [own_of_unwritten rfl]
    exact inner.threads
  | intersection inner =>
    rw [own_of_unwritten rfl]
    unfold typeParts
    simp only [TypeForm.ofValueTag?]
    -- No item of a list of types is an array, so the older layout does not apply.
    split
    next same =>
      cases same
      cases inner with | cons head tail =>
      cases tail with | cons second rest => cases second
    next => exact inner.threads
  | baseless inner => exact threads_null.append inner.threads
  | restricted outer inner =>
    rw [own_of_unwritten rfl]
    exact outer.threads.append inner.threads
  | capability => exact threads_null
  | function inner =>
    rw [own_of_unwritten rfl]
    exact inner.threads
  | @declared _ _ kind id name base initializers fields inner =>
    have written : writtenKind? (writtenTag kind) = some kind := writtenKind?_eq_some_iff.2 rfl
    have unformed : TypeForm.ofValueTag? (writtenTag kind) = none := by cases kind <;> rfl
    have other : writtenTag kind ≠ functionTag := by cases kind <;> decide
    have behind : Threads (Passes definitions) [.passedOver initializers] after after :=
      threads_passedOver [initializers] after
    have parts := ((threads_passedOver [base] _).append inner.threads).append behind
    unfold typeParts
    simp only [unformed, if_neg other, written, own, written?, Option.map_some]
    exact parts

private theorem threads_value {type : StaticType} {v : Value}
    (read : Yields (value definitions type item) before v after) :
    Threads (Passes definitions) [.value type item] before after :=
  .cons ⟨v, read⟩ .nil

theorem ValueItem.threads {type : StaticType} {v : Value}
    (written : ValueItem true definitions before type v item after) :
    Threads (Passes definitions) [.value type item] before after :=
  threads_value written.yields

theorem ValueItems.threads {element : StaticType} {elements : List Value}
    (written : ValueItems true definitions before element elements items after) :
    Threads (Passes definitions) (items.map (.value element)) before after := by
  induction items generalizing before elements with
  | nil =>
    cases written
    exact .nil
  | cons item items ih =>
    cases written with | cons head tail =>
    exact head.threads.append (ih tail)

theorem EntryItems.threads {keyType itemType : StaticType} {pairs : List (Value × Value)}
    (written : EntryItems true definitions before keyType itemType pairs items after) :
    Threads (Passes definitions) (entryParts keyType itemType items) before after := by
  induction pairs generalizing before items with
  | nil =>
    cases written
    exact .nil
  | cons entry pairs ih =>
    cases written with | cons name head tail =>
    exact name.threads.append (head.threads.append (ih tail))

theorem PartItems.threads {declared : List (String × StaticType)} {parts : List (Field × Value)}
    (written : PartItems true definitions before declared parts items after) :
    Threads (Passes definitions)
      (List.zipWith (fun field item => .value field.2 item) declared items) before after := by
  induction items generalizing before declared parts with
  | nil =>
    cases written
    exact .nil
  | cons item items ih =>
    cases written with | cons name head tail =>
    exact head.threads.append (ih tail)

theorem SimpleItem.threads {type : SimpleType} {v : Value}
    (written : SimpleItem before type v item after) :
    Threads (Passes definitions) (valueParts definitions item (.simple type)) before after := by
  cases written with
  | unknownType => exact threads_null
  | type inner => exact inner.threads
  | function inner => exact inner.threads
  | _ => exact .nil

theorem ValueItem.parts_threads {type : StaticType} {v : Value}
    (written : ValueItem true definitions before type v item after) :
    Threads (Passes definitions) (valueParts definitions item type) before after := by
  cases written with
  | simple inner => exact inner.threads
  | nil content => exact .nil
  | present there inner =>
    unfold valueParts
    dsimp only
    split
    next => exact absurd rfl (there rfl)
    next => exact inner.threads
  | reference granted inner => exact inner.threads
  | variableArray inner | constantArray length inner => exact inner.threads
  | dictionary inner => exact inner.threads
  | capability | capabilityOf => exact .nil
  | range first last difference =>
    exact first.threads.append (last.threads.append difference.threads)
  | @embedded _ _ _ own _ typeItem item opens typed inner =>
    have parts : embeddedParts definitions.table (.tag 130 (.array [typeItem, item])) =
        [.value own item] := by
      rw [embeddedParts, typed.eq_ok]
    have embedded : valueParts definitions (.tag 130 (.array [typeItem, item])) type =
        [.value own item] := by
      cases opens <;> exact parts
    rw [embedded]
    exact inner.threads
  | composite concrete laid inner =>
    have found := Definitions.layout?_eq_some_iff.2 laid
    unfold valueParts
    simp only [concrete, found]
    exact inner.threads
  | function declared written => exact written.threads

/-- What a task is read for binds what is written out there, and then the parts are gone through one
after another. -/
theorem Passes.parts {task : Task} (passed : Passes definitions task before after) :
    Threads (Passes definitions) (parts definitions task) (boundOf (own task) ++ before) after := by
  cases task with
  | value type item =>
    obtain ⟨v, read⟩ := passed
    exact (value_yields.1 read).parts_threads
  | type item =>
    obtain ⟨found, read⟩ := passed
    cases found with
    | none =>
      obtain ⟨rfl, rfl⟩ := yields_none.1 read
      exact .nil
    | some type => exact (typeValue_yields.1 read).parts_threads
  | passedOver item =>
    rw [passed, boundOf_passedOver]
    exact threads_passedOver (immediate item) before

end threads

end CadenceWire.Ccf
