import CadenceWire.Ccf.Value
import CadenceWire.Proofs.Cbor.Grammar

/-!
Where a message has values and types that are values, in the order in which it is written, and which
types are written out there. What a type written out says of its base and of its initializers is
passed over.
-/
namespace CadenceWire.Ccf

open Cbor (Item)

/-- What there is at a place of a message: a value of a type, a type that is a value, or something
that is not looked at. -/
inductive Task where
  | value (type : StaticType) (item : Item)
  | type (item : Item)
  | passedOver (item : Item)

/-- Optionals and references take up no items of their own. -/
def layersOf : StaticType → Nat
  | .optional content => layersOf content + 1
  | .reference _ referenced => layersOf referenced + 1
  | _ => 0

namespace Task

def item : Task → Item
  | value _ item | .type item | passedOver item => item

/-- How many readings there are yet to come of the same item. -/
def layers : Task → Nat
  | value known _ => layersOf known + 1
  | .type _ | passedOver _ => 0

/-- One item is smaller than the other, or it is the same with fewer layers of its type. -/
def Smaller (inner outer : Task) : Prop :=
  Prod.Lex (· < ·) (· < ·) (sizeOf inner.item, inner.layers) (sizeOf outer.item, outer.layers)

end Task

/-- A type written out within a message, under an identifier. -/
structure Occurrence where
  id : List UInt8
  type : NominalType
  passedOver : Bool

def itemsOf : Item → List Item
  | .array items => items
  | _ => []

/-- What an item is made of, whatever it stands for. -/
def immediate : Item → List Item
  | .tag _ content => [content]
  | .array items => items
  | .map entries => entries.flatMap fun entry => [entry.1, entry.2]
  | _ => []

/-- The types that the items of a list hold in the last place, behind so many others. -/
def lastOf (count : Nat) (items : List Item) : List Item :=
  items.flatMap fun item => (itemsOf item).drop count

/-- The types in the signature of a function. -/
def signatureParts (item : Item) : List Task :=
  match item with
  | .array (typeParameters :: parameters :: result :: _) =>
    (lastOf 1 (itemsOf typeParameters) ++ lastOf 2 (itemsOf parameters) ++ [result]).map .type
  | _ => []

/-- The types within a type that is a value. -/
def typeParts : Item → List Task
  | .tag number body =>
    match TypeForm.ofValueTag? number with
    | some .known | some .simple => []
    | some .optional | some .variableArray | some .inclusiveRange | some .capability =>
      [.type body]
    | some .constantArray | some .reference => ((itemsOf body).drop 1).map .type
    | some .dictionary => (itemsOf body).map .type
    | some .intersection =>
      match body with
      | .array [base, .array types] => (base :: types).map .type
      | _ => (itemsOf body).map .type
    | none =>
      if number = functionTag then signatureParts body
      else
        match writtenKind? number, body with
        | some _, .array [_, _, base, fields, initializers] =>
          .passedOver base :: (lastOf 1 (itemsOf fields)).map .type ++ [.passedOver initializers]
        | _, _ => []
  | _ => []

/-- A function may do without the tag of function types. -/
def functionParts : Item → List Task
  | .tag 193 body => signatureParts body
  | item => signatureParts item

/-- What a value brings along with its type. -/
def embeddedParts (table : TypeTable) : Item → List Task
  | .tag 130 (.array [type, item]) =>
    match inlineType table type with
    | .ok type => [.value type item]
    | .error _ => []
  | _ => []

/-- The parts of items that belong to one type and to another in turn. -/
def entryParts (keyType valueType : StaticType) : List Item → List Task
  | key :: item :: rest => .value keyType key :: .value valueType item ::
      entryParts keyType valueType rest
  | _ => []

/-- The values within a value of a type, and the types if it is itself a type or a function. -/
def valueParts (definitions : Definitions) (item : Item) : StaticType → List Task
  | .optional content =>
    match item with
    | .null => []
    | _ => [.value content item]
  | .reference _ referenced => [.value referenced item]
  | .variableArray element | .constantArray _ element | .inclusiveRange element =>
    (itemsOf item).map (.value element)
  | .dictionary key value => entryParts key value (itemsOf item)
  | .simple .metaType => [.type item]
  | .simple .function | .function _ => functionParts item
  | .nominal declared =>
    if declared.kind.isInterface then embeddedParts definitions.table item
    else
      match definitions.layout? declared.id with
      | some layout =>
        List.zipWith (fun field item => .value field.2 item) layout.fields (itemsOf item)
      | none => []
  | .simple (.abstract _) | .intersection _ | .restricted _ _ =>
    embeddedParts definitions.table item
  | _ => []

def parts (definitions : Definitions) : Task → List Task
  | .value type item => valueParts definitions item type
  | .type item => typeParts item
  | .passedOver item => (immediate item).map .passedOver

/-- What an item writes out, apart from what the items within it do. -/
def written? : Item → Option (List UInt8 × NominalType)
  | .tag number (.array [.bytes id, .text name, _, _, _]) =>
    (writtenKind? number).map fun kind => (id, ⟨kind, name⟩)
  | _ => none

def own : Task → List Occurrence
  | .value _ _ => []
  | .type item => (written? item).toList.map fun (id, type) => ⟨id, type, false⟩
  | .passedOver item => (written? item).toList.map fun (id, type) => ⟨id, type, true⟩

/-! Whatever lies within something is smaller. -/
section size

variable {item whole : Item} {items : List Item} {bound : Nat}


theorem Task.Smaller.of_item {inner outer : Task} (less : sizeOf inner.item < sizeOf outer.item) :
    inner.Smaller outer :=
  Prod.Lex.left _ _ less

private theorem sizeOf_lt_of_mem_itemsOf (member : item ∈ itemsOf whole) :
    sizeOf item < sizeOf whole := by
  cases whole with
  | array items =>
    have inside := List.sizeOf_lt_of_mem (show item ∈ items from member)
    rw [Item.array.sizeOf_spec]
    omega
  | _ => cases member

private theorem sizeOf_lt_of_mem_lastOf {count : Nat}
    (member : item ∈ lastOf count (itemsOf whole)) : sizeOf item < sizeOf whole := by
  obtain ⟨outer, listed, inside⟩ := List.mem_flatMap.1 member
  have smaller := sizeOf_lt_of_mem_itemsOf (List.mem_of_mem_drop inside)
  exact Nat.lt_trans smaller (sizeOf_lt_of_mem_itemsOf listed)

theorem sizeOf_lt_of_mem_immediate (member : item ∈ immediate whole) :
    sizeOf item < sizeOf whole := by
  cases whole with
  | tag number content =>
    obtain rfl := List.mem_singleton.1 member
    exact Item.sizeOf_lt_tag _ _
  | array items => exact sizeOf_lt_of_mem_itemsOf (show item ∈ itemsOf (.array items) from member)
  | map entries =>
    obtain ⟨entry, listed, inside⟩ := List.mem_flatMap.1 member
    have smaller := List.sizeOf_lt_of_mem listed
    obtain ⟨key, content⟩ := entry
    rw [Prod.mk.sizeOf_spec] at smaller
    rw [Item.map.sizeOf_spec]
    rcases List.mem_cons.1 inside with rfl | other
    · omega
    · obtain rfl := List.mem_singleton.1 other
      omega
  | _ => cases member

/-- The items of the tasks are smaller than the bound. -/
def Below (bound : Nat) (tasks : List Task) : Prop :=
  ∀ task ∈ tasks, sizeOf task.item < bound

private theorem below_nil : Below bound [] := by
  intro task member
  cases member

theorem Below.mono {tasks : List Task} {wider : Nat} (below : Below bound tasks)
    (within : bound ≤ wider) : Below wider tasks := by
  intro task member
  exact Nat.lt_of_lt_of_le (below task member) within

private theorem below_types (small : ∀ item ∈ items, sizeOf item < bound) :
    Below bound (items.map .type) := by
  intro task member
  obtain ⟨item, listed, rfl⟩ := List.mem_map.1 member
  exact small item listed

private theorem below_single {task : Task} (small : sizeOf task.item < bound) :
    Below bound [task] := by
  intro part member
  rw [List.mem_singleton.1 member]
  exact small

private theorem below_signatureParts (item : Item) : Below (sizeOf item) (signatureParts item) := by
  unfold signatureParts
  split
  next typeParameters parameters result purity =>
    apply below_types
    intro part member
    simp only [List.mem_append, List.mem_singleton] at member
    simp only [Item.array.sizeOf_spec, List.cons.sizeOf_spec]
    rcases member with (inside | inside) | rfl
    · have smaller := sizeOf_lt_of_mem_lastOf inside
      omega
    · have smaller := sizeOf_lt_of_mem_lastOf inside
      omega
    · omega
  next => exact below_nil

private theorem below_functionParts (item : Item) : Below (sizeOf item) (functionParts item) := by
  unfold functionParts
  split
  next body => exact (below_signatureParts body).mono (Nat.le_of_lt (Item.sizeOf_lt_tag _ _))
  next => exact below_signatureParts item

private theorem below_typeParts (item : Item) : Below (sizeOf item) (typeParts item) := by
  cases item with
  | tag number body =>
    have inside := Item.sizeOf_lt_tag number body
    have within {part : Item} (member : part ∈ itemsOf body) :
        sizeOf part < sizeOf (Item.tag number body) :=
      Nat.lt_trans (sizeOf_lt_of_mem_itemsOf member) inside
    unfold typeParts
    dsimp only
    split
    next => exact below_nil
    next => exact below_nil
    next => exact below_single inside
    next => exact below_single inside
    next => exact below_single inside
    next => exact below_single inside
    next => exact below_types fun part member => within (List.mem_of_mem_drop member)
    next => exact below_types fun part member => within (List.mem_of_mem_drop member)
    next => exact below_types fun part member => within member
    next =>
      split
      next base types =>
        apply below_types
        intro part member
        rcases List.mem_cons.1 member with rfl | listed
        · exact within (List.mem_cons_self ..)
        · have smaller : sizeOf part < sizeOf (Item.array types) :=
            sizeOf_lt_of_mem_itemsOf listed
          have outer : sizeOf (Item.array types) < _ :=
            within (List.mem_cons_of_mem _ (List.mem_cons_self ..))
          exact Nat.lt_trans smaller outer
      next => exact below_types fun part member => within member
    next =>
      split
      next => exact (below_signatureParts body).mono (Nat.le_of_lt inside)
      next =>
        split
        next kind _ base fields initializers _ =>
          intro task member
          simp only [List.cons_append, List.mem_cons, List.mem_append, List.mem_map,
            List.not_mem_nil, or_false] at member
          simp only [Item.tag.sizeOf_spec, Item.array.sizeOf_spec, List.cons.sizeOf_spec]
          rcases member with rfl | ⟨part, there, rfl⟩ | rfl
          · simp only [Task.item]
            omega
          · have smaller := sizeOf_lt_of_mem_lastOf there
            simp only [Task.item]
            omega
          · simp only [Task.item]
            omega
        next => exact below_nil
  | _ => exact below_nil

private theorem below_embeddedParts (table : TypeTable) (item : Item) :
    Below (sizeOf item) (embeddedParts table item) := by
  unfold embeddedParts
  split
  next =>
    split
    next =>
      apply below_single
      simp only [Task.item, Item.tag.sizeOf_spec, Item.array.sizeOf_spec, List.cons.sizeOf_spec]
      omega
    next => exact below_nil
  next => exact below_nil

private theorem below_entryParts {keyType valueType : StaticType}
    (small : ∀ item ∈ items, sizeOf item < bound) :
    Below bound (entryParts keyType valueType items) := by
  fun_induction entryParts keyType valueType items with
  | case1 key item rest ih =>
    obtain ⟨first, small⟩ := List.forall_mem_cons.1 small
    obtain ⟨second, small⟩ := List.forall_mem_cons.1 small
    intro task member
    rcases List.mem_cons.1 member with rfl | other
    · exact first
    · rcases List.mem_cons.1 other with rfl | inside
      · exact second
      · exact ih small task inside
  | case2 => exact below_nil

private theorem below_values {element : StaticType} (item : Item) :
    Below (sizeOf item) ((itemsOf item).map (.value element)) := by
  intro task member
  obtain ⟨part, listed, rfl⟩ := List.mem_map.1 member
  exact sizeOf_lt_of_mem_itemsOf listed

private theorem below_fields (fields : List (String × StaticType)) (item : Item) :
    Below (sizeOf item)
      (List.zipWith (fun field item => Task.value field.2 item) fields (itemsOf item)) := by
  intro task member
  obtain ⟨i, there, rfl⟩ := List.mem_iff_getElem.1 member
  rw [List.getElem_zipWith]
  exact sizeOf_lt_of_mem_itemsOf (List.getElem_mem ..)

/-- Parts are of smaller items, except where a value is the whole of its item. -/
theorem smaller_of_mem_valueParts {definitions : Definitions} {type : StaticType} {part : Task}
    (member : part ∈ valueParts definitions item type) : part.Smaller (.value type item) := by
  have of_below {tasks : List Task} (below : Below (sizeOf item) tasks) (member : part ∈ tasks) :
      part.Smaller (.value type item) := .of_item (below part member)
  unfold valueParts at member
  split at member
  next content =>
    split at member
    next => cases member
    next =>
      obtain rfl := List.mem_singleton.1 member
      exact Prod.Lex.right _ (Nat.lt_succ_self _)
  next granted referenced =>
    obtain rfl := List.mem_singleton.1 member
    exact Prod.Lex.right _ (Nat.lt_succ_self _)
  next => exact of_below (below_values item) member
  next => exact of_below (below_values item) member
  next => exact of_below (below_values item) member
  next => exact of_below (below_entryParts fun _ => sizeOf_lt_of_mem_itemsOf) member
  next =>
    obtain rfl := List.mem_singleton.1 member
    exact Prod.Lex.right _ (Nat.succ_pos _)
  next => exact of_below (below_functionParts item) member
  next => exact of_below (below_functionParts item) member
  next =>
    split at member
    next => exact of_below (below_embeddedParts _ item) member
    next =>
      split at member
      next => exact of_below (below_fields _ item) member
      next => cases member
  next => exact of_below (below_embeddedParts _ item) member
  next => exact of_below (below_embeddedParts _ item) member
  next => exact of_below (below_embeddedParts _ item) member
  next => cases member

private theorem smaller_of_mem_parts {definitions : Definitions} {task part : Task}
    (member : part ∈ parts definitions task) : part.Smaller task := by
  cases task with
  | value type item => exact smaller_of_mem_valueParts member
  | type item => exact .of_item (below_typeParts item part member)
  | passedOver item =>
    obtain ⟨inner, inside, rfl⟩ := List.mem_map.1 member
    exact .of_item (sizeOf_lt_of_mem_immediate inside)

end size

/-- The types written out within a task, in the order in which they are written. -/
def occurrences (definitions : Definitions) (task : Task) : List Occurrence :=
  own task ++ (parts definitions task).attach.flatMap fun ⟨part, _⟩ =>
    occurrences definitions part
termination_by (sizeOf task.item, task.layers)
decreasing_by
  rename_i member
  exact smaller_of_mem_parts member

theorem occurrences_eq (definitions : Definitions) (task : Task) :
    occurrences definitions task =
      own task ++ (parts definitions task).flatMap (occurrences definitions) := by
  rw [occurrences]
  simp [List.flatMap_subtype, List.unattach_attach]

end CadenceWire.Ccf

