import CadenceWire.Proofs.Ccf.Payload
import CadenceWire.Proofs.Ccf.Reference
import CadenceWire.Proofs.Ccf.Renaming
import Mathlib.Data.List.Nodup
import Mathlib.Data.List.Perm.Basic
import Mathlib.Logic.Function.Basic

/-!
The definitions of a message as an environment. Neither their order nor the identifiers they give
matter for what is read by them, nor do definitions that nothing refers to.
-/
namespace CadenceWire.Ccf

open Cbor (Item)

/-- What the item of a definition declares, and under which identifier. -/
def declared? : Item → Option (List UInt8 × NominalType)
  | .tag number (.array (.bytes id :: .text name :: _)) =>
    (definedKind? number).map fun kind => (id, ⟨kind, name⟩)
  | _ => none

def declaredTable (items : List Item) : TypeTable := items.filterMap declared?

/-- The item of a definition with other identifiers, its own and those it refers to. -/
def typedefRenamed (f : List UInt8 → List UInt8) : Item → Item
  | .tag number (.array (.bytes id :: rest)) =>
    .tag number (.array (.bytes (f id) :: renamedItems f rest))
  | item => renamed f item

def Typedef.renamed (f : List UInt8 → List UInt8) (t : Typedef) : Typedef :=
  { t with id := f t.id }

/-- A message that defines types. -/
def definingMessage (items : List Item) (body : Item) : Item :=
  .tag 129 (.array [.array items, body])

section renamed

variable {f g : List UInt8 → List UInt8} {item : Item}

private theorem renamed_eq_array {items : List Item} (same : renamed f item = .array items) :
    ∃ items', item = .array items' ∧ renamedItems f items' = items := by
  revert same
  fun_cases renamed f item <;> simp_all

/-- The item is not one that begins with an identifier, as those of definitions do. -/
def Headless (item : Item) : Prop :=
  ∀ number id rest, item ≠ .tag number (.array (.bytes id :: rest))

private theorem headless_or_headed (item : Item) :
    Headless item ∨ ∃ number id rest, item = .tag number (.array (.bytes id :: rest)) := by
  by_cases headed : ∃ number id rest, item = .tag number (.array (.bytes id :: rest))
  · exact .inr headed
  · exact .inl fun number id rest same => headed ⟨number, id, rest, same⟩

theorem Headless.renamed (headless : Headless item) : Headless (renamed f item) := by
  intro number id rest same
  cases item with
  | tag number' content =>
    by_cases reference : number' = 136 ∧ ∃ id, content = .bytes id
    · obtain ⟨rfl, id', rfl⟩ := reference
      cases same
    · rw [renamed_tag fun same id bytes => reference ⟨same, id, bytes⟩] at same
      obtain ⟨rfl, inner⟩ := Item.tag.inj same
      obtain ⟨items, rfl, list⟩ := renamed_eq_array inner
      cases items with
      | nil => cases list
      | cons first others =>
        obtain ⟨head, -⟩ := List.cons.inj list
        rw [renamed_eq_bytes.1 head] at headless
        exact headless _ _ _ rfl
  | _ => cases same

theorem Headless.typedefRenamed (headless : Headless item) :
    typedefRenamed f item = Ccf.renamed f item := by
  unfold Ccf.typedefRenamed
  split
  next number id rest => exact absurd rfl (headless number id rest)
  next => rfl

theorem Headless.declared? (headless : Headless item) : declared? item = none := by
  unfold Ccf.declared?
  split
  next number id name rest => exact absurd rfl (headless number id _)
  next => rfl

private theorem typedefRenamed_id (item : Item) : typedefRenamed id item = item := by
  unfold typedefRenamed
  split
  next number id rest =>
    rw [renamedItems_id]
    rfl
  next => exact renamed_id item

private theorem typedefRenamed_comp (item : Item) :
    typedefRenamed g (typedefRenamed f item) = typedefRenamed (g ∘ f) item := by
  rcases headless_or_headed item with headless | ⟨number, id, rest, rfl⟩
  · rw [headless.typedefRenamed, headless.typedefRenamed, headless.renamed.typedefRenamed,
      renamed_comp]
  · simp only [typedefRenamed, renamedItems_comp, Function.comp_apply]

private theorem eq_of_declared? {number : Nat} {id : List UInt8} {rest : List Item}
    {d : List UInt8 × NominalType}
    (declares : declared? (.tag number (.array (.bytes id :: rest))) = some d) : d.1 = id := by
  unfold declared? at declares
  split at declares
  next same =>
    cases same
    obtain ⟨kind, -, rfl⟩ := Option.map_eq_some_iff.1 declares
    rfl
  next => cases declares

/-- All identifiers that were given anew are ones that the map gives. -/
theorem range_of_mem_declaredTable {items : List Item} {d : List UInt8 × NominalType}
    (member : d ∈ declaredTable (items.map (typedefRenamed f))) : ∃ id, d.1 = f id := by
  obtain ⟨_, listed, declares⟩ := List.mem_filterMap.1 member
  obtain ⟨item, -, rfl⟩ := List.mem_map.1 listed
  rcases headless_or_headed item with headless | ⟨number, id, rest, rfl⟩
  · rw [headless.typedefRenamed, headless.renamed.declared?] at declares
    cases declares
  · exact ⟨id, eq_of_declared? declares⟩

end renamed

section items

variable {f : List UInt8 → List UInt8} {table table' : TypeTable} {t : Typedef} {item : Item}
  {typedefs : List Typedef} {items : List Item}

theorem TypedefItem.declared? (written : TypedefItem table t item) :
    Ccf.declared? item = some (t.id, t.type) := by
  have defined (kind : DeclarationKind) : definedKind? (definedTag kind) = some kind :=
    definedKind?_eq_some_iff.2 rfl
  cases written with
  | @interface kind => simp only [Ccf.declared?, defined, Option.map_some]
  | @composite kind => simp only [Ccf.declared?, defined, Option.map_some]
  | attachment => rfl

private theorem declaredTable_eq (defined : List.Forall₂ (TypedefItem table) typedefs items) :
    declaredTable items = Typedef.table typedefs := by
  induction defined with
  | nil => rfl
  | cons head tail ih =>
    rw [declaredTable, List.filterMap_cons, head.declared?]
    exact congrArg (_ :: ·) ih

theorem FieldItem.carried
    (types : ∀ id type, table.lookup id = some type → table'.lookup (f id) = some type)
    {field : String × StaticType} (written : FieldItem table field item) :
    FieldItem table' field (renamed f item) := by
  cases written with
  | field name typed => exact .field name (typed.carried types)

private theorem fieldItems_carried
    (types : ∀ id type, table.lookup id = some type → table'.lookup (f id) = some type)
    {fields : List (String × StaticType)} (laid : List.Forall₂ (FieldItem table) fields items) :
    List.Forall₂ (FieldItem table') fields (renamedItems f items) := by
  rw [renamedItems_eq_map, List.forall₂_map_right_iff]
  exact laid.imp fun _ _ written => written.carried types

theorem TypedefItem.carried
    (types : ∀ id type, table.lookup id = some type → table'.lookup (f id) = some type)
    (written : TypedefItem table t item) :
    TypedefItem table' (t.renamed f) (typedefRenamed f item) := by
  cases written with
  | interface isInterface id name => exact .interface isInterface (f id) name
  | composite concrete id name laid =>
    exact .composite concrete (f id) name (fieldItems_carried types laid)
  | attachment id name attached laid =>
    exact .attachment (f id) name (attached.carried types) (fieldItems_carried types laid)

end items

section typedefs

variable {f : List UInt8 → List UInt8} {t : Typedef} {typedefs : List Typedef}

theorem Typedef.lookup_of_mem (distinct : (typedefs.map (·.id)).Nodup) (member : t ∈ typedefs) :
    (table typedefs).lookup t.id = some t.type := by
  obtain ⟨front, behind, rfl⟩ := List.append_of_mem member
  exact lookup_table distinct

theorem Typedef.laysOut_of_mem (distinct : (typedefs.map (·.type.id)).Nodup)
    (member : t ∈ typedefs) (concrete : t.type.kind.isInterface = false) :
    (definitions typedefs).LaysOut t.type.id ⟨t.type, t.fields⟩ := by
  obtain ⟨front, behind, rfl⟩ := List.append_of_mem member
  rw [List.map_append, List.map_cons] at distinct
  have fresh := (List.nodup_cons.1 (List.nodup_append.1 distinct).2.1).1
  exact laysOut_of_last concrete fun other listed takes =>
    fresh (takes.2 ▸ List.mem_map_of_mem listed)

theorem Carries.of_subset {typedefs' : List Typedef} (ids : (typedefs'.map (·.id)).Nodup)
    (names : (typedefs'.map (·.type.id)).Nodup) (within : typedefs ⊆ typedefs') :
    Carries id (Typedef.definitions typedefs) (Typedef.definitions typedefs') := by
  constructor
  case type =>
    intro id type found
    obtain ⟨t, member, rfl, rfl⟩ := Typedef.exists_of_lookup found
    exact Typedef.lookup_of_mem ids (within member)
  case layout =>
    intro name layout laid
    obtain ⟨t, member, concrete, rfl⟩ := Typedef.exists_of_mem_layouts laid.mem
    rw [← laid.name_eq]
    exact Typedef.laysOut_of_mem names (within member) concrete

theorem Typedef.ids_renamed (typedefs : List Typedef) :
    (typedefs.map (Typedef.renamed f)).map (·.id) = typedefs.map (f ·.id) := by
  rw [List.map_map]
  rfl

theorem Carries.renamed (ids : (typedefs.map (f ·.id)).Nodup) :
    Carries f (Typedef.definitions typedefs)
      (Typedef.definitions (typedefs.map (Typedef.renamed f))) := by
  constructor
  case type =>
    intro id type found
    obtain ⟨t, member, rfl, rfl⟩ := Typedef.exists_of_lookup found
    rw [← Typedef.ids_renamed] at ids
    exact Typedef.lookup_of_mem ids (List.mem_map_of_mem member)
  case layout =>
    have layouts : (typedefs.map (Typedef.renamed f)).filterMap Typedef.layout? =
        typedefs.filterMap Typedef.layout? := by
      rw [List.filterMap_map]
      rfl
    intro name layout laid
    rw [Typedef.definitions, layouts]
    exact laid

end typedefs

/-- The body of a message brings the value. -/
def Brings (definitions : Definitions) (body : Item) (v : Value) : Prop :=
  ∃ second third type after, body = .array [second, third] ∧
    InlineItem definitions.table type second ∧
    ValueItem true definitions [] type v third after

theorem Brings.carried {f : List UInt8 → List UInt8} {definitions definitions' : Definitions}
    (carries : Carries f definitions definitions') {body : Item} {v : Value}
    (brings : Brings definitions body v) : Brings definitions' (renamed f body) v := by
  obtain ⟨second, third, type, after, rfl, typed, read⟩ := brings
  exact ⟨_, _, type, after, rfl, typed.carried carries.type, read.carried carries⟩

/-! What is read by some definitions is read by any among which they are. -/
section widened

variable {definitions definitions' : Definitions}

theorem TypedefItem.widened (carries : Carries id definitions definitions') {t : Typedef}
    {item : Item} (written : TypedefItem definitions.table t item) :
    TypedefItem definitions'.table t item := by
  have carried := written.carried carries.type
  rw [typedefRenamed_id] at carried
  exact carried

theorem Brings.widened (carries : Carries id definitions definitions') {body : Item} {v : Value}
    (brings : Brings definitions body v) : Brings definitions' body v := by
  have carried := brings.carried carries
  rw [renamed_id] at carried
  exact carried

end widened

section message

variable {items items' : List Item} {body : Item} {v : Value}

private theorem definingMessage_eq_ok :
    message (definingMessage items body) = .ok v ↔
      ∃ typedefs, TypedefsItem typedefs (.array items) ∧
        Brings (Typedef.definitions typedefs) body v := by
  rw [message_eq_ok]
  constructor
  · intro ⟨definitions, type, third, after, opens, read⟩
    cases opens with
    | defining defined typed =>
      obtain ⟨typedefs, written, rfl⟩ := Definitions.read_eq_ok.1 defined
      exact ⟨typedefs, written, _, _, type, after, rfl, inlineType_eq_ok.1 typed,
        value_yields.1 read⟩
  · intro ⟨typedefs, written, second, third, type, after, same, typed, read⟩
    rw [same]
    exact ⟨_, type, third, after,
      .defining (Definitions.read_eq_ok.2 ⟨typedefs, written, rfl⟩) (inlineType_eq_ok.2 typed),
      value_yields.2 read⟩

private theorem message_of_perm (names : ((declaredTable items).map (·.2.id)).Nodup)
    (perm : items.Perm items') (accepted : message (definingMessage items body) = .ok v) :
    message (definingMessage items' body) = .ok v := by
  obtain ⟨typedefs, ⟨distinct, defined⟩, brings⟩ := definingMessage_eq_ok.1 accepted
  obtain ⟨typedefs', defined', same⟩ := List.perm_comp_forall₂ perm.symm defined.flip
  have ids : (typedefs'.map (·.id)).Nodup := (same.map _).nodup_iff.2 distinct
  have names' : (typedefs'.map (·.type.id)).Nodup := by
    rw [declaredTable_eq defined, Typedef.table, List.map_map] at names
    exact (same.map _).nodup_iff.2 names
  have carries := Carries.of_subset ids names' same.symm.subset
  have widened := defined'.flip.imp fun _ _ written => written.widened carries
  exact definingMessage_eq_ok.2 ⟨typedefs', ⟨ids, widened⟩, brings.widened carries⟩

private theorem message_renamed {f : List UInt8 → List UInt8}
    (apart : ∀ d ∈ declaredTable items, ∀ d' ∈ declaredTable items, f d.1 = f d'.1 → d.1 = d'.1)
    (accepted : message (definingMessage items body) = .ok v) :
    message (definingMessage (items.map (typedefRenamed f)) (renamed f body)) = .ok v := by
  obtain ⟨typedefs, ⟨distinct, defined⟩, brings⟩ := definingMessage_eq_ok.1 accepted
  have ids : (typedefs.map (f ·.id)).Nodup := by
    have unmapped : typedefs.Nodup := List.Nodup.of_map _ distinct
    refine List.Nodup.map_on (fun t member t' member' same => ?_) unmapped
    rw [declaredTable_eq defined] at apart
    have equal : t.id = t'.id :=
      apart _ (List.mem_map_of_mem member) _ (List.mem_map_of_mem member') same
    exact List.inj_on_of_nodup_map distinct member member' equal
  have carries := Carries.renamed ids
  have defined' : List.Forall₂
      (TypedefItem (Typedef.table (typedefs.map (Typedef.renamed f))))
      (typedefs.map (Typedef.renamed f)) (items.map (typedefRenamed f)) := by
    rw [List.forall₂_map_left_iff, List.forall₂_map_right_iff]
    exact defined.imp fun _ _ written => written.carried carries.type
  rw [← Typedef.ids_renamed] at ids
  exact definingMessage_eq_ok.2 ⟨_, ⟨ids, defined'⟩, brings.carried carries⟩

private theorem message_of_renamed {f : List UInt8 → List UInt8} (injective : Function.Injective f)
    (accepted :
      message (definingMessage (items.map (typedefRenamed f)) (renamed f body)) = .ok v) :
    message (definingMessage items body) = .ok v := by
  obtain ⟨g, inverse⟩ := injective.hasLeftInverse
  -- On what `f` gives, `g` is injective.
  have apart : ∀ d ∈ declaredTable (items.map (typedefRenamed f)),
      ∀ d' ∈ declaredTable (items.map (typedefRenamed f)), g d.1 = g d'.1 → d.1 = d'.1 := by
    intro d member d' member' same
    obtain ⟨id, given⟩ := range_of_mem_declaredTable member
    obtain ⟨id', given'⟩ := range_of_mem_declaredTable member'
    rw [given, given', inverse, inverse] at same
    rw [given, given', same]
  have back := message_renamed apart accepted
  have undone : typedefRenamed g ∘ typedefRenamed f = id := by
    funext item
    rw [Function.comp_apply, typedefRenamed_comp, inverse.comp_eq_id, typedefRenamed_id]
    rfl
  rw [List.map_map, undone, List.map_id, renamed_comp, inverse.comp_eq_id, renamed_id] at back
  exact back

/-- A definition under a name and an identifier of its own, put in front of the others. -/
theorem message_of_added {added : Item} {t : Typedef}
    (written : TypedefItem (declaredTable (added :: items)) t added)
    (id : t.id ∉ (declaredTable items).map (·.1))
    (names : ((declaredTable (added :: items)).map (·.2.id)).Nodup)
    (accepted : message (definingMessage items body) = .ok v) :
    message (definingMessage (added :: items) body) = .ok v := by
  obtain ⟨typedefs, ⟨distinct, defined⟩, brings⟩ := definingMessage_eq_ok.1 accepted
  have table : declaredTable (added :: items) = Typedef.table (t :: typedefs) := by
    rw [declaredTable, List.filterMap_cons, written.declared?]
    exact congrArg (_ :: ·) (declaredTable_eq defined)
  rw [table] at written names
  rw [declaredTable_eq defined, Typedef.table, List.map_map] at id
  rw [Typedef.table, List.map_map] at names
  have ids : ((t :: typedefs).map (·.id)).Nodup := List.nodup_cons.2 ⟨id, distinct⟩
  have carries := Carries.of_subset ids names (List.subset_cons_self t typedefs)
  have others := defined.imp fun _ _ inner => inner.widened carries
  exact definingMessage_eq_ok.2
    ⟨t :: typedefs, ⟨ids, .cons written others⟩, brings.widened carries⟩

/-- Where no two definitions are of the same name, a message brings the same value, or none, in
whichever order they come and whatever their identifiers are, so long as these are told apart. A
definition of another name and under another identifier can be added anywhere. -/
theorem definitions_unordered (items : List Item) (body : Item)
    (distinct : ((declaredTable items).map (·.2.id)).Nodup) :
    (∀ items', items.Perm items' → ∀ v,
      message (definingMessage items body) = .ok v ↔
        message (definingMessage items' body) = .ok v) ∧
    (∀ f, Function.Injective f → ∀ v,
      message (definingMessage items body) = .ok v ↔
        message (definingMessage (items.map (typedefRenamed f)) (renamed f body)) = .ok v) ∧
    ∀ v, message (definingMessage items body) = .ok v →
      ∀ added t, TypedefItem (declaredTable (added :: items)) t added →
        t.id ∉ (declaredTable items).map (·.1) → t.type.id ∉ (declaredTable items).map (·.2.id) →
          ∀ items', (added :: items).Perm items' →
            message (definingMessage items' body) = .ok v := by
  refine ⟨?order, ?identifiers, ?added⟩
  case order =>
    intro items' perm v
    have distinct' : ((declaredTable items').map (·.2.id)).Nodup :=
      ((perm.filterMap declared?).map _).nodup_iff.1 distinct
    exact ⟨message_of_perm distinct perm, message_of_perm distinct' perm.symm⟩
  case identifiers =>
    intro f injective v
    exact ⟨message_renamed fun _ _ _ _ same => injective same, message_of_renamed injective⟩
  case added =>
    intro v accepted added t written id name items' perm
    have names : ((declaredTable (added :: items)).map (·.2.id)).Nodup := by
      rw [declaredTable, List.filterMap_cons, written.declared?]
      exact List.nodup_cons.2 ⟨name, distinct⟩
    exact message_of_perm names perm (message_of_added written id names accepted)

end message

section nested

/-- A structure with a field of a type that may be defined behind it. -/
def outerItem : Item :=
  .tag 160 (.array [.bytes [0], .text "S.A", .array [.array [.text "b", .tag 136 (.bytes [1])]]])

def innerItem : Item :=
  .tag 160 (.array [.bytes [1], .text "S.B", .array [.array [.text "c", .tag 137 (.integer 0)]]])

def nestedBody : Item := .array [.tag 136 (.bytes [0]), .array [.array [.bool true]]]

def nestedValue : Value :=
  .composite ⟨.struct, "S.A"⟩ [(⟨"b", some (.nominal ⟨.struct, "S.B"⟩)⟩,
    .composite ⟨.struct, "S.B"⟩ [(⟨"c", some (.simple .bool)⟩, .bool true)])]

/-- Definitions of which one refers to the other are turned around, are given longer identifiers and
have an interface put between them. -/
theorem definitions_unordered_nested :
    message (definingMessage [outerItem, innerItem] nestedBody) = .ok nestedValue ∧
      message (definingMessage [innerItem, outerItem] nestedBody) = .ok nestedValue ∧
      message (definingMessage
        [.tag 160 (.array [.bytes [7, 0], .text "S.A",
          .array [.array [.text "b", .tag 136 (.bytes [7, 1])]]]),
        .tag 160 (.array [.bytes [7, 1], .text "S.B",
          .array [.array [.text "c", .tag 137 (.integer 0)]]])]
        (.array [.tag 136 (.bytes [7, 0]), .array [.array [.bool true]]])) = .ok nestedValue ∧
      message (definingMessage
        [outerItem, .tag 176 (.array [.bytes [2], .text "S.I"]), innerItem] nestedBody) =
          .ok nestedValue := by
  have accepted : message (definingMessage [outerItem, innerItem] nestedBody) =
      .ok nestedValue := rfl
  have distinct : ((declaredTable [outerItem, innerItem]).map (·.2.id)).Nodup := by
    change ["S.A", "S.B"].Nodup
    decide
  obtain ⟨order, identifiers, added⟩ := definitions_unordered _ nestedBody distinct
  refine ⟨accepted, ?_, ?_, ?_⟩
  · exact (order _ (.swap _ _ _) _).1 accepted
  · exact (identifiers (7 :: ·) List.cons_injective _).1 accepted
  · refine added _ accepted _ ⟨[2], ⟨.structInterface, "S.I"⟩, []⟩
      (.interface rfl [2] "S.I") ?_ ?_ _ (.swap _ _ _)
    · change [2] ∉ [[0], [(1 : UInt8)]]
      decide
    · change "S.I" ∉ ["S.A", "S.B"]
      decide

end nested

end CadenceWire.Ccf
