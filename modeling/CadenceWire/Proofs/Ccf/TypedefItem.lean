import CadenceWire.Ccf.Definitions
import CadenceWire.Proofs.Ccf.InlineItem

/-!
The items that the type definitions of a message are written as. The types of fields may name any
of the types defined, in whatever order these come.
-/
namespace CadenceWire.Ccf

open Cbor (Item)

/-- A type that a message defines: the identifier it gives the type, what it declares, and the
fields. Interfaces are without fields. -/
structure Typedef where
  id : List UInt8
  type : NominalType
  fields : List (String × StaticType)

namespace Definitions

variable {definitions : Definitions} {name : String} {layout : Layout}

/-- The layout is the last of those that a message gives to types of the name. -/
def LaysOut (definitions : Definitions) (name : String) (layout : Layout) : Prop :=
  ∃ front behind, definitions.layouts = front ++ layout :: behind ∧ layout.type.id = name ∧
    ∀ other ∈ behind, other.type.id ≠ name

/-- It is the one that is found. -/
theorem layout?_eq_some_iff :
    definitions.layout? name = some layout ↔ definitions.LaysOut name layout := by
  unfold layout? LaysOut
  rw [List.find?_eq_some_iff_append]
  constructor
  · rintro ⟨named, newer, older, parted, others⟩
    have listed := List.reverse_eq_iff.1 parted
    rw [List.reverse_append, List.reverse_cons, List.append_assoc] at listed
    refine ⟨older.reverse, newer.reverse, listed, by simpa using named, fun other member => ?_⟩
    simpa using others other (List.mem_reverse.1 member)
  · rintro ⟨front, behind, parted, named, others⟩
    refine ⟨by simpa using named, behind.reverse, front.reverse, by simp [parted], ?_⟩
    intro other member
    simpa using others other (List.mem_reverse.1 member)

theorem LaysOut.mem (laid : definitions.LaysOut name layout) : layout ∈ definitions.layouts := by
  obtain ⟨front, behind, parted, -, -⟩ := laid
  rw [parted]
  simp

theorem LaysOut.unique {other : Layout} (laid : definitions.LaysOut name layout)
    (laid' : definitions.LaysOut name other) : layout = other :=
  Option.some.inj ((layout?_eq_some_iff.2 laid).symm.trans (layout?_eq_some_iff.2 laid'))

theorem LaysOut.name_eq (laid : definitions.LaysOut name layout) : layout.type.id = name := by
  obtain ⟨front, behind, -, named, -⟩ := laid
  exact named

end Definitions

namespace Typedef

def table (typedefs : List Typedef) : TypeTable := typedefs.map fun t => (t.id, t.type)

def layout? (t : Typedef) : Option Layout :=
  if t.type.kind.isInterface then none else some ⟨t.type, t.fields⟩

def definitions (typedefs : List Typedef) : Definitions :=
  ⟨table typedefs, typedefs.filterMap layout?⟩

theorem layout?_eq_some_iff {t : Typedef} {layout : Layout} :
    t.layout? = some layout ↔ t.type.kind.isInterface = false ∧ layout = ⟨t.type, t.fields⟩ := by
  unfold layout?
  split
  next isInterface => simp [isInterface]
  next concrete => simp [concrete, eq_comm]

/-- The layouts are those of the definitions of types that values can be of. -/
theorem exists_of_mem_layouts {typedefs : List Typedef} {layout : Layout}
    (member : layout ∈ (definitions typedefs).layouts) :
    ∃ t ∈ typedefs, t.type.kind.isInterface = false ∧ layout = ⟨t.type, t.fields⟩ := by
  obtain ⟨t, member, laid⟩ := List.mem_filterMap.1 member
  exact ⟨t, member, layout?_eq_some_iff.1 laid⟩

theorem exists_of_lookup {typedefs : List Typedef} {id : List UInt8} {type : NominalType}
    (found : (table typedefs).lookup id = some type) :
    ∃ t ∈ typedefs, t.id = id ∧ t.type = type := by
  obtain ⟨front, behind, parted, -⟩ := List.lookup_eq_some_iff.1 found
  have listed : (id, type) ∈ table typedefs := by
    rw [parted]
    simp
  obtain ⟨t, member, same⟩ := List.mem_map.1 listed
  cases same
  exact ⟨t, member, rfl, rfl⟩

end Typedef

def definedTag : DeclarationKind → Nat
  | .struct => 160
  | .resource => 161
  | .event => 162
  | .contract => 163
  | .enum => 164
  | .attachment => 165
  | .structInterface => 176
  | .resourceInterface => 177
  | .contractInterface => 178

theorem definedKind?_eq_some_iff {number : Nat} {kind : DeclarationKind} :
    definedKind? number = some kind ↔ number = definedTag kind := by
  constructor
  · intro defined
    unfold definedKind? at defined
    split at defined <;> cases defined <;> rfl
  · rintro rfl
    cases kind <;> rfl

inductive FieldItem (table : TypeTable) : String × StaticType → Item → Prop
  | field (name : String) {type : StaticType} {item : Item} (typed : InlineItem table type item) :
      FieldItem table (name, type) (.array [.text name, item])

/-- The item of a definition. That of an attachment may name the type it attaches to. -/
inductive TypedefItem (table : TypeTable) : Typedef → Item → Prop
  | interface {kind : DeclarationKind} (isInterface : kind.isInterface = true) (id : List UInt8)
      (name : String) :
      TypedefItem table ⟨id, ⟨kind, name⟩, []⟩
        (.tag (definedTag kind) (.array [.bytes id, .text name]))
  | composite {kind : DeclarationKind} (concrete : kind.isInterface = false) (id : List UInt8)
      (name : String) {fields : List (String × StaticType)} {items : List Item}
      (laid : List.Forall₂ (FieldItem table) fields items) :
      TypedefItem table ⟨id, ⟨kind, name⟩, fields⟩
        (.tag (definedTag kind) (.array [.bytes id, .text name, .array items]))
  | attachment (id : List UInt8) (name : String) {base : StaticType} {item : Item}
      (attached : InlineItem table base item) {fields : List (String × StaticType)}
      {items : List Item} (laid : List.Forall₂ (FieldItem table) fields items) :
      TypedefItem table ⟨id, ⟨.attachment, name⟩, fields⟩
        (.tag 165 (.array [.bytes id, .text name, item, .array items]))

/-- The item of all definitions of a message, each under an identifier of its own. -/
inductive TypedefsItem (typedefs : List Typedef) : Item → Prop
  | typedefs {items : List Item} (distinct : (typedefs.map (·.id)).Nodup)
      (defined : List.Forall₂ (TypedefItem (Typedef.table typedefs)) typedefs items) :
      TypedefsItem typedefs (.array items)

private theorem layoutField_eq_ok {table : TypeTable} {item : Item} {field : String × StaticType} :
    layoutField table item = .ok field ↔ FieldItem table field item := by
  constructor
  · intro accepted
    unfold layoutField at accepted
    split at accepted
    next =>
      simp only [bind_eq_ok, pure_eq_ok, text_eq_ok, inlineType_eq_ok] at accepted
      obtain ⟨name, rfl, type, typed, rfl⟩ := accepted
      exact .field name typed
    next => cases accepted
  · intro written
    cases written with
    | field name typed =>
      simp only [layoutField, bind_eq_ok, pure_eq_ok, text_eq_ok, inlineType_eq_ok]
      exact ⟨name, rfl, _, typed, rfl⟩

private theorem layoutFields_eq_ok {table : TypeTable} {items : List Item}
    {fields : List (String × StaticType)} :
    items.mapM (layoutField table) = .ok fields ↔
      List.Forall₂ (FieldItem table) fields items := by
  simp only [mapM_eq_ok, layoutField_eq_ok]
  exact ⟨List.Forall₂.flip, List.Forall₂.flip⟩

private theorem declaration_eq_ok {item : Item} {d : Declaration} :
    declaration item = .ok d ↔
      item = .tag (definedTag d.type.kind)
        (.array (.bytes d.id :: .text d.type.id :: d.body)) := by
  constructor
  · intro accepted
    unfold declaration at accepted
    split at accepted
    next number content =>
      split at accepted
      next kind defined =>
        obtain rfl := definedKind?_eq_some_iff.1 defined
        split at accepted
        next =>
          simp only [bind_eq_ok, pure_eq_ok, bytes_eq_ok, text_eq_ok] at accepted
          obtain ⟨id, rfl, name, rfl, rfl⟩ := accepted
          rfl
        next => exact absurd accepted throw_ne_ok
        next => exact absurd accepted throw_ne_ok
      next => exact absurd accepted throw_ne_ok
    next => cases accepted
  · rintro rfl
    simp only [declaration, definedKind?_eq_some_iff.2 rfl, bind_eq_ok, pure_eq_ok, bytes_eq_ok,
      text_eq_ok]
    exact ⟨d.id, rfl, d.type.id, rfl, rfl⟩

private theorem nodup_concat {taken : List Declaration} {next : Declaration} :
    ((taken ++ [next]).map (·.id)).Nodup ↔
      (taken.map (·.id)).Nodup ∧ ¬ taken.any (·.id = next.id) := by
  simp [List.nodup_append]

private theorem declarations_eq_ok {taken all : List Declaration} {items : List Item}
    (distinct : (taken.map (·.id)).Nodup) :
    declarations taken items = .ok all ↔
      ∃ new, List.Forall₂ (fun item d => declaration item = .ok d) items new ∧
        all = taken ++ new ∧ (all.map (·.id)).Nodup := by
  induction items generalizing taken with
  | nil =>
    simp only [declarations, Except.ok.injEq, List.forall₂_nil_left_iff, exists_eq_left,
      List.append_nil]
    exact ⟨fun same => ⟨same.symm, same ▸ distinct⟩, fun same => same.1.symm⟩
  | cons item items ih =>
    simp only [declarations, bind_eq_ok, List.forall₂_cons_left_iff]
    constructor
    · rintro ⟨next, head, accepted⟩
      split at accepted
      next => cases accepted
      next fresh =>
        obtain ⟨new, tail, rfl, nodup⟩ := (ih (nodup_concat.2 ⟨distinct, fresh⟩)).1 accepted
        exact ⟨next :: new, ⟨next, new, head, tail, rfl⟩, by simp, nodup⟩
    · rintro ⟨_, ⟨next, new, head, tail, rfl⟩, rfl, nodup⟩
      have start : ((taken ++ [next]).map (·.id)).Nodup := by
        refine nodup.sublist (List.Sublist.map _ ?_)
        simp
      refine ⟨next, head, ?_⟩
      simp only [if_neg (nodup_concat.1 start).2]
      exact (ih start).2 ⟨new, tail, by simp, nodup⟩

private theorem layout?_eq_ok {table : TypeTable} {d : Declaration} {layout : Option Layout} :
    layout? table d = .ok layout ↔
      (d.type.kind.isInterface = true ∧ d.body = [] ∧ layout = none) ∨
      ∃ items fields, List.Forall₂ (FieldItem table) fields items ∧
        layout = some ⟨d.type, fields⟩ ∧
        (d.type.kind.isInterface = false ∧ d.body = [.array items] ∨
          d.type.kind = .attachment ∧
            ∃ base item, InlineItem table base item ∧ d.body = [item, .array items]) := by
  constructor
  · intro laid
    unfold layout? at laid
    dsimp only at laid
    -- An attachment with two items comes first. With one, it is laid out as any composite.
    split at laid
    next item list isAttachment body =>
      simp only [bind_eq_ok, pure_eq_ok, inlineType_eq_ok, array_eq_ok, layoutFields_eq_ok] at laid
      obtain ⟨base, attached, items, rfl, fields, laid, rfl⟩ := laid
      exact .inr ⟨items, fields, laid, rfl, .inr ⟨isAttachment, base, item, attached, body⟩⟩
    next body =>
      split at laid
      next isInterface =>
        cases laid
        exact .inl ⟨isInterface, body, rfl⟩
      next => exact absurd laid throw_ne_ok
    next list body =>
      split at laid
      next => exact absurd laid throw_ne_ok
      next concrete =>
        simp only [bind_eq_ok, pure_eq_ok, array_eq_ok, layoutFields_eq_ok] at laid
        obtain ⟨items, rfl, fields, laid, rfl⟩ := laid
        exact .inr ⟨items, fields, laid, rfl, .inl ⟨by simpa using concrete, body⟩⟩
    next => exact absurd laid throw_ne_ok
  · unfold layout?
    rintro (⟨isInterface, body, rfl⟩ | ⟨items, fields, laid, rfl, ⟨concrete, body⟩ |
      ⟨isAttachment, base, item, attached, body⟩⟩)
    · simp [body, isInterface]
      rfl
    · simp only [body, concrete, Bool.false_eq_true, if_false, bind_eq_ok, pure_eq_ok, array_eq_ok,
        layoutFields_eq_ok]
      exact ⟨items, rfl, fields, laid, rfl⟩
    · simp only [body, isAttachment, bind_eq_ok, pure_eq_ok, array_eq_ok, inlineType_eq_ok,
        layoutFields_eq_ok]
      exact ⟨base, attached, items, rfl, fields, laid, rfl⟩

/-- What a declaration comes to once its layout has been read. -/
def Declaration.typedef (d : Declaration) (layout : Option Layout) : Typedef :=
  ⟨d.id, d.type, layout.elim [] Layout.fields⟩

private theorem layout?_typedef {table : TypeTable} {d : Declaration} {layout : Option Layout}
    (laid : layout? table d = .ok layout) : (d.typedef layout).layout? = layout := by
  rcases layout?_eq_ok.1 laid with
    ⟨isInterface, -, rfl⟩ | ⟨items, fields, -, rfl, ⟨concrete, -⟩ | ⟨isAttachment, -⟩⟩
  · simp [Declaration.typedef, Typedef.layout?, isInterface]
  · simp [Declaration.typedef, Typedef.layout?, concrete]
  · simp [Declaration.typedef, Typedef.layout?, isAttachment, DeclarationKind.isInterface]

theorem typedefItem_iff {table : TypeTable} {t : Typedef} {item : Item} :
    TypedefItem table t item ↔
      ∃ d layout, declaration item = .ok d ∧ layout? table d = .ok layout ∧
        t = d.typedef layout := by
  constructor
  · intro written
    cases written with
    | @interface kind isInterface id name =>
      exact ⟨⟨id, ⟨kind, name⟩, []⟩, none, declaration_eq_ok.2 rfl,
        layout?_eq_ok.2 (.inl ⟨isInterface, rfl, rfl⟩), rfl⟩
    | @composite kind concrete id name fields items laid =>
      exact ⟨⟨id, ⟨kind, name⟩, [.array items]⟩, _, declaration_eq_ok.2 rfl,
        layout?_eq_ok.2 (.inr ⟨items, fields, laid, rfl, .inl ⟨concrete, rfl⟩⟩), rfl⟩
    | @attachment id name base item attached fields items laid =>
      exact ⟨⟨id, ⟨.attachment, name⟩, [item, .array items]⟩, _, declaration_eq_ok.2 rfl,
        layout?_eq_ok.2 (.inr ⟨items, fields, laid, rfl, .inr ⟨rfl, base, item, attached, rfl⟩⟩),
        rfl⟩
  · rintro ⟨⟨id, ⟨kind, name⟩, body⟩, layout, declared, read, rfl⟩
    obtain rfl := declaration_eq_ok.1 declared
    rcases layout?_eq_ok.1 read with
      ⟨isInterface, rfl, rfl⟩ | ⟨items, fields, laid, rfl, ⟨concrete, rfl⟩ |
        ⟨rfl, base, item, attached, rfl⟩⟩
    · exact .interface isInterface id name
    · exact .composite concrete id name laid
    · exact .attachment id name attached laid

private theorem typedefItems_iff {table : TypeTable} {typedefs : List Typedef}
    {items : List Item} :
    List.Forall₂ (TypedefItem table) typedefs items ↔
      ∃ declarations layouts,
        List.Forall₂ (fun item d => declaration item = .ok d) items declarations ∧
        List.Forall₂ (fun d layout => layout? table d = .ok layout) declarations layouts ∧
        typedefs = List.zipWith Declaration.typedef declarations layouts := by
  induction items generalizing typedefs with
  | nil => simp
  | cons item items ih =>
    constructor
    · intro written
      obtain ⟨t, rest, head, tail, rfl⟩ := List.forall₂_cons_right_iff.1 written
      obtain ⟨d, layout, declared, laid, rfl⟩ := typedefItem_iff.1 head
      obtain ⟨ds, layouts, declareds, laids, rfl⟩ := ih.1 tail
      exact ⟨d :: ds, layout :: layouts, .cons declared declareds, .cons laid laids, rfl⟩
    · rintro ⟨_, _, declareds, laids, rfl⟩
      obtain ⟨d, ds, declared, declared', rfl⟩ := List.forall₂_cons_left_iff.1 declareds
      obtain ⟨layout, layouts, laid, laid', rfl⟩ := List.forall₂_cons_left_iff.1 laids
      exact .cons (typedefItem_iff.2 ⟨d, layout, declared, laid, rfl⟩)
        (ih.2 ⟨ds, layouts, declared', laid', rfl⟩)

private theorem zipWith_typedef {table : TypeTable} {declarations : List Declaration}
    {layouts : List (Option Layout)}
    (laid : List.Forall₂ (fun d layout => layout? table d = .ok layout) declarations layouts) :
    Typedef.definitions (List.zipWith Declaration.typedef declarations layouts) =
        ⟨tableOf declarations, layouts.filterMap id⟩ ∧
      (List.zipWith Declaration.typedef declarations layouts).map (·.id) =
        declarations.map (·.id) := by
  induction laid with
  | nil => exact ⟨rfl, rfl⟩
  | @cons d layout ds layouts laid tail ih =>
    obtain ⟨same, ids⟩ := ih
    simp only [Typedef.definitions, Definitions.mk.injEq] at same
    refine ⟨?_, congrArg (d.id :: ·) ids⟩
    simp only [Typedef.definitions, Definitions.mk.injEq, List.zipWith_cons_cons,
      List.filterMap_cons, layout?_typedef laid, same.2]
    exact ⟨congrArg ((d.id, d.type) :: ·) same.1, rfl⟩

/-- Definitions are read from the items that are written for them. -/
theorem Definitions.read_eq_ok {item : Item} {definitions : Definitions} :
    Definitions.read item = .ok definitions ↔
      ∃ typedefs, TypedefsItem typedefs item ∧ definitions = Typedef.definitions typedefs := by
  have none : (([] : List Declaration).map (·.id)).Nodup := List.nodup_nil
  simp only [Definitions.read, bind_eq_ok, pure_eq_ok, array_eq_ok, declarations_eq_ok none,
    List.nil_append, mapM_eq_ok]
  constructor
  · rintro ⟨items, rfl, ds, ⟨_, declared, rfl, distinct⟩, layouts, laid, rfl⟩
    obtain ⟨same, ids⟩ := zipWith_typedef laid
    refine ⟨_, ?_, same.symm⟩
    -- Fields were read by what was declared, which is the table of the definitions in the end.
    have table : Typedef.table _ = tableOf ds := congrArg Definitions.table same
    exact .typedefs (ids ▸ distinct) (table ▸ typedefItems_iff.2 ⟨ds, layouts, declared, laid, rfl⟩)
  · rintro ⟨typedefs, ⟨distinct, defined⟩, rfl⟩
    obtain ⟨ds, layouts, declared, laid, rfl⟩ := typedefItems_iff.1 defined
    obtain ⟨same, ids⟩ := zipWith_typedef laid
    have table : Typedef.table _ = tableOf ds := congrArg Definitions.table same
    exact ⟨_, rfl, ds, ⟨ds, declared, rfl, ids ▸ distinct⟩, layouts, table ▸ laid, same.symm⟩

end CadenceWire.Ccf
