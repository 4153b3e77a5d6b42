import CadenceWire.Proofs.Ccf.TypedefItem
import CadenceWire.Proofs.Ccf.ValueItem

/-!
What it means for a value to be of a static type, and that every value read by a type is of it.
-/
namespace CadenceWire.Ccf

open Cbor (Item)

/-- A type that can stand in a message as an inline type, apart from the types within it. -/
def InlineForm (table : TypeTable) : StaticType → Prop
  | .nominal type => ∃ id, table.lookup id = some type
  | .function _ | .unstructured _ => False
  | _ => True

/-- A type over the definitions of a message: it is made of what inline types are made of, and its
declared types are among those defined. -/
abbrev IsInline (table : TypeTable) (type : StaticType) : Prop := type.Every (InlineForm table)

/-- The values that a simple type has a constructor for. Integers and fixed-point numbers carry the
range of their kind. All domains of paths share one constructor. -/
inductive SimpleInhabits : SimpleType → Value → Prop
  | void : SimpleInhabits .void .void
  | bool (b : Bool) : SimpleInhabits .bool (.bool b)
  | string (s : String) : SimpleInhabits .string (.string s)
  | character (s : String) : SimpleInhabits .character (.character s)
  | bytes (content : List UInt8) : SimpleInhabits .bytes (.bytes content)
  | address (owner : Address) : SimpleInhabits .address (.address owner)
  | integer (n : Integer) : SimpleInhabits (.integer n.kind) (.integer n)
  | fixedPoint (n : FixedPoint) : SimpleInhabits (.fixedPoint n.kind) (.fixedPoint n)
  | path (domain : PathDomain) (p : Path) : SimpleInhabits (.path domain) (.path p)
  | unknownType : SimpleInhabits .metaType (.type none)
  | type {known : StaticType} (structured : known.Structured) :
      SimpleInhabits .metaType (.type (some known))
  | function {signature : FunctionType} (structured : signature.Structured) :
      SimpleInhabits .function (.function signature)

/-- The fields are those of the layout, in its order, each under its declared type. -/
def Layout.Names (layout : Layout) (fields : List (Field × Value)) : Prop :=
  fields.map Prod.fst = layout.fields.map fun field => ⟨field.1, some field.2⟩

theorem Layout.Names.exists_type {layout : Layout} {fields : List (Field × Value)}
    (names : layout.Names fields) {field : Field × Value} (member : field ∈ fields) :
    ∃ declared ∈ layout.fields, field.1.type = some declared.2 := by
  have listed : field.1 ∈ fields.map Prod.fst := List.mem_map_of_mem member
  rw [names] at listed
  obtain ⟨declared, inside, same⟩ := List.mem_map.1 listed
  exact ⟨declared, inside, same ▸ rfl⟩

/-- The value is of the type, given what a message defines. A value of an open type is one of some
inline type. -/
inductive Inhabits (definitions : Definitions) : StaticType → Value → Prop
  | simple {type : SimpleType} {v : Value} (inhabits : SimpleInhabits type v) :
      Inhabits definitions (.simple type) v
  | nil (content : StaticType) : Inhabits definitions (.optional content) .nil
  | present {content : StaticType} {v : Value} (inhabits : Inhabits definitions content v) :
      Inhabits definitions (.optional content) (.present v)
  | variableArray {element : StaticType} {elements : List Value}
      (inhabit : ∀ v ∈ elements, Inhabits definitions element v) :
      Inhabits definitions (.variableArray element) (.array elements)
  | constantArray {size : UInt64} {element : StaticType} {elements : List Value}
      (length : elements.length = size.toNat)
      (inhabit : ∀ v ∈ elements, Inhabits definitions element v) :
      Inhabits definitions (.constantArray size element) (.array elements)
  | dictionary {key item : StaticType} {entries : List (Value × Value)}
      (keys : ∀ entry ∈ entries, Inhabits definitions key entry.1)
      (items : ∀ entry ∈ entries, Inhabits definitions item entry.2) :
      Inhabits definitions (.dictionary key item) (.dictionary entries)
  | reference {granted : Authorization} {referenced : StaticType} {v : Value}
      (inhabits : Inhabits definitions referenced v) :
      Inhabits definitions (.reference granted referenced) v
  | capability (id : UInt64) (holder : Address) :
      Inhabits definitions .capability (.capability ⟨id, holder, none, none⟩)
  | capabilityOf (borrowed : StaticType) (id : UInt64) (holder : Address) :
      Inhabits definitions (.capabilityOf borrowed) (.capability ⟨id, holder, some borrowed, none⟩)
  | range {element : StaticType} {start stop step : Value}
      (first : Inhabits definitions element start) (last : Inhabits definitions element stop)
      (difference : Inhabits definitions element step) :
      Inhabits definitions (.inclusiveRange element) (.range start stop step)
  | embedded {type own : StaticType} {v : Value} (opens : LeavesOpen type)
      (inline : IsInline definitions.table own) (inhabits : Inhabits definitions own v) :
      Inhabits definitions type v
  | composite {declared : NominalType} {layout : Layout} {fields : List (Field × Value)}
      (concrete : declared.kind.isInterface = false)
      (laid : definitions.LaysOut declared.id layout) (names : layout.Names fields)
      (inhabit : ∀ field ∈ fields, ∀ type, field.1.type = some type →
        Inhabits definitions type field.2) :
      Inhabits definitions (.nominal declared) (.composite layout.type fields)

section typing

variable {table : TypeTable} {definitions : Definitions}

mutual

theorem InlineItem.isInline {type : StaticType} {item : Item}
    (written : InlineItem table type item) : IsInline table type := by
  match written with
  | .known found => exact ⟨_, found⟩
  | .simple _ | .capability => trivial
  | .optional inner | .variableArray inner | .constantArray _ inner | .reference _ inner
  | .capabilityOf inner | .inclusiveRange inner => exact ⟨trivial, inner.isInline⟩
  | .dictionary keys values => exact ⟨trivial, keys.isInline, values.isInline⟩
  | .intersection inner | .baseless inner => exact ⟨trivial, inner.isInline⟩
  | .restricted outer inner => exact ⟨trivial, outer.isInline, inner.isInline⟩

theorem InlineItems.isInline {types : List StaticType} {items : List Item}
    (written : InlineItems table types items) :
    StaticType.EveryOf (InlineForm table) types := by
  match written with
  | .nil => trivial
  | .cons head tail => exact ⟨head.isInline, tail.isInline⟩

end

/-- Every type that a layout names is made of what the message defines. -/
def Definitions.Closed (definitions : Definitions) : Prop :=
  ∀ layout ∈ definitions.layouts, ∀ field ∈ layout.fields, IsInline definitions.table field.2

theorem FieldItem.isInline {field : String × StaticType} {item : Item}
    (written : FieldItem table field item) : IsInline table field.2 := by
  cases written with | field name typed => exact typed.isInline

theorem TypedefItem.isInline {t : Typedef} {item : Item} (written : TypedefItem table t item) :
    ∀ field ∈ t.fields, IsInline table field.2 := by
  intro field member
  cases written with
  | interface => cases member
  | composite _ _ _ laid | attachment _ _ _ laid =>
    obtain ⟨item, -, inner⟩ := exists_mem_of_forall₂ laid member
    exact inner.isInline

theorem Typedef.closed {typedefs : List Typedef}
    (inline : ∀ t ∈ typedefs, ∀ field ∈ t.fields, IsInline (Typedef.table typedefs) field.2) :
    (Typedef.definitions typedefs).Closed := by
  intro layout member
  obtain ⟨t, defined, -, rfl⟩ := Typedef.exists_of_mem_layouts member
  exact inline t defined

theorem TypedefsItem.closed {typedefs : List Typedef} {item : Item}
    (written : TypedefsItem typedefs item) : (Typedef.definitions typedefs).Closed := by
  obtain ⟨-, defined⟩ := written
  refine Typedef.closed fun t member => ?_
  obtain ⟨item, -, inner⟩ := exists_mem_of_forall₂ defined member
  exact inner.isInline

theorem Definitions.closed_of_read {item : Item}
    (defined : Definitions.read item = .ok definitions) : definitions.Closed := by
  obtain ⟨typedefs, written, rfl⟩ := Definitions.read_eq_ok.1 defined
  exact written.closed

theorem Definitions.closed_empty : Definitions.empty.Closed := by
  intro layout member
  cases member

theorem Definitions.Closed.of_laysOut (closed : definitions.Closed) {name : String}
    {layout : Layout} (laid : definitions.LaysOut name layout) :
    ∀ field ∈ layout.fields, IsInline definitions.table field.2 :=
  closed layout laid.mem

end typing

section soundness

variable {lossless : Bool} {definitions : Definitions}

theorem FunctionItem.structured {before after : Bound} {signature : FunctionType} {item : Item}
    (written : FunctionItem before signature item after) : signature.Structured := by
  cases written with
  | tagged inner | bare inner => exact inner.structured

theorem SimpleItem.inhabits {before after : Bound} {type : SimpleType} {v : Value} {item : Item}
    (written : SimpleItem before type v item after) : SimpleInhabits type v := by
  cases written with
  | type written => exact .type written.structured
  | function written => exact .function written.structured
  | _ => constructor

theorem PartItems.names {before after : Bound} {declared : List (String × StaticType)}
    {parts : List (Field × Value)} {items : List Item}
    (written : PartItems lossless definitions before declared parts items after) :
    parts.map Prod.fst = declared.map fun field => ⟨field.1, some field.2⟩ := by
  match written with
  | .nil => rfl
  | .cons _ _ tail => simp only [List.map_cons, tail.names]

/- Values of open types bring types of their own, and composites the types of their fields. Neither
is part of the type at hand, so the induction is on how the item is read. -/
mutual

theorem ValueItem.inhabits (closed : definitions.Closed) {before after : Bound}
    {type : StaticType} {v : Value} {item : Item}
    (written : ValueItem lossless definitions before type v item after)
    (inline : IsInline definitions.table type) : Inhabits definitions type v := by
  match written with
  | .simple written => exact .simple written.inhabits
  | .nil content => exact .nil content
  | .present _ inner => exact .present (inner.inhabits closed inline.2)
  | .reference _ inner => exact .reference (inner.inhabits closed inline.2)
  | .variableArray inner => exact .variableArray (inner.inhabit closed inline.2).2
  | .constantArray length inner =>
    obtain ⟨count, inhabit⟩ := inner.inhabit closed inline.2
    exact .constantArray (count.trans length) inhabit
  | .dictionary inner =>
    obtain ⟨keys, items⟩ := inner.inhabit closed inline.2.1 inline.2.2
    exact .dictionary keys items
  | .capability id holder => exact .capability id holder
  | .capabilityOf borrowed id holder => exact .capabilityOf borrowed id holder
  | .range first last difference =>
    exact .range (first.inhabits closed inline.2) (last.inhabits closed inline.2)
      (difference.inhabits closed inline.2)
  | .embedded opens typed inner =>
    exact .embedded opens typed.isInline (inner.inhabits closed typed.isInline)
  | .composite concrete laid inner =>
    exact .composite concrete laid inner.names (inner.inhabit closed (closed.of_laysOut laid))
  | .function _ _ => exact inline.1.elim

theorem ValueItems.inhabit (closed : definitions.Closed) {before after : Bound}
    {element : StaticType} {elements : List Value} {items : List Item}
    (written : ValueItems lossless definitions before element elements items after)
    (inline : IsInline definitions.table element) :
    elements.length = items.length ∧ ∀ v ∈ elements, Inhabits definitions element v := by
  match written with
  | .nil => exact ⟨rfl, by simp⟩
  | .cons head tail =>
    obtain ⟨count, inhabit⟩ := tail.inhabit closed inline
    exact ⟨congrArg (· + 1) count, List.forall_mem_cons.2 ⟨head.inhabits closed inline, inhabit⟩⟩

theorem EntryItems.inhabit (closed : definitions.Closed) {before after : Bound}
    {keyType itemType : StaticType} {pairs : List (Value × Value)} {items : List Item}
    (written : EntryItems lossless definitions before keyType itemType pairs items after)
    (inlineKey : IsInline definitions.table keyType)
    (inlineItem : IsInline definitions.table itemType) :
    (∀ entry ∈ pairs, Inhabits definitions keyType entry.1) ∧
      ∀ entry ∈ pairs, Inhabits definitions itemType entry.2 := by
  match written with
  | .nil => simp
  | .cons name head tail =>
    obtain ⟨keys, items⟩ := tail.inhabit closed inlineKey inlineItem
    exact ⟨List.forall_mem_cons.2 ⟨name.inhabits closed inlineKey, keys⟩,
      List.forall_mem_cons.2 ⟨head.inhabits closed inlineItem, items⟩⟩

theorem PartItems.inhabit (closed : definitions.Closed) {before after : Bound}
    {declared : List (String × StaticType)} {parts : List (Field × Value)} {items : List Item}
    (written : PartItems lossless definitions before declared parts items after)
    (inline : ∀ field ∈ declared, IsInline definitions.table field.2) :
    ∀ part ∈ parts, ∀ type, part.1.type = some type → Inhabits definitions type part.2 := by
  match written with
  | .nil => simp
  | .cons name head tail =>
    obtain ⟨first, rest⟩ := List.forall_mem_cons.1 inline
    refine List.forall_mem_cons.2 ⟨?_, tail.inhabit closed rest⟩
    rintro type same
    cases same
    exact head.inhabits closed first

end

/-- Reading is type sound. What is read by a type of a message is a value of that type, whichever
types have been written out in the message before. -/
theorem value_inhabits {typedefs typeItem item : Item} {definitions : Definitions}
    (defined : Definitions.read typedefs = .ok definitions) {type : StaticType}
    (typed : inlineType definitions.table typeItem = .ok type) {before after : Bound} {v : Value}
    (read : Yields (value definitions type item) before v after) : Inhabits definitions type v :=
  (value_yields.1 read).inhabits (Definitions.closed_of_read defined)
    (inlineType_eq_ok.1 typed).isInline

/-- A list of two nodes, whose type is a field of itself. -/
theorem value_inhabits_node :
    let node : NominalType := ⟨.struct, "A.0000000000000001.List.Node"⟩
    let next : Field := ⟨"next", some (.optional (.nominal node))⟩
    Inhabits ⟨[([1], node)], [⟨node, [("next", .optional (.nominal node))]⟩]⟩ (.nominal node)
      (.composite node [(next, .present (.composite node [(next, .nil)]))]) :=
  value_inhabits
    (show Definitions.read (.array [.tag 160 (.array [.bytes [1],
      .text "A.0000000000000001.List.Node",
      .array [.array [.text "next", .tag 138 (.tag 136 (.bytes [1]))]]])]) = .ok _ from rfl)
    (show inlineType _ (.tag 136 (.bytes [1])) = .ok _ from rfl)
    (show Yields (value _ _ (.array [.array [.null]])) [] _ [] from rfl)

/-- The domain of a path is that of the item, which need not be that of the type. -/
theorem public_of_storagePath :
    Definitions.read (.array []) = .ok .empty ∧
      inlineType Definitions.empty.table (.tag 137 (.integer 26)) =
        .ok (.simple (.path .storageDomain)) ∧
      Yields (value .empty (.simple (.path .storageDomain)) (.array [.integer 3, .text "x"])) []
        (.path ⟨.publicDomain, "x"⟩) [] ∧
      PathDomain.publicDomain ≠ .storageDomain :=
  ⟨rfl, rfl, rfl, by decide⟩

end soundness

end CadenceWire.Ccf
