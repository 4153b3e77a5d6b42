import CadenceWire.Proofs.Ccf.Inhabits

/-!
References to defined types. A type is referred to by the identifier that the message gives it, but
its layout is looked up by name, so the two meet only where no later definition takes the name.
-/
namespace CadenceWire.Ccf

open Cbor (Item)

variable {front behind : List Typedef} {t : Typedef}

theorem Typedef.lookup_table (distinct : ((front ++ t :: behind).map (·.id)).Nodup) :
    (table (front ++ t :: behind)).lookup t.id = some t.type := by
  induction front with
  | nil => simp [table]
  | cons first front ih =>
    rw [List.cons_append, List.map_cons] at distinct
    obtain ⟨fresh, distinct⟩ := List.nodup_cons.1 distinct
    have different : (t.id == first.id) = false := by
      apply beq_false_of_ne
      intro same
      apply fresh
      rw [← same]
      simp
    have tail := ih distinct
    simp only [table, List.cons_append, List.map_cons] at tail ⊢
    rw [List.lookup_cons, different]
    exact tail

/-- Something other than an interface is defined under the name of the typedef. -/
def Typedef.Takes (t : Typedef) (later : Typedef) : Prop :=
  later.type.kind.isInterface = false ∧ later.type.id = t.type.id

/-- Where a name is defined again, it is in the end as what it was. -/
def Typedef.Kept (t : Typedef) (behind : List Typedef) : Prop :=
  ∀ middle later rest, behind = middle ++ later :: rest → t.Takes later →
    (∀ other ∈ rest, ¬ t.Takes other) →
      later.type.kind = t.type.kind ∧ later.fields = t.fields

/-- What is laid out behind the last typedef to take a name does not have it. -/
theorem Typedef.laysOut_of_last {later : Typedef} {middle rest : List Typedef}
    (concrete : later.type.kind.isInterface = false)
    (last : ∀ other ∈ rest, ¬ later.Takes other) :
    (definitions (middle ++ later :: rest)).LaysOut later.type.id
      ⟨later.type, later.fields⟩ := by
  have own : later.layout? = some ⟨later.type, later.fields⟩ :=
    layout?_eq_some_iff.2 ⟨concrete, rfl⟩
  refine ⟨middle.filterMap layout?, rest.filterMap layout?,
    by simp [definitions, List.filterMap_append, own], rfl, fun layout member named => ?_⟩
  obtain ⟨other, listed, laid⟩ := List.mem_filterMap.1 member
  obtain ⟨concrete', rfl⟩ := layout?_eq_some_iff.1 laid
  exact last other listed ⟨concrete', named⟩

theorem Typedef.exists_last (t : Typedef) (behind : List Typedef) :
    (∀ other ∈ behind, ¬ t.Takes other) ∨
      ∃ middle later rest, behind = middle ++ later :: rest ∧ t.Takes later ∧
        ∀ other ∈ rest, ¬ t.Takes other := by
  induction behind with
  | nil => exact .inl (by simp)
  | cons first behind ih =>
    rcases ih with none | ⟨middle, later, rest, rfl, takes, last⟩
    · by_cases takes : t.Takes first
      · exact .inr ⟨[], first, behind, rfl, takes, none⟩
      · exact .inl (List.forall_mem_cons.2 ⟨takes, none⟩)
    · exact .inr ⟨first :: middle, later, rest, rfl, takes, last⟩

theorem Typedef.laysOut_definitions (concrete : t.type.kind.isInterface = false)
    (kept : t.Kept behind) :
    (definitions (front ++ t :: behind)).LaysOut t.type.id ⟨t.type, t.fields⟩ := by
  rcases t.exists_last behind with last | ⟨middle, later, rest, rfl, takes, last⟩
  · exact laysOut_of_last concrete last
  · obtain ⟨kind, fields⟩ := kept middle later rest rfl takes last
    have type : later.type = t.type := calc
      later.type = ⟨later.type.kind, later.type.id⟩ := rfl
      _ = ⟨t.type.kind, t.type.id⟩ := by rw [kind, takes.2]
    have others : ∀ other ∈ rest, ¬ later.Takes other := by
      unfold Takes
      rw [type]
      exact last
    have laid := @laysOut_of_last later (front ++ t :: middle) rest takes.1 others
    rw [type, fields, List.append_assoc] at laid
    exact laid

theorem Definitions.LaysOut.composite {definitions : Definitions} {declared : NominalType}
    {layout : Layout} (laid : definitions.LaysOut declared.id layout)
    (concrete : declared.kind.isInterface = false) {item : Item} {before after : Bound}
    {v : Value} (read : Yields (value definitions (.nominal declared) item) before v after) :
    ∃ parts, v = .composite layout.type parts ∧ layout.Names parts := by
  cases value_yields.1 read with
  | embedded opens => cases opens <;> cases concrete
  | composite _ laid' inner =>
    obtain rfl := laid.unique laid'
    exact ⟨_, rfl, inner.names⟩

/-- The item of a definition says what is defined. -/
theorem TypedefItem.leftUnique (table : TypeTable) : Relator.LeftUnique (TypedefItem table) := by
  intro t other item written written'
  obtain ⟨d, layout, declared, laid, rfl⟩ := typedefItem_iff.1 written
  obtain ⟨d', layout', declared', laid', rfl⟩ := typedefItem_iff.1 written'
  obtain rfl := Except.ok.inj (declared.symm.trans declared')
  obtain rfl := Except.ok.inj (laid.symm.trans laid')
  rfl

/-- A reference selects its own definition, so long as the last one to take its name does not take
it for something else. What is read for it has the kind, the name and the fields that the definition
lists. -/
theorem value_typeReference {items : List Item} {definitions : Definitions}
    (read : Definitions.read (.array items) = .ok definitions) :
    (∃ typedefs, List.Forall₂ (TypedefItem definitions.table) typedefs items) ∧
    ∀ front t behind, List.Forall₂ (TypedefItem definitions.table) (front ++ t :: behind) items →
      t.type.kind.isInterface = false → t.Kept behind →
        inlineType definitions.table (.tag 136 (.bytes t.id)) = .ok (.nominal t.type) ∧
        ∀ item before v after, Yields (value definitions (.nominal t.type) item) before v after →
          ∃ parts, v = .composite t.type parts ∧
            parts.map Prod.fst = t.fields.map fun field => ⟨field.1, some field.2⟩ := by
  obtain ⟨typedefs, written, rfl⟩ := Definitions.read_eq_ok.1 read
  cases written with
  | typedefs distinct defined =>
    refine ⟨⟨typedefs, defined⟩, ?_⟩
    intro front t behind listed concrete kept
    obtain rfl := List.left_unique_forall₂' (TypedefItem.leftUnique _) defined listed
    refine ⟨inlineType_eq_ok.2 (.known (Typedef.lookup_table distinct)), ?_⟩
    intro item before v after found
    exact (Typedef.laysOut_definitions concrete kept).composite concrete found

/-- A structure in front of an interface of the same name. -/
theorem value_typeReference_struct :
    inlineType [([0], ⟨.struct, "S.A"⟩), ([1], ⟨.structInterface, "S.A"⟩)] (.tag 136 (.bytes [0])) =
        .ok (.nominal ⟨.struct, "S.A"⟩) ∧
      ∃ parts, Value.composite ⟨.struct, "S.A"⟩ [(⟨"a", some (.simple .bool)⟩, .bool true)] =
          .composite ⟨.struct, "S.A"⟩ parts ∧
        parts.map Prod.fst = [⟨"a", some (.simple .bool)⟩] := by
  have read : Definitions.read (.array
      [.tag 160 (.array [.bytes [0], .text "S.A",
        .array [.array [.text "a", .tag 137 (.integer 0)]]]),
      .tag 176 (.array [.bytes [1], .text "S.A"])]) = .ok _ := rfl
  have typed : InlineItem [([0], ⟨.struct, "S.A"⟩), ([1], ⟨.structInterface, "S.A"⟩)]
      (.simple .bool) (.tag 137 (.integer 0)) := .simple .bool
  have kept : Typedef.Kept ⟨[0], ⟨.struct, "S.A"⟩, [("a", .simple .bool)]⟩
      [⟨[1], ⟨.structInterface, "S.A"⟩, []⟩] := by
    intro middle later rest parted takes
    have member : later ∈ [(⟨[1], ⟨.structInterface, "S.A"⟩, []⟩ : Typedef)] := by
      rw [parted]
      simp
    obtain rfl := List.mem_singleton.1 member
    cases takes.1
  have selects := (value_typeReference read).2 [] ⟨[0], ⟨.struct, "S.A"⟩, [("a", .simple .bool)]⟩
    [⟨[1], ⟨.structInterface, "S.A"⟩, []⟩]
    (.cons (.composite rfl [0] "S.A" (.cons (.field "a" typed) .nil))
      (.cons (.interface rfl [1] "S.A") .nil))
    rfl kept
  refine ⟨selects.1, ?_⟩
  exact selects.2 (.array [.bool true]) [] _ [] rfl

/-- A later definition takes the name, and values of the first are read by its fields. -/
theorem message_nameTaken :
    message (.tag 129 (.array [
        .array [
          .tag 160 (.array [.bytes [0], .text "S.A",
            .array [.array [.text "a", .tag 137 (.integer 0)]]]),
          .tag 161 (.array [.bytes [1], .text "S.A",
            .array [.array [.text "b", .tag 137 (.integer 0)]]])],
        .array [.tag 136 (.bytes [0]), .array [.bool true]]])) =
      .ok (.composite ⟨.resource, "S.A"⟩ [(⟨"b", some (.simple .bool)⟩, .bool true)]) := by
  rfl

end CadenceWire.Ccf
