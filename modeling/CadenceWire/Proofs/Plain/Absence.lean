import CadenceWire.Proofs.Plain.Keys

/-!
Where absent values stand. Maps leave them out, lists keep them in their places, and nothing else
has room for one.
-/
namespace CadenceWire

namespace Plain

/-- The plain values that one is directly made of. -/
def parts : Plain → List Plain
  | list items => items
  | map entries => entries.map Prod.snd
  | _ => []

/-- One plain value stands within another, at any depth. -/
inductive Contains : Plain → Plain → Prop
  | refl (p : Plain) : Contains p p
  | part {whole part target : Plain} (member : part ∈ whole.parts) (inner : Contains part target) :
      Contains whole target

/-- Nothing in the plain value is made of an absent one, lists apart. -/
def Gapless (p : Plain) : Prop :=
  ∀ whole, p.Contains whole → .absent ∈ whole.parts → ∃ items, whole = .list items

/-- Each list in the plain value is what an array within reach of one of the sources becomes,
element by element. -/
def ListsFrom (p : Plain) (sources : List Value) : Prop :=
  ∀ items, p.Contains (.list items) → ∃ source ∈ sources, ∃ elements,
    source.Reaches (.array elements) ∧
      List.Forall₂ (fun element item => element.toPlain = .ok item) elements items

end Plain

namespace Value

variable {v : Value} {p : Plain}

theorem Reaches.trans {u w : Value} (outer : u.Reaches v) (inner : v.Reaches w) : u.Reaches w := by
  induction outer with
  | refl => exact inner
  | present _ ih => exact .present (ih inner)
  | element member _ ih => exact .element member (ih inner)
  | key member _ ih => exact .key member (ih inner)
  | item member _ ih => exact .item member (ih inner)
  | field kind member _ ih => exact .field kind member (ih inner)

/-- What a plain value is made of, seen from the value it was made from. -/
inductive Makes (v : Value) : Plain → Prop
  | single {p : Plain} (single : p.parts = []) (noList : ∀ items, p ≠ .list items) : Makes v p
  | list {elements : List Value} {items : List Plain} (reached : v.Reaches (array elements))
      (each : List.Forall₂ (fun element item => element.plain = .ok item) elements items) :
      Makes v (.list items)
  | map {entries : List (String × Plain)}
      (each : ∀ entry ∈ entries, entry.2 ≠ .absent ∧ ∃ w, v.Reaches w ∧ w.plain = .ok entry.2) :
      Makes v (.map entries)

/-- Both kinds of maps are made of what their rows list and keep. -/
theorem makes_rows {α : Type} {R : α → String × Plain → Prop} {items : List α}
    {pairs : List (String × Plain)} (rows : List.Forall₂ R items pairs)
    (made : ∀ item ∈ items, ∀ pair, R item pair → ∃ w, v.Reaches w ∧ w.plain = .ok pair.2) :
    v.Makes (.map (TextMap.ofList (Plain.kept pairs))) := by
  refine .map fun pair member => ?_
  obtain ⟨listed, there⟩ := Plain.mem_kept.1 (TextMap.mem_of_mem_ofList member)
  obtain ⟨item, inside, row⟩ := exists_mem_of_forall₂ rows.flip listed
  exact ⟨there, made item inside pair row⟩

private theorem makes_of_plain (converted : v.plain = .ok p) : v.Makes p := by
  induction v using parts_induction with | whole v ih =>
  cases v with
  | present content =>
    rw [plain] at converted
    cases ih content (List.mem_singleton.2 rfl) converted with
    | single single noList => exact .single single noList
    | list reached each => exact .list (.present reached) each
    | map each =>
      refine .map fun entry member => ?_
      obtain ⟨there, w, reached, made⟩ := each entry member
      exact ⟨there, w, .present reached, made⟩
  | array elements =>
    obtain ⟨items, each, rfl⟩ := plain_array_eq_ok.1 converted
    exact .list (.refl _) each
  | dictionary entries =>
    obtain ⟨pairs, rows, -, rfl⟩ := plain_dictionary_eq_ok.1 converted
    exact makes_rows rows fun entry inside _ row => ⟨entry.2, .item inside (.refl _), row.2.2⟩
  | composite declared fields =>
    by_cases kind : declared.kind = .struct ∨ declared.kind = .resource
    · obtain ⟨pairs, rows, rfl⟩ := (plain_record_eq_ok kind).1 converted
      exact makes_rows rows fun field inside _ row => ⟨field.2, .field kind inside (.refl _), row.2⟩
    · obtain rfl := Except.ok.inj ((plain_worded kind).symm.trans converted)
      exact .single rfl (by simp)
  | type known =>
    cases known <;>
      · obtain rfl := Except.ok.inj converted
        exact .single rfl (by simp)
  | _ =>
    obtain rfl := Except.ok.inj converted
    exact .single rfl (by simp)

/-- Whatever stands in a plain value is what some value within reach becomes. -/
theorem exists_reached {q : Plain} (converted : v.plain = .ok p) (contains : p.Contains q) :
    ∃ w, v.Reaches w ∧ w.plain = .ok q := by
  induction contains generalizing v with
  | refl => exact ⟨v, .refl v, converted⟩
  | @part whole part target member _ ih =>
    have reached : ∃ u, v.Reaches u ∧ u.plain = .ok part := by
      cases makes_of_plain converted with
      | single single => simp [single] at member
      | list reached each =>
        obtain ⟨element, inside, made⟩ := exists_mem_of_forall₂ each.flip member
        exact ⟨element, reached.trans (.element inside (.refl _)), made⟩
      | map each =>
        obtain ⟨entry, inside, rfl⟩ := List.mem_map.1 member
        exact (each entry inside).2
    obtain ⟨u, outer, made⟩ := reached
    obtain ⟨w, inner, converted⟩ := ih made
    exact ⟨w, outer.trans inner, converted⟩

private theorem gapless_of_plain (converted : v.plain = .ok p) : p.Gapless := by
  intro whole contains absent
  obtain ⟨w, -, made⟩ := exists_reached converted contains
  cases makes_of_plain made with
  | single single => simp [single] at absent
  | list => exact ⟨_, rfl⟩
  | map each =>
    obtain ⟨entry, inside, missing⟩ := List.mem_map.1 absent
    exact absurd missing (each entry inside).1

private theorem exists_array_of_contains {items : List Plain} (converted : v.plain = .ok p)
    (contains : p.Contains (.list items)) :
    ∃ elements, v.Reaches (array elements) ∧
      List.Forall₂ (fun element item => element.toPlain = .ok item) elements items := by
  obtain ⟨w, outer, made⟩ := exists_reached converted contains
  cases makes_of_plain made with
  | single _ noList => exact absurd rfl (noList items)
  | list inner each =>
    exact ⟨_, outer.trans inner, each.imp fun _ _ made => mapError_eq_ok.2 made⟩

/-- The fields of a composite become what they would in a struct. -/
theorem record_of_eventFields {map : List (String × Plain)} (read : v.eventFields = .ok map) :
    ∃ declared fields, v = composite declared fields ∧
      (composite ⟨.struct, declared.id⟩ fields).plain = .ok (.map map) := by
  cases v with
  | composite declared fields =>
    obtain ⟨pairs, made, rfl⟩ := map_eq_ok.1 (mapError_eq_ok.1 read)
    refine ⟨declared, fields, rfl, ?_⟩
    rw [plain_record (.inl rfl)]
    exact map_eq_ok.2 ⟨pairs, made, rfl⟩
  | _ => cases read

private theorem plain_eq_absent : v.plain = .ok .absent ↔ ∃ layers, v = present^[layers] nil := by
  constructor
  · intro converted
    induction v using parts_induction with | whole v ih =>
    cases v with
    | nil => exact ⟨0, rfl⟩
    | present content =>
      rw [plain] at converted
      obtain ⟨layers, rfl⟩ := ih content (List.mem_singleton.2 rfl) converted
      exact ⟨layers + 1, (Function.iterate_succ_apply' _ _ _).symm⟩
    | array elements =>
      obtain ⟨items, -, same⟩ := plain_array_eq_ok.1 converted
      cases same
    | dictionary entries =>
      obtain ⟨pairs, -, -, same⟩ := plain_dictionary_eq_ok.1 converted
      cases same
    | composite declared fields =>
      by_cases kind : declared.kind = .struct ∨ declared.kind = .resource
      · obtain ⟨pairs, -, same⟩ := (plain_record_eq_ok kind).1 converted
        cases same
      · cases (plain_worded kind).symm.trans converted
    | type known => cases known <;> cases converted
    | _ => cases converted
  · rintro ⟨layers, rfl⟩
    induction layers with
    | zero => rfl
    | succ layers ih => rw [Function.iterate_succ_apply', plain, ih]

/-- What is absent stands in lists only, or is all there is, which is so if and only if the value is
a missing optional within any number of others. In lists it keeps its place: each list comes from an
array, and has for each element of it what that becomes, in the same order. -/
theorem absent_placed (v : Value) :
    (∀ p, v.toPlain = .ok p → p.Gapless ∧ p.ListsFrom [v]) ∧
    (∀ map, v.eventFields = .ok map →
      (Plain.map map).Gapless ∧ (Plain.map map).ListsFrom v.parts) ∧
    (v.toPlain = .ok .absent ↔ ∃ layers, v = present^[layers] nil) ∧
    ∀ elements p, v = array elements → v.toPlain = .ok p →
      ∃ items, p = .list items ∧
        List.Forall₂ (fun element item => element.toPlain = .ok item) elements items := by
  refine ⟨?whole, ?fields, mapError_eq_ok.trans plain_eq_absent, ?array⟩
  case whole =>
    intro p read
    have converted := mapError_eq_ok.1 read
    refine ⟨gapless_of_plain converted, fun items contains => ?_⟩
    obtain ⟨elements, reached, each⟩ := exists_array_of_contains converted contains
    exact ⟨v, List.mem_singleton.2 rfl, elements, reached, each⟩
  case fields =>
    intro map read
    obtain ⟨declared, fields, rfl, converted⟩ := record_of_eventFields read
    refine ⟨gapless_of_plain converted, fun items contains => ?_⟩
    obtain ⟨elements, reached, each⟩ := exists_array_of_contains converted contains
    cases reached with | @field _ _ field _ _ member inner =>
    exact ⟨field.2, List.mem_map_of_mem member, elements, inner, each⟩
  case array =>
    rintro elements p rfl read
    obtain ⟨items, each, rfl⟩ := plain_array_eq_ok.1 (mapError_eq_ok.1 read)
    exact ⟨items, rfl, each.imp fun _ _ made => mapError_eq_ok.2 made⟩

/-- A missing element keeps its place, a missing entry is left out. -/
theorem absent_placed_list :
    let v := dictionary [(string "a", array [nil, bool true]), (string "b", present nil)]
    ∃ p items, v.toPlain = .ok p ∧ p.Gapless ∧ p.Contains (.list items) ∧
      ∃ elements, v.Reaches (array elements) ∧ elements.length = items.length ∧
        items = [.absent, .bool true] := by
  intro v
  have converted : v.toPlain = .ok (.map [("a", .list [.absent, .bool true])]) := rfl
  obtain ⟨gapless, lists⟩ := (absent_placed v).1 _ converted
  have contains : (Plain.map [("a", .list [.absent, .bool true])]).Contains
      (.list [.absent, .bool true]) := .part List.mem_cons_self (.refl _)
  obtain ⟨source, same, elements, reached, each⟩ := lists _ contains
  obtain rfl := List.mem_singleton.1 same
  exact ⟨_, _, converted, gapless, contains, elements, reached, each.length_eq, rfl⟩

end Value

end CadenceWire
