import CadenceWire.Proofs.JsonCdc.WrittenTree
import CadenceWire.Proofs.Plain.Keys

/-!
The fields of composites by name. Looking a field up finds the first one of a name, whereas a map of
the fields keeps the last one that is there.
-/
namespace CadenceWire.Value

variable {declared : NominalType} {fields : List (Field × Value)} {map : List (String × Plain)}

/-- What becomes of the value, unless that is absent. -/
def there? (v : Value) : Option Plain := v.plain.toOption.filter fun p => !p.isAbsent

private theorem there?_of_plain {v : Value} {p : Plain} (converted : v.plain = .ok p) :
    v.there? = if p.isAbsent then none else some p := by
  rw [there?, converted]
  cases absent : p.isAbsent <;> simp [Except.toOption, Option.filter, absent]

/-- The fields of a name. -/
def named (fields : List (Field × Value)) (name : String) : List (Field × Value) :=
  fields.filter fun field => field.1.name = name

private theorem find?_eq_head?_named (fields : List (Field × Value)) (name : String) :
    Field.find? fields name = (named fields name).head?.map Prod.snd := by
  rw [Field.find?, named, List.head?_filter]

private theorem named_cons (field : Field × Value) (fields : List (Field × Value)) (name : String) :
    named (field :: fields) name =
      (if field.1.name = name then [field] else []) ++ named fields name := by
  unfold named
  split
  next same => simp [same]
  next other => simp [other]

/-- Under a name there is the last field of that name that is there. -/
theorem lookup_plainFields {pairs : List (String × Plain)} (read : plainFields fields = .ok pairs)
    (name : String) :
    (TextMap.ofList pairs).lookup name =
      ((named fields name).filterMap fun field => field.2.there?).getLast? := by
  obtain ⟨rows, made, rfl⟩ := plainFields_eq_ok.1 read
  rw [TextMap.lookup_ofList]
  clear read
  induction made with
  | nil => rfl
  | @cons field row fields rows made _ ih =>
    obtain ⟨s, p⟩ := row
    obtain ⟨rfl, converted⟩ := made
    have first : (Plain.kept [(field.1.name, p)]).reverse.lookup name =
        ((if field.1.name = name then [field] else []).filterMap fun field =>
          field.2.there?).getLast? := by
      split
      next same =>
        subst same
        rw [List.filterMap_cons, there?_of_plain converted]
        cases absent : p.isAbsent <;> simp [Plain.kept, absent]
      next other =>
        have different : (name == field.1.name) = false := beq_eq_false_iff_ne.2 (Ne.symm other)
        cases absent : p.isAbsent <;> simp [Plain.kept, absent, List.lookup_cons, different]
    have split : Plain.kept ((field.1.name, p) :: rows) =
        Plain.kept [(field.1.name, p)] ++ Plain.kept rows := List.filter_append [_] rows
    rw [split, List.reverse_append, List.lookup_append, ih, first, named_cons,
      List.filterMap_append, List.getLast?_append]

private theorem named_of_distinct (distinct : fields.Pairwise fun a b => a.1.name ≠ b.1.name)
    {field : Field × Value} (member : field ∈ fields) :
    named fields field.1.name = [field] := by
  induction fields with
  | nil => cases member
  | cons first fields ih =>
    obtain ⟨apart, rest⟩ := List.pairwise_cons.1 distinct
    rw [named_cons]
    rcases List.mem_cons.1 member with rfl | inside
    · have others : named fields field.1.name = [] :=
        List.filter_eq_nil_iff.2 fun other listed same =>
          apart other listed (of_decide_eq_true same).symm
      rw [if_pos rfl, others]
      rfl
    · rw [if_neg (apart field inside), ih rest inside]
      rfl

/-- The map is what the fields of the composite become, by themselves or as the whole value. -/
def FieldMap (declared : NominalType) (fields : List (Field × Value))
    (map : List (String × Plain)) : Prop :=
  (composite declared fields).eventFields = .ok map ∨
    (declared.kind = .struct ∨ declared.kind = .resource) ∧
      (composite declared fields).toPlain = .ok (.map map)

theorem FieldMap.exists_pairs (made : FieldMap declared fields map) :
    ∃ pairs, plainFields fields = .ok pairs ∧ map = TextMap.ofList pairs := by
  rcases made with read | ⟨kind, read⟩
  · obtain ⟨pairs, converted, same⟩ := map_eq_ok.1 (mapError_eq_ok.1 read)
    exact ⟨pairs, converted, same.symm⟩
  · have whole := mapError_eq_ok.1 read
    rw [plain_record kind] at whole
    obtain ⟨pairs, converted, same⟩ := map_eq_ok.1 whole
    exact ⟨pairs, converted, (Plain.map.inj same).symm⟩

private theorem plain_of_plainFields {pairs : List (String × Plain)}
    (read : plainFields fields = .ok pairs)
    {field : Field × Value} (member : field ∈ fields) : ∃ p, field.2.plain = .ok p := by
  obtain ⟨rows, made, -⟩ := plainFields_eq_ok.1 read
  obtain ⟨row, -, -, converted⟩ := exists_mem_of_forall₂ made member
  exact ⟨row.2, converted⟩

/-- Under a name a map of fields has the last field of that name that is there. If no field but the
first of that name is there, it is the one that looking the name up finds, and there is no entry if
that one is absent or there is none. So every field that is there is in the map if names differ. -/
theorem fieldMap_named (made : FieldMap declared fields map) :
    (∀ name, map.lookup name =
      ((named fields name).filterMap fun field => field.2.there?).getLast?) ∧
    (∀ name, (∀ field ∈ (named fields name).tail, field.2.toPlain = .ok .absent) →
      match Field.find? fields name with
      | none => map.lookup name = none
      | some v => ∃ p, v.toPlain = .ok p ∧
          map.lookup name = if p.isAbsent then none else some p) ∧
    (fields.Pairwise (fun a b => a.1.name ≠ b.1.name) → ∀ field ∈ fields,
      Field.find? fields field.1.name = some field.2 ∧
        ∃ p, field.2.toPlain = .ok p ∧ (p ≠ .absent → (field.1.name, p) ∈ map)) := by
  obtain ⟨pairs, read, rfl⟩ := made.exists_pairs
  have latest := lookup_plainFields read
  refine ⟨latest, fun name absent => ?_, fun distinct field member => ?_⟩
  · rw [find?_eq_head?_named, latest]
    cases found : named fields name with
    | nil => rfl
    | cons first rest =>
      have listed : first ∈ named fields name := found ▸ List.mem_cons_self
      obtain ⟨p, converted⟩ := plain_of_plainFields read (List.mem_filter.1 listed).1
      have none : rest.filterMap (fun field => field.2.there?) = [] := by
        refine List.filterMap_eq_nil_iff.2 fun field member => ?_
        rw [found] at absent
        rw [there?_of_plain (mapError_eq_ok.1 (absent field member))]
        rfl
      refine ⟨p, mapError_eq_ok.2 converted, ?_⟩
      rw [List.filterMap_cons, none, there?_of_plain converted]
      cases p.isAbsent <;> rfl
  · have only := named_of_distinct distinct member
    obtain ⟨p, converted⟩ := plain_of_plainFields read member
    rw [find?_eq_head?_named, only]
    refine ⟨rfl, p, mapError_eq_ok.2 converted, fun there => ?_⟩
    have entry := latest field.1.name
    rw [only, List.filterMap_cons, there?_of_plain converted] at entry
    rw [← TextMap.lookup_eq_some_iff_mem (TextMap.ordered_ofList pairs).distinct, entry]
    cases p <;> first | rfl | exact absurd rfl there

/-- Of three fields of a name, the last that is there is kept; and with names that differ, a field
that is missing is left out and one that is there is kept. -/
theorem fieldMap_named_repeated :
    let repeated : List (Field × Value) := [(⟨"a", none⟩, bool true), (⟨"b", none⟩, nil),
      (⟨"a", none⟩, bool false), (⟨"a", none⟩, nil)]
    let apart : List (Field × Value) := [(⟨"a", none⟩, nil), (⟨"b", none⟩, bool true)]
    (∃ map, (composite ⟨.struct, "S"⟩ repeated).toPlain = .ok (.map map) ∧
        map.lookup "a" = some (.bool false) ∧ map.lookup "b" = none) ∧
      ∃ map, (composite ⟨.event, "E"⟩ apart).eventFields = .ok map ∧
        map.lookup "a" = none ∧ ("b", .bool true) ∈ map := by
  intro repeated apart
  have several : FieldMap ⟨.struct, "S"⟩ repeated [("a", .bool false)] :=
    .inr ⟨.inl rfl, rfl⟩
  have single : FieldMap ⟨.event, "E"⟩ apart [("b", .bool true)] := .inl rfl
  obtain ⟨last, alone, -⟩ := fieldMap_named several
  obtain ⟨-, first, distinct⟩ := fieldMap_named single
  refine ⟨⟨_, rfl, last "a", ?_⟩, _, rfl, ?_, ?_⟩
  · obtain ⟨p, converted, unlisted⟩ := alone "b" nofun
    obtain rfl : Plain.absent = p := Except.ok.inj converted
    exact unlisted
  · obtain ⟨p, converted, unlisted⟩ := first "a" nofun
    obtain rfl : Plain.absent = p := Except.ok.inj converted
    exact unlisted
  · have listed : (⟨"b", none⟩, bool true) ∈ apart := by simp [apart]
    obtain ⟨-, p, converted, kept⟩ := distinct (by decide) _ listed
    obtain rfl : Plain.bool true = p := Except.ok.inj converted
    exact kept nofun

set_option maxRecDepth 4000 in
/-- Where two fields of a composite have the same name, the map keeps the second. -/
theorem decode_repeated_field :
    ∃ fields, JsonCdc.decode .strict (Utf8.encode ("\x7b\"type\":\"Struct\",\"value\":\x7b" ++
        "\"id\":\"S.A\",\"fields\":[" ++
        "\x7b\"name\":\"a\",\"value\":\x7b\"type\":\"Bool\",\"value\":true\x7d\x7d," ++
        "\x7b\"name\":\"a\",\"value\":\x7b\"type\":\"Bool\",\"value\":false\x7d\x7d]" ++
        "\x7d\x7d")) = .ok (composite ⟨.struct, "S.A"⟩ fields) ∧
      Field.find? fields "a" = some (bool true) ∧
      (bool true).toPlain = .ok (.bool true) ∧
      (composite ⟨.struct, "S.A"⟩ fields).eventFields = .ok [("a", .bool false)] := by
  open JsonCdc in
  have truth (b : Bool) : ValueTree false [] (bool b)
      (.object [("type", .string "Bool"), ("value", .bool b)]) [] :=
    .valued rfl rfl (.bool b)
  have tree : ValueTree false [] (composite ⟨.struct, "S.A"⟩
        [(⟨"a", none⟩, bool true), (⟨"a", none⟩, bool false)])
      (.object [("type", .string "Struct"), ("value", .object [("id", .string "S.A"),
        ("fields", .array [.object [("name", .string "a"), ("value", _)],
          .object [("name", .string "a"), ("value", _)]])])]) [] :=
    .valued rfl rfl (.composite rfl rfl rfl
      (.cons rfl rfl (truth true) (.cons rfl rfl (truth false) .nil)))
  refine ⟨_, decode_of_valueTree (by simp) tree ?_, rfl, rfl, rfl⟩
  rw [Json.ofBytes?, Utf8.decode?_encode]
  rfl

end CadenceWire.Value
