import CadenceWire.Proofs.Plain.Keys
import Mathlib.Data.List.Perm.Basic
import Mathlib.Logic.Relation

/-!
Values that differ in the order of what has none. Neither the order of the entries of a dictionary
nor that of the fields of a struct or a resource shows in a plain value.
-/
namespace CadenceWire

/-- Where two things are related to the same, either may stand for the other within a list. -/
theorem forall₂_middle {α β : Type} {R : α → β → Prop} {a b : α}
    (alike : ∀ result, R a result ↔ R b result) {front back : List α} {results : List β} :
    List.Forall₂ R (front ++ a :: back) results ↔ List.Forall₂ R (front ++ b :: back) results := by
  induction front generalizing results with
  | nil => simp only [List.nil_append, List.forall₂_cons_left_iff, alike]
  | cons item front ih => simp only [List.cons_append, List.forall₂_cons_left_iff, ih]

namespace Value

/-- Somewhere in the value, the entries of one dictionary or the fields of one struct or resource
are put in another order. Fields keep their names, which must differ. Nothing is moved inside of
what becomes text as a whole. -/
inductive Reorders : Value → Value → Prop
  | entries {entries others : List (Value × Value)} (moved : entries.Perm others) :
      Reorders (dictionary entries) (dictionary others)
  | fields {declared : NominalType} {fields others : List (Field × Value)}
      (kind : declared.kind = .struct ∨ declared.kind = .resource)
      (distinct : fields.Pairwise fun a b => a.1.name ≠ b.1.name) (moved : fields.Perm others) :
      Reorders (composite declared fields) (composite declared others)
  | present {v w : Value} (inner : Reorders v w) : Reorders (present v) (present w)
  | element {v w : Value} (front back : List Value) (inner : Reorders v w) :
      Reorders (array (front ++ v :: back)) (array (front ++ w :: back))
  | key {v w : Value} (item : Value) (front back : List (Value × Value)) (inner : Reorders v w) :
      Reorders (dictionary (front ++ (v, item) :: back)) (dictionary (front ++ (w, item) :: back))
  | item {v w : Value} (key : Value) (front back : List (Value × Value)) (inner : Reorders v w) :
      Reorders (dictionary (front ++ (key, v) :: back)) (dictionary (front ++ (key, w) :: back))
  | field {declared : NominalType} {v w : Value} (name : Field) (front back : List (Field × Value))
      (kind : declared.kind = .struct ∨ declared.kind = .resource) (inner : Reorders v w) :
      Reorders (composite declared (front ++ (name, v) :: back))
        (composite declared (front ++ (name, w) :: back))

section rows

variable {pairs : List (String × Plain)}

/-- Pairs with texts that differ make the same map in whichever order they come. -/
theorem exists_rows_perm {α : Type} {R : α → String × Plain → Prop} {items others : List α}
    (moved : items.Perm others) (rows : List.Forall₂ R items pairs)
    (distinct : pairs.Pairwise fun a b => a.1 ≠ b.1) :
    ∃ pairs', List.Forall₂ R others pairs' ∧ pairs'.Pairwise (fun a b => a.1 ≠ b.1) ∧
      TextMap.ofList (Plain.kept pairs') = TextMap.ofList (Plain.kept pairs) := by
  obtain ⟨pairs', rows', moved'⟩ := List.perm_comp_forall₂ moved.symm rows
  have distinct' := (moved'.pairwise_iff Ne.symm).2 distinct
  have apart : (Plain.kept pairs').Pairwise fun a b => a.1 ≠ b.1 :=
    distinct'.sublist List.filter_sublist
  exact ⟨pairs', rows', distinct', TextMap.ofList_eq_of_perm (moved'.filter _) apart⟩

private theorem rows_distinct_of_names {fields : List (Field × Value)}
    (rows : List.Forall₂ (fun field pair => pair.1 = field.1.name ∧ field.2.plain = .ok pair.2)
      fields pairs)
    (distinct : fields.Pairwise fun a b => a.1.name ≠ b.1.name) :
    pairs.Pairwise fun a b => a.1 ≠ b.1 := by
  have names : pairs.map Prod.fst = fields.map fun field => field.1.name := by
    clear distinct
    induction rows with
    | nil => rfl
    | cons row _ ih => rw [List.map_cons, List.map_cons, ih, row.1]
  exact List.pairwise_map.1 (names ▸ List.pairwise_map.2 distinct)

end rows

variable {p : Plain}

theorem plain_dictionary_perm {entries others : List (Value × Value)} (moved : entries.Perm others)
    (converted : (dictionary entries).plain = .ok p) : (dictionary others).plain = .ok p := by
  obtain ⟨pairs, rows, distinct, rfl⟩ := plain_dictionary_eq_ok.1 converted
  obtain ⟨pairs', rows', distinct', same⟩ := exists_rows_perm moved rows distinct
  exact plain_dictionary_eq_ok.2 ⟨pairs', rows', distinct', congrArg Plain.map same.symm⟩

private theorem plain_record_perm {declared : NominalType} {fields others : List (Field × Value)}
    (kind : declared.kind = .struct ∨ declared.kind = .resource)
    (distinct : fields.Pairwise fun a b => a.1.name ≠ b.1.name) (moved : fields.Perm others)
    (converted : (composite declared fields).plain = .ok p) :
    (composite declared others).plain = .ok p := by
  obtain ⟨pairs, rows, rfl⟩ := (plain_record_eq_ok kind).1 converted
  obtain ⟨pairs', rows', -, same⟩ :=
    exists_rows_perm moved rows (rows_distinct_of_names rows distinct)
  exact (plain_record_eq_ok kind).2 ⟨pairs', rows', congrArg Plain.map same.symm⟩

/-- One reordering leaves the plain form as it is. -/
theorem Reorders.plain_iff {v w : Value} (reorders : Reorders v w) (p : Plain) :
    v.plain = .ok p ↔ w.plain = .ok p := by
  induction reorders generalizing p with
  | entries moved => exact ⟨plain_dictionary_perm moved, plain_dictionary_perm moved.symm⟩
  | fields kind distinct moved =>
    have distinct' := (moved.pairwise_iff Ne.symm).1 distinct
    exact ⟨plain_record_perm kind distinct moved, plain_record_perm kind distinct' moved.symm⟩
  | present _ ih =>
    rw [plain, plain]
    exact ih p
  | element front back _ ih =>
    simp only [plain_array_eq_ok]
    exact exists_congr fun items => and_congr_left fun _ => forall₂_middle ih
  | @key v w item front back _ ih =>
    have alike (pair : String × Plain) : Row (v, item) pair ↔ Row (w, item) pair := by
      simp only [Row, KeyText, ih]
    simp only [plain_dictionary_eq_ok, forall₂_middle alike]
  | @item v w key front back _ ih =>
    have alike (pair : String × Plain) : Row (key, v) pair ↔ Row (key, w) pair := by
      simp only [Row, ih]
    simp only [plain_dictionary_eq_ok, forall₂_middle alike]
  | @field declared v w name front back kind _ ih =>
    simp only [plain_record_eq_ok kind]
    refine exists_congr fun pairs => and_congr_left fun _ => forall₂_middle fun pair => ?_
    exact and_congr_right fun _ => ih pair.2

/-- However often and wherever dictionaries, structs and resources are reordered, what the value
becomes stays the same, and so does whether it becomes anything. -/
theorem toPlain_reordered {v w : Value} (reordered : Relation.ReflTransGen Reorders v w) (p : Plain) :
    v.toPlain = .ok p ↔ w.toPlain = .ok p := by
  simp only [toPlain, mapError_eq_ok]
  induction reordered with
  | refl => rfl
  | tail _ last ih => exact ih.trans (last.plain_iff p)

/-- The fields of a struct within a dictionary, and then its entries. -/
theorem toPlain_reordered_nested :
    let record (fields : List (Field × Value)) := composite ⟨.struct, "S.A"⟩ fields
    let v := dictionary [(string "b", record [(⟨"x", none⟩, bool true), (⟨"y", none⟩, nil)]),
      (string "a", void)]
    let w := dictionary [(string "a", void),
      (string "b", record [(⟨"y", none⟩, nil), (⟨"x", none⟩, bool true)])]
    Relation.ReflTransGen Reorders v w ∧
      v.toPlain = .ok (.map [("a", .text "()"), ("b", .map [("x", .bool true)])]) ∧
      w.toPlain = .ok (.map [("a", .text "()"), ("b", .map [("x", .bool true)])]) := by
  intro record v w
  have inner : Reorders (record [(⟨"x", none⟩, bool true), (⟨"y", none⟩, nil)])
      (record [(⟨"y", none⟩, nil), (⟨"x", none⟩, bool true)]) :=
    .fields (.inl rfl) (by simp) (.swap _ _ _)
  have reordered : Relation.ReflTransGen Reorders v w :=
    .tail (.single (.item (string "b") [] _ inner)) (.entries (.swap _ _ _))
  have converted : v.toPlain = .ok (.map [("a", .text "()"), ("b", .map [("x", .bool true)])]) := rfl
  exact ⟨reordered, converted, (toPlain_reordered reordered _).1 converted⟩

end Value

end CadenceWire
