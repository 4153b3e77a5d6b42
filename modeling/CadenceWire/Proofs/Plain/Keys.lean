import CadenceWire.Payload
import CadenceWire.Proofs.Reading
import CadenceWire.Proofs.Value.Nesting

/-!
When values can be made plain. What stands in the way is always a dictionary, one of whose keys is
of no use in a map.
-/
namespace CadenceWire

/-- The text that a plain value is written as where it is a key. -/
inductive Plain.Spelled : Plain → String → Prop
  | text (s : String) : Spelled (.text s) s
  | integer (n : PlainInteger) : Spelled (.integer n) (Decimal.ofInt n.value)
  | true : Spelled (.bool true) "true"
  | false : Spelled (.bool false) "false"
  | bytes (content : List UInt8) : Spelled (.bytes content) (Hex.encode content)

/-- Plain values that no key can be. -/
inductive Plain.Textless : Plain → Prop
  | absent : Textless .absent
  | list (items : List Plain) : Textless (.list items)
  | map (entries : List (String × Plain)) : Textless (.map entries)

namespace Value

/-- One value lies within another at a place where what is plain of the one goes into what is plain
of the other. Composites that become text as a whole have no such places, nor have ranges. -/
inductive Reaches : Value → Value → Prop
  | refl (v : Value) : Reaches v v
  | present {content target : Value} (inner : Reaches content target) :
      Reaches (present content) target
  | element {elements : List Value} {v target : Value} (member : v ∈ elements)
      (inner : Reaches v target) : Reaches (array elements) target
  | key {entries : List (Value × Value)} {entry : Value × Value} {target : Value}
      (member : entry ∈ entries) (inner : Reaches entry.1 target) :
      Reaches (dictionary entries) target
  | item {entries : List (Value × Value)} {entry : Value × Value} {target : Value}
      (member : entry ∈ entries) (inner : Reaches entry.2 target) :
      Reaches (dictionary entries) target
  | field {declared : NominalType} {fields : List (Field × Value)} {field : Field × Value}
      {target : Value} (kind : declared.kind = .struct ∨ declared.kind = .resource)
      (member : field ∈ fields) (inner : Reaches field.2 target) :
      Reaches (composite declared fields) target

/-- The value becomes a plain one that is written as the text where it is a key. -/
def KeyText (key : Value) (s : String) : Prop := ∃ p, key.plain = .ok p ∧ p.Spelled s

/-- Some key is of no use: it has no text, or the empty one, or that of another key, whatever stands
beside it. -/
inductive FaultyKeys (entries : List (Value × Value)) : Prop
  | textless {entry : Value × Value} {p : Plain} (member : entry ∈ entries)
      (converted : entry.1.plain = .ok p) (textless : p.Textless)
  | empty {entry : Value × Value} (member : entry ∈ entries) (text : entry.1.KeyText "")
  | repeated {entry other : Value × Value} {s : String} (both : [entry, other].Sublist entries)
      (text : entry.1.KeyText s) (same : other.1.KeyText s)

end Value

namespace Plain

private theorem key_eq_ok {p : Plain} {s : String} : p.key = .ok s ↔ p.Spelled s ∧ s ≠ "" := by
  have nonEmpty {t : String} : key.nonEmpty t = .ok s ↔ t = s ∧ s ≠ "" := by
    unfold key.nonEmpty
    split
    next none => simp only [reduceCtorEq, false_iff, not_and, not_not]; rintro rfl; exact none
    next some =>
      rw [Except.ok.injEq]
      exact ⟨fun same => ⟨same, same ▸ some⟩, And.left⟩
  constructor
  · intro accepted
    cases p with
    | text t =>
      obtain ⟨rfl, some⟩ := nonEmpty.1 accepted
      exact ⟨.text t, some⟩
    | integer n =>
      obtain ⟨rfl, some⟩ := nonEmpty.1 accepted
      exact ⟨.integer n, some⟩
    | bool b =>
      obtain ⟨rfl, some⟩ := nonEmpty.1 accepted
      cases b with
      | true => exact ⟨.true, some⟩
      | false => exact ⟨.false, some⟩
    | bytes content =>
      obtain ⟨rfl, some⟩ := nonEmpty.1 accepted
      exact ⟨.bytes content, some⟩
    | absent | list | map => cases accepted
  · rintro ⟨spelled, some⟩
    cases spelled <;> exact nonEmpty.2 ⟨rfl, some⟩

/-- Either a plain value has a text, and just one, or it has none. -/
theorem spelled_or_textless (p : Plain) : (∃ s, p.Spelled s) ∨ p.Textless := by
  cases p with
  | text s => exact .inl ⟨s, .text s⟩
  | integer n => exact .inl ⟨_, .integer n⟩
  | bool b =>
    cases b with
    | true => exact .inl ⟨_, .true⟩
    | false => exact .inl ⟨_, .false⟩
  | bytes content => exact .inl ⟨_, .bytes content⟩
  | absent => exact .inr .absent
  | list items => exact .inr (.list items)
  | map entries => exact .inr (.map entries)

theorem Spelled.unique {p : Plain} {s t : String} (one : p.Spelled s) (other : p.Spelled t) :
    s = t := by
  cases one <;> cases other <;> rfl

theorem Textless.not_spelled {p : Plain} {s : String} (none : p.Textless) : ¬ p.Spelled s := by
  intro spelled
  cases none <;> cases spelled

/-- The pairs whose value is there. -/
def kept (pairs : List (String × Plain)) : List (String × Plain) :=
  pairs.filter fun pair => !pair.2.isAbsent

private theorem present_kept (s : String) (p : Plain) (pairs : List (String × Plain)) :
    present s p (kept pairs) = kept ((s, p) :: pairs) := by
  unfold present kept
  cases absent : p.isAbsent <;> simp [absent]

theorem mem_kept {pair : String × Plain} {pairs : List (String × Plain)} :
    pair ∈ kept pairs ↔ pair ∈ pairs ∧ pair.2 ≠ .absent := by
  have there : (!pair.2.isAbsent) = true ↔ pair.2 ≠ .absent := by
    cases pair.2 <;> simp [isAbsent]
  rw [kept, List.mem_filter, there]

end Plain

namespace Value

open Plain (kept present_kept mem_kept)

variable {entries : List (Value × Value)} {fields : List (Field × Value)}

theorem KeyText.unique {key : Value} {s t : String} (one : key.KeyText s) (other : key.KeyText t) :
    s = t := by
  obtain ⟨p, plain, spelled⟩ := one
  obtain ⟨q, plain', spelled'⟩ := other
  obtain rfl : p = q := Except.ok.inj (plain.symm.trans plain')
  exact spelled.unique spelled'

/-- What an entry of a dictionary becomes. -/
def Row (entry : Value × Value) (pair : String × Plain) : Prop :=
  entry.1.KeyText pair.1 ∧ pair.1 ≠ "" ∧ entry.2.plain = .ok pair.2

/-- A dictionary is gone through if each of its entries becomes a pair and no two pairs have the
same text. A pair takes its text even if its value is absent. -/
theorem plainEntries_eq_ok {taken : List String} {result : List (String × Plain)} :
    plainEntries taken entries = .ok result ↔
      ∃ pairs, List.Forall₂ Row entries pairs ∧ (∀ pair ∈ pairs, pair.1 ∉ taken) ∧
        pairs.Pairwise (fun a b => a.1 ≠ b.1) ∧ result = kept pairs := by
  induction entries generalizing taken result with
  | nil =>
    rw [plainEntries, Except.ok.injEq]
    constructor
    · rintro rfl
      exact ⟨[], .nil, by simp, .nil, rfl⟩
    · rintro ⟨pairs, rows, -, -, rfl⟩
      cases rows
      rfl
  | cons entry entries ih =>
    obtain ⟨key, item⟩ := entry
    constructor
    · intro accepted
      obtain ⟨p, plain, accepted⟩ := bind_eq_ok.1 accepted
      obtain ⟨s, text, accepted⟩ := bind_eq_ok.1 accepted
      obtain ⟨spelled, some⟩ := Plain.key_eq_ok.1 text
      split at accepted
      next => cases accepted
      next free =>
        obtain ⟨q, converted, accepted⟩ := bind_eq_ok.1 accepted
        obtain ⟨rest, others, same⟩ := bind_eq_ok.1 accepted
        obtain ⟨pairs, rows, untaken, distinct, rfl⟩ := ih.1 others
        refine ⟨(s, q) :: pairs, .cons ⟨⟨p, plain, spelled⟩, some, converted⟩ rows, ?_, ?_, ?_⟩
        · refine List.forall_mem_cons.2 ⟨free, fun pair member => ?_⟩
          exact fun inside => untaken pair member (List.mem_cons_of_mem _ inside)
        · refine List.pairwise_cons.2 ⟨fun pair member same => ?_, distinct⟩
          exact untaken pair member (same ▸ List.mem_cons_self)
        · rw [← Except.ok.inj same, present_kept]
    · rintro ⟨pairs, rows, untaken, distinct, rfl⟩
      cases rows with | @cons _ pair _ pairs row rows =>
      obtain ⟨⟨p, plain, spelled⟩, some, converted⟩ := row
      obtain ⟨free, untaken⟩ := List.forall_mem_cons.1 untaken
      obtain ⟨other, distinct⟩ := List.pairwise_cons.1 distinct
      have others : plainEntries (pair.1 :: taken) entries = .ok (kept pairs) := by
        refine ih.2 ⟨pairs, rows, fun row member inside => ?_, distinct, rfl⟩
        rcases List.mem_cons.1 inside with same | inside
        · exact other row member same.symm
        · exact untaken row member inside
      have text : p.key = .ok pair.1 := Plain.key_eq_ok.2 ⟨spelled, some⟩
      rw [plainEntries]
      simp only [plain, text, converted, others, bind, Except.bind, if_neg free]
      exact congrArg Except.ok (present_kept _ _ _)

theorem plainFields_eq_ok {result : List (String × Plain)} :
    plainFields fields = .ok result ↔
      ∃ pairs, List.Forall₂ (fun field pair => pair.1 = field.1.name ∧ field.2.plain = .ok pair.2)
        fields pairs ∧ result = kept pairs := by
  induction fields generalizing result with
  | nil =>
    rw [plainFields, Except.ok.injEq]
    constructor
    · rintro rfl
      exact ⟨[], .nil, rfl⟩
    · rintro ⟨pairs, rows, rfl⟩
      cases rows
      rfl
  | cons field fields ih =>
    obtain ⟨field, v⟩ := field
    constructor
    · intro accepted
      obtain ⟨p, converted, accepted⟩ := bind_eq_ok.1 accepted
      obtain ⟨rest, others, same⟩ := bind_eq_ok.1 accepted
      obtain ⟨pairs, rows, rfl⟩ := ih.1 others
      refine ⟨(field.name, p) :: pairs, .cons ⟨rfl, converted⟩ rows, ?_⟩
      rw [← Except.ok.inj same, present_kept]
    · rintro ⟨pairs, rows, rfl⟩
      cases rows with | @cons _ pair _ pairs row rows =>
      obtain ⟨s, p⟩ := pair
      obtain ⟨rfl, converted⟩ := row
      have others := ih.2 ⟨pairs, rows, rfl⟩
      rw [plainFields]
      simp only [converted, others, bind, Except.bind]
      exact congrArg Except.ok (present_kept _ _ _)

private theorem plainElements_eq_ok {elements : List Value} {result : List Plain} :
    plainElements elements = .ok result ↔
      List.Forall₂ (fun v p => v.plain = .ok p) elements result := by
  rw [← mapM_eq_ok]
  suffices plainElements elements = elements.mapM plain by rw [this]
  induction elements with
  | nil => rfl
  | cons v elements ih => rw [plainElements, List.mapM_cons, ih]

theorem plain_dictionary_eq_ok {p : Plain} :
    (dictionary entries).plain = .ok p ↔
      ∃ pairs, List.Forall₂ Row entries pairs ∧ pairs.Pairwise (fun a b => a.1 ≠ b.1) ∧
        p = .map (TextMap.ofList (kept pairs)) := by
  rw [plain, bind_eq_ok]
  constructor
  · rintro ⟨result, accepted, same⟩
    obtain ⟨pairs, rows, -, distinct, rfl⟩ := plainEntries_eq_ok.1 accepted
    exact ⟨pairs, rows, distinct, (pure_eq_ok.1 same).symm⟩
  · rintro ⟨pairs, rows, distinct, rfl⟩
    exact ⟨_, plainEntries_eq_ok.2 ⟨pairs, rows, by simp, distinct, rfl⟩, rfl⟩

theorem plain_record {declared : NominalType}
    (kind : declared.kind = .struct ∨ declared.kind = .resource) :
    (composite declared fields).plain =
      (fun pairs => .map (TextMap.ofList pairs)) <$> plainFields fields := by
  obtain ⟨kind', id⟩ := declared
  rcases kind with rfl | rfl <;> exact (map_eq_pure_bind _ _).symm

theorem plain_array_eq_ok {elements : List Value} {p : Plain} :
    (array elements).plain = .ok p ↔
      ∃ items, List.Forall₂ (fun v q => v.plain = .ok q) elements items ∧ p = .list items := by
  rw [plain, bind_eq_ok]
  simp only [plainElements_eq_ok, pure_eq_ok, eq_comm (a := p)]

theorem plain_record_eq_ok {declared : NominalType}
    (kind : declared.kind = .struct ∨ declared.kind = .resource) {p : Plain} :
    (composite declared fields).plain = .ok p ↔
      ∃ pairs, List.Forall₂ (fun field pair => pair.1 = field.1.name ∧ field.2.plain = .ok pair.2)
        fields pairs ∧ p = .map (TextMap.ofList (kept pairs)) := by
  rw [plain_record kind, map_eq_ok]
  constructor
  · rintro ⟨result, accepted, rfl⟩
    obtain ⟨pairs, rows, rfl⟩ := plainFields_eq_ok.1 accepted
    exact ⟨pairs, rows, rfl⟩
  · rintro ⟨pairs, rows, rfl⟩
    exact ⟨_, plainFields_eq_ok.2 ⟨pairs, rows, rfl⟩, rfl⟩

theorem plain_worded {declared : NominalType}
    (kind : ¬ (declared.kind = .struct ∨ declared.kind = .resource)) :
    (composite declared fields).plain = .ok (.text (composite declared fields).text) := by
  obtain ⟨kind', id⟩ := declared
  cases kind' with
  | struct => exact absurd (.inl rfl) kind
  | resource => exact absurd (.inr rfl) kind
  | _ => rw [plain]

/-- There is a plain form of the value. -/
def Converts (v : Value) : Prop := ∃ p, v.plain = .ok p

/-- No dictionary within reach of the value has faulty keys. -/
def Sound (v : Value) : Prop := ∀ entries, v.Reaches (dictionary entries) → ¬ FaultyKeys entries

section rows

variable {pairs : List (String × Plain)}

/-- The texts of the pairs differ if and only if no two keys have the same. -/
theorem rows_distinct_iff (rows : List.Forall₂ Row entries pairs) :
    pairs.Pairwise (fun a b => a.1 ≠ b.1) ↔
      entries.Pairwise fun a b => ∀ s, a.1.KeyText s → ¬ b.1.KeyText s := by
  induction rows with
  | nil => simp
  | @cons entry pair entries pairs row rows ih =>
    rw [List.pairwise_cons, List.pairwise_cons, ih]
    refine and_congr_left fun _ => ⟨fun distinct => ?_, fun distinct => ?_⟩
    · intro other member s text same
      obtain ⟨pair', listed, row'⟩ := exists_mem_of_forall₂ rows member
      have one : pair.1 = s := row.1.unique text
      have two : pair'.1 = s := row'.1.unique same
      exact distinct pair' listed (one.trans two.symm)
    · intro pair' listed same
      obtain ⟨other, member, row'⟩ := exists_mem_of_forall₂ rows.flip listed
      exact distinct other member pair.1 row.1 (same ▸ row'.1)

private theorem not_faultyKeys (rows : List.Forall₂ Row entries pairs)
    (distinct : pairs.Pairwise fun a b => a.1 ≠ b.1) : ¬ FaultyKeys entries := by
  intro faulty
  cases faulty with
  | textless member converted textless =>
    obtain ⟨pair, -, ⟨p, plain, spelled⟩, -⟩ := exists_mem_of_forall₂ rows member
    rw [Except.ok.inj (converted.symm.trans plain)] at textless
    exact textless.not_spelled spelled
  | empty member text =>
    obtain ⟨pair, -, text', some, -⟩ := exists_mem_of_forall₂ rows member
    exact some (text'.unique text)
  | repeated both text same =>
    have apart := List.pairwise_iff_forall_sublist.1 ((rows_distinct_iff rows).1 distinct) both
    exact apart _ text same

/-- Where keys and values become plain, nothing but a faulty key stands in the way. -/
theorem exists_rows (sound : ¬ FaultyKeys entries)
    (converted : ∀ entry ∈ entries, entry.1.Converts ∧ entry.2.Converts) :
    ∃ pairs, List.Forall₂ Row entries pairs ∧ pairs.Pairwise fun a b => a.1 ≠ b.1 := by
  have each : ∀ entry ∈ entries, ∃ pair, Row entry pair ∧ True := by
    intro entry member
    obtain ⟨⟨p, plain⟩, q, converted⟩ := converted entry member
    rcases p.spelled_or_textless with ⟨s, spelled⟩ | textless
    · refine ⟨(s, q), ⟨⟨p, plain, spelled⟩, ?_, converted⟩, trivial⟩
      rintro rfl
      exact sound (.empty member ⟨p, plain, spelled⟩)
    · exact absurd (.textless member plain textless) sound
  obtain ⟨pairs, rows, -⟩ := exists_forall₂ each
  refine ⟨pairs, rows, (rows_distinct_iff rows).2 ?_⟩
  exact List.pairwise_iff_forall_sublist.2 fun both s text same => sound (.repeated both text same)

end rows

section containers

variable {content : Value} {elements : List Value} {declared : NominalType}

private theorem converts_array : (array elements).Converts ↔ ∀ v ∈ elements, v.Converts := by
  unfold Converts
  rw [plain]
  constructor
  · rintro ⟨p, converted⟩ v member
    obtain ⟨result, accepted, -⟩ := bind_eq_ok.1 converted
    obtain ⟨q, -, read⟩ := exists_mem_of_forall₂ (plainElements_eq_ok.1 accepted) member
    exact ⟨q, read⟩
  · intro each
    obtain ⟨result, read, -⟩ :=
      exists_forall₂ fun v member => (each v member).imp fun p converted => ⟨converted, trivial⟩
    exact ⟨.list result, bind_eq_ok.2 ⟨result, plainElements_eq_ok.2 read, rfl⟩⟩

private theorem converts_dictionary :
    (dictionary entries).Converts ↔
      ¬ FaultyKeys entries ∧ ∀ entry ∈ entries, entry.1.Converts ∧ entry.2.Converts := by
  constructor
  · rintro ⟨p, converted⟩
    obtain ⟨pairs, rows, distinct, -⟩ := plain_dictionary_eq_ok.1 converted
    refine ⟨not_faultyKeys rows distinct, fun entry member => ?_⟩
    obtain ⟨pair, -, ⟨q, key, -⟩, -, item⟩ := exists_mem_of_forall₂ rows member
    exact ⟨⟨q, key⟩, pair.2, item⟩
  · rintro ⟨sound, each⟩
    obtain ⟨pairs, rows, distinct⟩ := exists_rows sound each
    exact ⟨_, plain_dictionary_eq_ok.2 ⟨pairs, rows, distinct, rfl⟩⟩

private theorem converts_record (kind : declared.kind = .struct ∨ declared.kind = .resource) :
    (composite declared fields).Converts ↔ ∀ field ∈ fields, field.2.Converts := by
  unfold Converts
  rw [plain_record kind]
  constructor
  · rintro ⟨p, converted⟩ field member
    obtain ⟨result, accepted, -⟩ := map_eq_ok.1 converted
    obtain ⟨pairs, rows, -⟩ := plainFields_eq_ok.1 accepted
    obtain ⟨pair, -, -, read⟩ := exists_mem_of_forall₂ rows member
    exact ⟨pair.2, read⟩
  · intro each
    have row : ∀ field ∈ fields, ∃ pair : String × Plain,
        (pair.1 = field.1.name ∧ field.2.plain = .ok pair.2) ∧ True := fun field member =>
      (each field member).elim fun p converted => ⟨(field.1.name, p), ⟨rfl, converted⟩, trivial⟩
    obtain ⟨pairs, rows, -⟩ := exists_forall₂ row
    exact ⟨_, map_eq_ok.2 ⟨_, plainFields_eq_ok.2 ⟨pairs, rows, rfl⟩, rfl⟩⟩

private theorem sound_present : (present content).Sound ↔ content.Sound := by
  refine forall_congr' fun target => imp_congr_left ⟨fun reaches => ?_, .present⟩
  cases reaches with | present inner => exact inner

private theorem sound_array : (array elements).Sound ↔ ∀ v ∈ elements, v.Sound := by
  constructor
  · exact fun sound v member target inner => sound target (.element member inner)
  · intro each target reaches
    cases reaches with | element member inner =>
    exact each _ member target inner

private theorem sound_dictionary :
    (dictionary entries).Sound ↔
      ¬ FaultyKeys entries ∧ ∀ entry ∈ entries, entry.1.Sound ∧ entry.2.Sound := by
  constructor
  · intro sound
    refine ⟨sound entries (.refl _), fun entry member => ⟨?_, ?_⟩⟩
    · exact fun target inner => sound target (.key member inner)
    · exact fun target inner => sound target (.item member inner)
  · rintro ⟨own, each⟩ target reaches
    cases reaches with
    | refl => exact own
    | key member inner => exact (each _ member).1 target inner
    | item member inner => exact (each _ member).2 target inner

private theorem sound_record (kind : declared.kind = .struct ∨ declared.kind = .resource) :
    (composite declared fields).Sound ↔ ∀ field ∈ fields, field.2.Sound := by
  constructor
  · exact fun sound field member target inner => sound target (.field kind member inner)
  · intro each target reaches
    cases reaches with | field _ member inner =>
    exact each _ member target inner

end containers

/-- A value becomes plain if and only if no dictionary within its reach has faulty keys. -/
theorem converts_iff (v : Value) : v.Converts ↔ v.Sound := by
  induction v using parts_induction with | whole v ih =>
  cases v with
  | present content =>
    rw [sound_present, ← ih content (List.mem_singleton.2 rfl)]
    unfold Converts
    rw [plain]
  | array elements =>
    rw [converts_array, sound_array]
    exact forall₂_congr ih
  | dictionary entries =>
    rw [converts_dictionary, sound_dictionary]
    refine and_congr_right fun _ => forall₂_congr fun entry member => ?_
    exact and_congr (ih entry.1 (key_mem_parts member)) (ih entry.2 (item_mem_parts member))
  | composite declared fields =>
    by_cases kind : declared.kind = .struct ∨ declared.kind = .resource
    · rw [converts_record kind, sound_record kind]
      exact forall₂_congr fun field member => ih field.2 (List.mem_map_of_mem member)
    · refine iff_of_true ⟨_, plain_worded kind⟩ fun target reaches => ?_
      cases reaches with | field kind' => exact absurd kind' kind
  | type known =>
    refine iff_of_true ?_ fun target reaches => by cases reaches
    cases known with
    | none => exact ⟨_, rfl⟩
    | some type => exact ⟨_, rfl⟩
  | _ => exact iff_of_true ⟨_, rfl⟩ fun target reaches => by cases reaches

/-- The error is always one of a key, and it arises if and only if some dictionary within reach of
the value has faulty keys. A dictionary that becomes plain is a map of what its values become, each
under the text of its key, without what is absent. -/
theorem toPlain_fails_iff (v : Value) :
    ((∃ failure, v.toPlain = .error failure) ↔
      ∃ entries, v.Reaches (dictionary entries) ∧ FaultyKeys entries) ∧
    (∀ failure, v.toPlain = .error failure → ∃ fault, failure = .dictionaryKey fault) ∧
    ∀ entries p, v = dictionary entries → v.toPlain = .ok p →
      ∃ map, p = .map map ∧ TextMap.Ordered map ∧ ∀ s q, (s, q) ∈ map ↔
        q ≠ .absent ∧ ∃ entry ∈ entries, entry.1.KeyText s ∧ entry.2.toPlain = .ok q := by
  have error_iff {failure : Failure} : v.toPlain = .error failure ↔
      ∃ fault, v.plain = .error fault ∧ failure = .dictionaryKey fault := by
    unfold toPlain
    cases v.plain <;> simp [Except.mapError, eq_comm]
  refine ⟨?fails, ?cause, ?content⟩
  case fails =>
    have failed : (∃ failure, v.toPlain = .error failure) ↔ ¬ v.Converts := by
      simp only [error_iff, Converts]
      cases v.plain <;> simp
    rw [failed, converts_iff, Sound]
    push Not
    rfl
  case cause =>
    intro failure failed
    obtain ⟨fault, -, same⟩ := error_iff.1 failed
    exact ⟨fault, same⟩
  case content =>
    rintro entries p rfl converted
    obtain ⟨pairs, rows, distinct, rfl⟩ := plain_dictionary_eq_ok.1 (mapError_eq_ok.1 converted)
    have apart : (kept pairs).Pairwise fun a b => a.1 ≠ b.1 := distinct.sublist List.filter_sublist
    refine ⟨_, rfl, TextMap.ordered_ofList _, fun s q => ?_⟩
    rw [TextMap.mem_ofList apart, mem_kept, and_comm]
    refine and_congr_right fun _ => ⟨fun member => ?_, ?_⟩
    · obtain ⟨entry, listed, text, -, read⟩ := exists_mem_of_forall₂ rows.flip member
      exact ⟨entry, listed, text, mapError_eq_ok.2 read⟩
    · rintro ⟨entry, listed, text, read⟩
      obtain ⟨⟨s', q'⟩, member, text', -, read'⟩ := exists_mem_of_forall₂ rows listed
      obtain rfl : s' = s := text'.unique text
      obtain rfl : q' = q := Except.ok.inj (read'.symm.trans (mapError_eq_ok.1 read))
      exact member

/-- A missing value takes its key all the same, and is left out where that key is free. -/
theorem toPlain_fails_iff_missing :
    (∃ failure, (dictionary [(bool true, nil), (string "true", void)]).toPlain = .error failure) ∧
      ∃ map, (dictionary [(bool true, nil), (string "a", void)]).toPlain = .ok (.map map) ∧
        ("a", .text "()") ∈ map ∧ ∀ p, ("true", p) ∉ map := by
  have same : FaultyKeys [(bool true, nil), (string "true", void)] :=
    .repeated (.refl _) ⟨_, rfl, .true⟩ ⟨_, rfl, .text _⟩
  refine ⟨(toPlain_fails_iff _).1.2 ⟨_, .refl _, same⟩, ?_⟩
  have converted : (dictionary [(bool true, nil), (string "a", void)]).toPlain =
      .ok (.map [("a", .text "()")]) := rfl
  obtain ⟨map, whole, -, content⟩ := (toPlain_fails_iff _).2.2 _ _ rfl converted
  rw [whole] at converted
  have there : (string "a").KeyText "a" := ⟨_, rfl, .text _⟩
  refine ⟨map, converted, (content _ _).2 ⟨nofun, (string "a", void), by simp, there, rfl⟩, ?_⟩
  intro p member
  obtain ⟨there, entry, listed, text, read⟩ := (content _ _).1 member
  rcases List.mem_pair.1 listed with rfl | rfl
  · exact there (Except.ok.inj read).symm
  · exact absurd (text.unique ⟨_, rfl, .text _⟩) (by decide)

end Value

end CadenceWire
