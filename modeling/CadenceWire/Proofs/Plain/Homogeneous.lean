import CadenceWire.Proofs.Plain.Keys
import CadenceWire.Proofs.Text.Literal
import CadenceWire.Value.Equality

/-!
Dictionaries all of whose keys are of one kind. Different keys of a kind have different texts, so
that no key of such a dictionary is taken when its turn comes.
-/
namespace CadenceWire

/-- Kinds of keys. Cases of an enum are known by its identifier and the kind of their raw values. -/
inductive KeyKind where
  | string | character | bool | address | bytes | path
  | integer (kind : IntegerKind)
  | fixedPoint (kind : FixedPointKind)
  | caseOf (enum : String) (raw : IntegerKind)

/-- The value is a key of the kind, and not an empty one. -/
inductive KeyKind.Has : KeyKind → Value → Prop
  | string {s : String} (some : s ≠ "") : Has string (.string s)
  | character {s : String} (some : s ≠ "") : Has character (.character s)
  | bool (b : Bool) : Has bool (.bool b)
  | address (owner : Address) : Has address (.address owner)
  | bytes {content : List UInt8} (some : content ≠ []) : Has bytes (.bytes content)
  | path (place : Path) : Has path (.path place)
  | integer {kind : IntegerKind} (n : Integer) (of : n.kind = kind) : Has (integer kind) (.integer n)
  | fixedPoint {kind : FixedPointKind} (n : FixedPoint) (of : n.kind = kind) :
      Has (fixedPoint kind) (.fixedPoint n)
  | case {enum : String} {kind : IntegerKind} (field : Field) (raw : Integer) (of : raw.kind = kind) :
      Has (caseOf enum kind) (.composite ⟨.enum, enum⟩ [(field, .integer raw)])

/-- Where two texts agree they are cut alike at the last mark in them. -/
theorem cut_at_last {α : Type} {mark : α} {front other back rest : List α}
    (same : front ++ mark :: back = other ++ mark :: rest) (last : mark ∉ back)
    (last' : mark ∉ rest) : front = other ∧ back = rest := by
  rcases List.append_eq_append_iff.1 same with ⟨more, rfl, cut⟩ | ⟨more, rfl, cut⟩
  · cases more with
    | nil => exact ⟨(List.append_nil _).symm, (List.cons.inj cut).2⟩
    | cons c more =>
      obtain ⟨-, rfl⟩ := List.cons.inj cut
      exact absurd (List.mem_append_right more List.mem_cons_self) last
  · cases more with
    | nil => exact ⟨List.append_nil _, (List.cons.inj cut).2.symm⟩
    | cons c more =>
      obtain ⟨-, rfl⟩ := List.cons.inj cut
      exact absurd (List.mem_append_right more List.mem_cons_self) last'

namespace Value

/-- The text of the case of an enum. -/
def caseText (enum : String) (field : Field) (raw : Integer) : String :=
  enum ++ "(" ++ (field.name ++ ": " ++ raw.text) ++ ")"

private theorem keyText_case (enum : String) (field : Field) (raw : Integer) :
    (composite ⟨.enum, enum⟩ [(field, .integer raw)]).KeyText (caseText enum field raw) := by
  have shown : (composite ⟨.enum, enum⟩ [(field, .integer raw)]).text = caseText enum field raw := by
    simp [text, fieldTexts, caseText]
  exact ⟨_, plain_worded (by simp), shown ▸ .text _⟩

/-- No number has a blank in it, so that the last blank stands between the name and the number. -/
theorem caseText_inj {enum : String} {field other : Field} {m n : Integer}
    (same : caseText enum field m = caseText enum other n) :
    field.name = other.name ∧ m.value = n.value := by
  have parts : field.name.toList ++ [':'] ++ ' ' :: m.text.toList =
      other.name.toList ++ [':'] ++ ' ' :: n.text.toList := by
    have inside := (String.append_right_inj _).1 ((String.append_left_inj _).1 same)
    simpa using congrArg String.toList inside
  have blank (n : Integer) : ' ' ∉ n.text.toList := fun member =>
    Decimal.not_blank_of_mem_ofInt member rfl
  obtain ⟨names, numbers⟩ := cut_at_last parts (blank m) (blank n)
  exact ⟨String.toList_inj.1 (List.append_cancel_right names),
    Decimal.ofInt_injective (String.toList_inj.1 numbers)⟩

end Value

namespace KeyKind.Has

variable {kind : KeyKind} {v w : Value}

private theorem exists_keyText (has : kind.Has v) : ∃ s, v.KeyText s ∧ s ≠ "" := by
  cases has with
  | string some | character some => exact ⟨_, ⟨_, rfl, .text _⟩, some⟩
  | bool b =>
    cases b with
    | true => exact ⟨_, ⟨_, rfl, .true⟩, by decide⟩
    | false => exact ⟨_, ⟨_, rfl, .false⟩, by decide⟩
  | address owner =>
    refine ⟨_, ⟨_, rfl, .text _⟩, fun none => ?_⟩
    have length := owner.length_hex
    rw [none] at length
    cases length
  | bytes some => exact ⟨_, ⟨_, rfl, .bytes _⟩, fun none => some (Hex.encode_eq_empty.1 none)⟩
  | path place => exact ⟨_, ⟨_, rfl, .text _⟩, by simp [Path.text]⟩
  | integer n | fixedPoint n => exact ⟨_, ⟨_, rfl, .integer _⟩, Decimal.ofInt_ne_empty _⟩
  | case field raw => exact ⟨_, Value.keyText_case _ field raw, by simp [Value.caseText]⟩

/-- Keys of a kind are told apart by their texts. -/
theorem same_of_keyText {s : String} (has : kind.Has v) (has' : kind.Has w) (text : v.KeyText s)
    (text' : w.KeyText s) : v.same w = true := by
  have alike {a b : String} (one : v.KeyText a) (two : w.KeyText b) : a = b :=
    (one.unique text).trans (text'.unique two)
  cases has with
  | string | character =>
    cases has'
    simpa [Value.same] using alike ⟨_, rfl, .text _⟩ ⟨_, rfl, .text _⟩
  | bool b =>
    cases has' with | bool c =>
    cases b with
    | true =>
      cases c with
      | true => simp [Value.same]
      | false => exact absurd (alike ⟨_, rfl, .true⟩ ⟨_, rfl, .false⟩) (by decide)
    | false =>
      cases c with
      | true => exact absurd (alike ⟨_, rfl, .false⟩ ⟨_, rfl, .true⟩) (by decide)
      | false => simp [Value.same]
  | address =>
    cases has'
    simpa [Value.same] using Address.hex_injective (alike ⟨_, rfl, .text _⟩ ⟨_, rfl, .text _⟩)
  | bytes =>
    cases has'
    simpa [Value.same] using Hex.encode_injective (alike ⟨_, rfl, .bytes _⟩ ⟨_, rfl, .bytes _⟩)
  | path =>
    cases has'
    simpa [Value.same] using Path.text_injective (alike ⟨_, rfl, .text _⟩ ⟨_, rfl, .text _⟩)
  | integer m of =>
    cases has' with | integer n of' =>
    have value := Decimal.ofInt_injective (alike ⟨_, rfl, .integer _⟩ ⟨_, rfl, .integer _⟩)
    simpa [Value.same] using Integer.eq_of_value (of.trans of'.symm) value
  | fixedPoint m of =>
    cases has' with | fixedPoint n of' =>
    have scaled := Decimal.ofInt_injective (alike ⟨_, rfl, .integer _⟩ ⟨_, rfl, .integer _⟩)
    simpa [Value.same] using FixedPoint.eq_of_scaled (of.trans of'.symm) scaled
  | case field m of =>
    cases has' with | case other n of' =>
    obtain ⟨name, value⟩ := Value.caseText_inj
      (alike (Value.keyText_case _ field m) (Value.keyText_case _ other n))
    simpa [Value.same, Value.sameFields, name] using Integer.eq_of_value (of.trans of'.symm) value

end KeyKind.Has

namespace Value

variable {kind : KeyKind} {entries : List (Value × Value)}

private theorem not_faultyKeys_of_kind (keys : ∀ entry ∈ entries, kind.Has entry.1)
    (different : entries.Pairwise fun a b => a.1.same b.1 = false) : ¬ FaultyKeys entries := by
  intro faulty
  cases faulty with
  | @textless entry p member converted textless =>
    obtain ⟨s, ⟨q, plain, spelled⟩, -⟩ := (keys entry member).exists_keyText
    obtain rfl : p = q := Except.ok.inj (converted.symm.trans plain)
    exact textless.not_spelled spelled
  | @empty entry member text =>
    obtain ⟨s, text', some⟩ := (keys entry member).exists_keyText
    exact some (text'.unique text)
  | @repeated entry other s both text same =>
    have first := keys entry (both.subset List.mem_cons_self)
    have second := keys other (both.subset (List.mem_cons_of_mem _ List.mem_cons_self))
    have apart := List.pairwise_iff_forall_sublist.1 different both
    exact absurd (first.same_of_keyText second text same) (by simp [apart])

/-- A dictionary whose keys are of one kind and differ becomes plain if its values do, and the map
has one entry for each entry of the dictionary whose value is there. -/
theorem toPlain_homogeneous (keys : ∀ entry ∈ entries, kind.Has entry.1)
    (different : entries.Pairwise fun a b => a.1.same b.1 = false)
    (converted : ∀ entry ∈ entries, ∃ p, entry.2.toPlain = .ok p) :
    ∃ pairs map, (dictionary entries).toPlain = .ok (.map map) ∧
      List.Forall₂ (fun entry pair => entry.1.KeyText pair.1 ∧ entry.2.toPlain = .ok pair.2)
        entries pairs ∧
      TextMap.Ordered map ∧ map.Perm (pairs.filter fun pair => !pair.2.isAbsent) := by
  have each : ∀ entry ∈ entries, entry.1.Converts ∧ entry.2.Converts := by
    intro entry member
    obtain ⟨-, ⟨p, plain, -⟩, -⟩ := (keys entry member).exists_keyText
    obtain ⟨q, item⟩ := converted entry member
    exact ⟨⟨p, plain⟩, q, mapError_eq_ok.1 item⟩
  obtain ⟨pairs, rows, distinct⟩ := exists_rows (not_faultyKeys_of_kind keys different) each
  have apart : (Plain.kept pairs).Pairwise fun a b => a.1 ≠ b.1 :=
    distinct.sublist List.filter_sublist
  refine ⟨pairs, TextMap.ofList (Plain.kept pairs), ?_, ?_, TextMap.ordered_ofList _,
    TextMap.perm_ofList apart⟩
  · exact mapError_eq_ok.2 (plain_dictionary_eq_ok.2 ⟨pairs, rows, distinct, rfl⟩)
  · exact rows.imp fun _ _ row => ⟨row.1, mapError_eq_ok.2 row.2.2⟩

/-- Two cases of an enum, one of them with a missing value. -/
theorem toPlain_homogeneous_cases :
    let case (raw : Integer) := composite ⟨.enum, "E"⟩ [(⟨"rawValue", none⟩, .integer raw)]
    let entries := [(case ⟨.uintOf .w8, 1, by decide⟩, nil),
      (case ⟨.uintOf .w8, 2, by decide⟩, bool true)]
    (∀ entry ∈ entries, (KeyKind.caseOf "E" (.uintOf .w8)).Has entry.1) ∧
      (entries.Pairwise fun a b => a.1.same b.1 = false) ∧
      (∀ entry ∈ entries, ∃ p, entry.2.toPlain = .ok p) ∧
      ∃ map, (dictionary entries).toPlain = .ok (.map map) ∧
        map.Perm [("E(rawValue: 2)", .bool true)] := by
  intro case entries
  have keys : ∀ entry ∈ entries, (KeyKind.caseOf "E" (.uintOf .w8)).Has entry.1 :=
    List.forall_mem_cons.2 ⟨.case _ _ rfl, List.forall_mem_singleton.2 (.case _ _ rfl)⟩
  have different : entries.Pairwise fun a b => a.1.same b.1 = false := by
    simp [entries, case, same, sameFields]
  have converted : ∀ entry ∈ entries, ∃ p, entry.2.toPlain = .ok p :=
    List.forall_mem_cons.2 ⟨⟨_, rfl⟩, List.forall_mem_singleton.2 ⟨_, rfl⟩⟩
  refine ⟨keys, different, converted, ?_⟩
  obtain ⟨pairs, map, whole, rows, -, listed⟩ := toPlain_homogeneous keys different converted
  change List.Forall₂ _ [(case _, nil), (case _, bool true)] pairs at rows
  cases rows with | @cons _ one _ _ first rows =>
  cases rows with | @cons _ two _ _ second rows =>
  cases rows
  obtain ⟨s, p⟩ := one
  obtain ⟨t, q⟩ := two
  obtain rfl : Plain.absent = p := Except.ok.inj first.2
  obtain rfl : Plain.bool true = q := Except.ok.inj second.2
  obtain rfl : t = "E(rawValue: 2)" := second.1.unique (keyText_case "E" _ _)
  exact ⟨map, whole, listed⟩

end Value

end CadenceWire
