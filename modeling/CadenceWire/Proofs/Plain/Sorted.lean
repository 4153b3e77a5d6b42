import CadenceWire.Proofs.Plain.Absence
import CadenceWire.Proofs.Text.ByteOrder

/-!
The order of the keys in plain values. Every map that a value becomes has its keys in the order of
their bytes, each of them once, wherever it stands.
-/
namespace CadenceWire

theorem TextMap.ordered_iff {α : Type} {map : List (String × α)} :
    Ordered map ↔ map.Pairwise fun a b => Utf8.encode a.1 < Utf8.encode b.1 := by
  simp only [Ordered, Utf8.encode_lt_iff]

namespace Plain

variable {p : Plain} {entries : List (String × Plain)}

/-- The keys increase in every map within the plain value. -/
def Sorted (p : Plain) : Prop := ∀ entries, p.Contains (.map entries) → TextMap.Ordered entries

theorem Sorted.part {q : Plain} (sorted : p.Sorted) (member : q ∈ p.parts) : q.Sorted :=
  fun entries contains => sorted entries (.part member contains)

theorem Sorted.ordered (sorted : (Plain.map entries).Sorted) : TextMap.Ordered entries :=
  sorted entries (.refl _)

end Plain

namespace Value

variable {v : Value} {p : Plain} {entries : List (String × Plain)}

private theorem ordered_of_plain (converted : v.plain = .ok (.map entries)) :
    TextMap.Ordered entries := by
  induction v using parts_induction with | whole v ih =>
  cases v with
  | present content =>
    rw [plain] at converted
    exact ih content (List.mem_singleton.2 rfl) converted
  | array elements =>
    obtain ⟨items, -, same⟩ := plain_array_eq_ok.1 converted
    cases same
  | dictionary pairs =>
    obtain ⟨pairs, -, -, same⟩ := plain_dictionary_eq_ok.1 converted
    cases same
    exact TextMap.ordered_ofList _
  | composite declared fields =>
    by_cases kind : declared.kind = .struct ∨ declared.kind = .resource
    · obtain ⟨pairs, -, same⟩ := (plain_record_eq_ok kind).1 converted
      cases same
      exact TextMap.ordered_ofList _
    · cases (plain_worded kind).symm.trans converted
  | type known => cases known <;> cases converted
  | _ => cases converted

theorem sorted_of_plain (converted : v.plain = .ok p) : p.Sorted := by
  intro entries contains
  obtain ⟨w, -, made⟩ := exists_reached converted contains
  exact ordered_of_plain made

theorem sorted_of_eventFields (read : v.eventFields = .ok entries) :
    (Plain.map entries).Sorted := by
  obtain ⟨declared, fields, -, converted⟩ := record_of_eventFields read
  exact sorted_of_plain converted

end Value

end CadenceWire
