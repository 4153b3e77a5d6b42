import CadenceWire.JsonCdc.Scalar
import CadenceWire.Proofs.Reading
import CadenceWire.Proofs.Text.Literal

/-!
What the parts of a JSON tree are read as, by the last members of their names.
-/
namespace CadenceWire

theorem Json.Members.part?_of_last? {members : Json.Members} {name : String} {json : Json}
    (found : members.last? name = some json) :
    members.part? name = some ⟨json, sizeOf_last? found⟩ := by
  have same := members.map_part? name
  rw [found] at same
  obtain ⟨part, kept, rfl⟩ := Option.map_eq_some_iff.1 same
  exact kept

theorem Json.Members.part?_of_missing {members : Json.Members} {name : String}
    (missing : members.last? name = none) : members.part? name = none := by
  have same := members.map_part? name
  rw [missing] at same
  exact Option.map_eq_none_iff.1 same

namespace JsonCdc

variable {members : Json.Members} {name : String} {json : Json}

theorem member_of_last? (found : members.last? name = some json) (context : String) :
    member members name context = .ok ⟨json, Json.Members.sizeOf_last? found⟩ := by
  rw [member, Json.Members.part?_of_last? found]

theorem eq_of_object {context : String} {part : Part Json.Members json}
    (accepted : object context json = .ok part) : json = .object part.val := by
  unfold object at accepted
  split at accepted
  next => cases accepted; rfl
  next => cases accepted

theorem eq_of_array {context : String} {part : Part (List Json) json}
    (accepted : array context json = .ok part) : json = .array part.val := by
  unfold array at accepted
  split at accepted
  next => cases accepted; rfl
  next => cases accepted

theorem member_eq_ok {context : String} {part : Part Json members} :
    member members name context = .ok part ↔ members.last? name = some part.val := by
  constructor
  · intro accepted
    unfold member at accepted
    split at accepted
    next inner found =>
      cases accepted
      rw [← Json.Members.map_part?, found]
      rfl
    next => cases accepted
  · intro found
    exact member_of_last? found context

private theorem string_eq_ok {context s : String} :
    string context json = .ok s ↔ json = .string s := by
  cases json <;> simp [string, Json.text?]

theorem textMember_eq_ok {context s : String} :
    textMember members name context = .ok s ↔ members.last? name = some (.string s) := by
  simp only [textMember, bind_eq_ok, member_eq_ok, string_eq_ok]
  exact ⟨fun ⟨part, found, same⟩ => same ▸ found,
    fun found => ⟨⟨_, Json.Members.sizeOf_last? found⟩, found, rfl⟩⟩

theorem textMember_of_last? {s : String} (found : members.last? name = some (.string s))
    (context : String) : textMember members name context = .ok s := by
  rw [textMember, member_of_last? found]
  rfl

/-- The member says nothing: it is missing, null, or an empty text. -/
inductive Unstated (members : Json.Members) (name : String) : Prop
  | missing (missing : members.last? name = none)
  | null (found : members.last? name = some .null)
  | empty (found : members.last? name = some (.string ""))

theorem stated?_of_unstated (unstated : Unstated members name) : stated? members name = none := by
  unfold stated?
  cases unstated with
  | missing missing => rw [Json.Members.part?_of_missing missing]
  | null found => rw [Json.Members.part?_of_last? found]
  | empty found =>
    rw [Json.Members.part?_of_last? found]
    rfl

theorem stated?_of_last? (found : members.last? name = some json) (present : json ≠ .null)
    (stated : json.text? ≠ some "") :
    stated? members name = some ⟨json, Json.Members.sizeOf_last? found⟩ := by
  unfold stated?
  rw [Json.Members.part?_of_last? found]
  split
  next same => cases same
  next same => cases same; exact absurd rfl present
  next part _ same =>
    cases same
    rw [if_neg stated]

theorem last?_of_stated? {part : Part Json members} (found : stated? members name = some part) :
    members.last? name = some part.val := by
  unfold stated? at found
  rw [← Json.Members.map_part?]
  split at found
  next => cases found
  next => cases found
  next inner _ same =>
    split at found
    next => cases found
    next =>
      cases found
      rw [same]
      rfl

theorem last?_of_items? {part : Part (List Json) members}
    (found : items? members name = some part) :
    members.last? name = some (.array part.val) := by
  unfold items? at found
  rw [← Json.Members.map_part?]
  split at found
  next same =>
    cases found
    rw [same]
    rfl
  next => cases found

theorem items?_of_last? {items : List Json} (found : members.last? name = some (.array items)) :
    ∃ smaller, items? members name = some ⟨items, smaller⟩ := by
  unfold items?
  rw [Json.Members.part?_of_last? found]
  exact ⟨_, rfl⟩

theorem textOrNone_of_last? {s : String} (found : members.last? name = some (.string s)) :
    textOrNone members name = s := by
  rw [textOrNone, found]
  rfl

end JsonCdc

end CadenceWire
