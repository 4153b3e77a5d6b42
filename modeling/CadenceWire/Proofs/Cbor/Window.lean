import CadenceWire.Cbor.Reader
import CadenceWire.Proofs.Reading
import CadenceWire.Proofs.Text.Utf8

/-!
Text that is read in windows. A character that a window cuts off waits for the next window, so what
is read does not depend on where the windows end.
-/
namespace CadenceWire.Cbor.Reader

/-- Reads text of the given length in windows of the given size, behind the bytes that wait. -/
def windows (size place : Nat) (carried : List UInt8) (left : Nat) : Reader String := fun input =>
  if _ : 0 < left ∧ carried.length < size then do
    let (next, rest) ← take (min (size - carried.length) left) input
    let bytes := carried ++ next
    let some count := waiting? bytes | throw (.malformed place)
    let some first := Utf8.decode? (bytes.take (bytes.length - count)) | throw (.malformed place)
    let (others, rest) ← windows size place (bytes.drop (bytes.length - count))
      (left - min (size - carried.length) left) rest
    return (first ++ others, rest)
  else if carried.isEmpty then .ok ("", input)
  else .error (.malformed place)
termination_by left

private theorem waiting?_eq_some {bytes : List UInt8} {count : Nat}
    (found : waiting? bytes = some count) :
    count < 4 ∧ ∃ s, bytes.take (bytes.length - count) = Utf8.encode s ∧
      (bytes.drop (bytes.length - count) ≠ [] →
        Utf8.decode? (bytes.drop (bytes.length - count)) = none) := by
  obtain ⟨valid, few, least⟩ := List.find?_range_eq_some.1 found
  obtain ⟨s, decoded⟩ := Option.isSome_iff_exists.1 valid
  have text := Utf8.decode?_eq_some_iff.1 decoded
  refine ⟨List.mem_range.1 few, s, text, ?_⟩
  intro waits
  cases behind : Utf8.decode? (bytes.drop (bytes.length - count)) with
  | none => rfl
  | some t =>
    -- Were the bytes that wait a text, nothing would wait.
    have whole : bytes = Utf8.encode (s ++ t) := by
      rw [Utf8.encode_append, ← text, ← Utf8.decode?_eq_some_iff.1 behind, List.take_append_drop]
    have some' : 0 < count := by
      rcases Nat.eq_zero_or_pos count with rfl | positive
      · simp at waits
      · exact positive
    have none' := least 0 some'
    rw [Nat.sub_zero, List.take_length, whole, Utf8.decode?_encode] at none'
    cases none'

private theorem decode?_of_waiting?_eq_none {bytes : List UInt8} (found : waiting? bytes = none)
    (behind : List UInt8) : Utf8.decode? (bytes ++ behind) = none := by
  cases decoded : Utf8.decode? (bytes ++ behind) with
  | none => rfl
  | some t =>
    obtain ⟨s, rest, rfl, few⟩ :=
      Utf8.exists_of_append_eq_encode (Utf8.decode?_eq_some_iff.1 decoded)
    have invalid := List.find?_eq_none.1 found rest.length (List.mem_range.2 few)
    rw [List.length_append, Nat.add_sub_cancel, List.take_left, Utf8.decode?_encode] at invalid
    exact absurd rfl invalid

private theorem decode?_encode_append (s : String) (behind : List UInt8) :
    Utf8.decode? (Utf8.encode s ++ behind) = (Utf8.decode? behind).map (s ++ ·) := by
  cases decoded : Utf8.decode? behind with
  | some t =>
    rw [Utf8.decode?_eq_some_iff.1 decoded, ← Utf8.encode_append, Utf8.decode?_encode]
    rfl
  | none =>
    cases whole : Utf8.decode? (Utf8.encode s ++ behind) with
    | none => rfl
    | some t =>
      obtain ⟨u, rfl⟩ := Utf8.exists_of_encode_append (Utf8.decode?_eq_some_iff.1 whole)
      rw [Utf8.decode?_encode] at decoded
      cases decoded

/-- What a text of which all bytes are there is read as. -/
private def whole (place left : Nat) (carried input : List UInt8) :
    Except Fault (String × List UInt8) :=
  match Utf8.decode? (carried ++ input.take left) with
  | some s => .ok (s, input.drop left)
  | none => .error (.malformed place)

private theorem whole_add {place next more : Nat} {carried input waiting : List UInt8} {s : String}
    (front : carried ++ input.take next = Utf8.encode s ++ waiting) :
    whole place (next + more) carried input =
      (whole place more waiting (input.drop next)).map fun (t, rest) => (s ++ t, rest) := by
  have bytes : carried ++ input.take (next + more) =
      Utf8.encode s ++ (waiting ++ (input.drop next).take more) := by
    rw [List.take_add, ← List.append_assoc, front, List.append_assoc]
  simp only [whole, bytes, decode?_encode_append, List.drop_drop]
  cases Utf8.decode? (waiting ++ (input.drop next).take more) <;> rfl

/-- Text of which all bytes are there is read as a whole. -/
theorem windows_of_enough {size : Nat} (wide : 4 ≤ size) (place : Nat) {left : Nat}
    {carried input : List UInt8} (few : carried.length < 4)
    (cut : carried ≠ [] → Utf8.decode? carried = none) (enough : left ≤ input.length) :
    windows size place carried left input = whole place left carried input := by
  induction left using Nat.strongRecOn generalizing carried input with
  | ind left ih =>
    by_cases finished : left = 0
    · subst finished
      unfold windows
      rw [dif_neg (by omega), whole, List.take_zero, List.append_nil, List.drop_zero]
      cases carried with
      | nil => rfl
      | cons first others => rw [cut (by simp)]; rfl
    · unfold windows
      rw [dif_pos (by omega)]
      obtain ⟨next, same⟩ : ∃ next, next = min (size - carried.length) left := ⟨_, rfl⟩
      obtain ⟨more, rfl⟩ : ∃ more, left = next + more := ⟨left - next, by omega⟩
      have taken : take next input = .ok (input.take next, input.drop next) := by
        rw [take, if_pos (by omega), List.splitAt_eq]
      simp only [← same, taken, bind, Except.bind, Nat.add_sub_cancel_left]
      cases found : waiting? (carried ++ input.take next) with
      | none =>
        have invalid := decode?_of_waiting?_eq_none found ((input.drop next).take more)
        rw [List.append_assoc, ← List.take_add] at invalid
        rw [whole, invalid]
        rfl
      | some count =>
        obtain ⟨short, s, text, waits⟩ := waiting?_eq_some found
        have front := (List.take_append_drop ((carried ++ input.take next).length - count)
          (carried ++ input.take next)).symm
        rw [text] at front
        have few : ((carried ++ input.take next).drop
            ((carried ++ input.take next).length - count)).length < 4 := by
          rw [List.length_drop]
          omega
        have behind : more ≤ (input.drop next).length := by
          rw [List.length_drop]
          omega
        have others := ih more (by omega) few waits behind
        rw [whole_add front]
        simp only [text, Utf8.decode?_encode, others]
        cases whole place more _ _ <;> rfl

/-- Text that is cut short is malformed if a complete window goes wrong. -/
theorem windows_of_short (place : Nat) {left : Nat} {carried input : List UInt8}
    (few : carried.length < 4) (short : input.length < left) :
    windows window place carried left input =
      .error (if goesWrong carried input then .malformed place else .endOfInput) := by
  induction left using Nat.strongRecOn generalizing carried input with
  | ind left ih =>
    have room : carried.length < window := Nat.lt_trans few (by decide)
    unfold windows goesWrong
    rw [dif_pos ⟨by omega, room⟩]
    by_cases complete : window - carried.length ≤ input.length
    · have next : min (window - carried.length) left = window - carried.length := by omega
      have taken : take (window - carried.length) input =
          .ok (input.take (window - carried.length), input.drop (window - carried.length)) := by
        rw [take, if_pos complete, List.splitAt_eq]
      rw [dif_pos ⟨room, complete⟩]
      simp only [next, taken, bind, Except.bind]
      rcases Option.eq_none_or_eq_some (waiting? (carried ++ input.take (window - carried.length)))
        with found | ⟨count, found⟩
      · simp only [found]
        rfl
      · obtain ⟨little, s, text, -⟩ := waiting?_eq_some found
        have few : ((carried ++ input.take (window - carried.length)).drop
            ((carried ++ input.take (window - carried.length)).length - count)).length < 4 := by
          rw [List.length_drop]
          omega
        have behind : (input.drop (window - carried.length)).length <
            left - (window - carried.length) := by
          rw [List.length_drop]
          omega
        have others := ih (left - (window - carried.length)) (by omega) few behind
        simp only [found, text, Utf8.decode?_encode, others]
    · have taken : take (min (window - carried.length) left) input = .error .endOfInput := by
        rw [take, if_neg (by omega)]
      rw [dif_neg (by omega), taken]
      rfl

/-- Of text of which all bytes are there, the windows may have any size that holds a character. -/
theorem windows_eq_of_enough {size : Nat} (wide : 4 ≤ size) (place : Nat) {length : Nat}
    {input : List UInt8} (enough : length ≤ input.length) :
    windows size place [] length input = textString.content place length input := by
  have content : textString.content place length input = whole place length [] input :=
    if_pos enough
  rw [content]
  exact windows_of_enough wide place (by decide) (by simp) enough

theorem windows_eq (place length : Nat) (input : List UInt8) :
    windows window place [] length input = textString.content place length input := by
  by_cases enough : length ≤ input.length
  · exact windows_eq_of_enough (by decide) place enough
  · rw [windows_of_short place (by decide) (Nat.lt_of_not_le enough)]
    simp only [textString, if_neg enough]

end CadenceWire.Cbor.Reader
