import CadenceWire.Text.Utf8
import Mathlib.Algebra.Order.BigOperators.Group.List
import Mathlib.Algebra.Order.Group.Nat

/-!
The bytes of a text are those of its characters, one behind the other. A character takes from one to
four of them.
-/
namespace CadenceWire.Utf8

theorem encode_ofList (chars : List Char) :
    encode (String.ofList chars) = chars.flatMap String.utf8EncodeChar := by
  simp [encode, String.toByteArray_ofList, List.utf8Encode]

theorem encode_of_single {chars : List Char} (single : ∀ c ∈ chars, c.utf8Size = 1) :
    encode (String.ofList chars) = chars.map fun c => UInt8.ofNat c.toNat := by
  rw [encode_ofList]
  induction chars with
  | nil => rfl
  | cons c rest ih =>
    obtain ⟨one, others⟩ := List.forall_mem_cons.1 single
    have small : c.val.toNat ≤ 127 := UInt32.le_iff_toNat_le.1 (Char.utf8Size_eq_one_iff.1 one)
    have byte : String.utf8EncodeChar c = [UInt8.ofNat c.toNat] := if_pos small
    rw [List.flatMap_cons, byte, ih others]
    rfl

/-- Text that is not of single bytes takes more of them than it has characters. -/
theorem length_lt_encode {chars : List Char} (multiple : ∃ c ∈ chars, 1 < c.utf8Size) :
    chars.length < (encode (String.ofList chars)).length := by
  have more := List.sum_lt_sum (fun _ => 1) Char.utf8Size (fun c _ => c.utf8Size_pos) multiple
  rw [encode_ofList, List.length_flatMap]
  simpa [String.length_utf8EncodeChar] using more

theorem encode_append (s t : String) : encode (s ++ t) = encode s ++ encode t := by
  simp [encode, String.toByteArray_append]

/-- What lies behind a text within a text is a text. -/
theorem exists_of_encode_append {s t : String} {tail : List UInt8}
    (same : encode s ++ tail = encode t) : ∃ u, tail = encode u := by
  have bytes : s.toList.utf8Encode ++ tail.toByteArray = t.toList.utf8Encode := by
    rw [String.utf8Encode_toList, String.utf8Encode_toList]
    apply ByteArray.ext
    apply Array.toList_inj.1
    simpa [encode] using same
  obtain ⟨chars, found⟩ := List.isPrefix_of_utf8Encode_append_eq_utf8Encode _ bytes
  refine ⟨String.ofList chars, ?_⟩
  have split : encode s ++ encode (String.ofList chars) = encode t := by
    rw [← encode_append, ← String.ofList_toList (s := t), ← found, String.ofList_append,
      String.ofList_toList]
  exact List.append_cancel_left (same.trans split.symm)

/-- Text that is cut off anywhere is text up to a character that is cut off. -/
theorem exists_of_append_eq_encode {front behind : List UInt8} {t : String}
    (same : front ++ behind = encode t) :
    ∃ u rest, front = encode u ++ rest ∧ rest.length < 4 := by
  obtain ⟨chars, rfl⟩ : ∃ chars, t = String.ofList chars := ⟨_, String.ofList_toList.symm⟩
  rw [encode_ofList] at same
  induction chars generalizing front with
  | nil =>
    obtain ⟨rfl, -⟩ := List.append_eq_nil_iff.1 same
    exact ⟨"", [], rfl, by decide⟩
  | cons c chars ih =>
    have single : encode (String.ofList [c]) = String.utf8EncodeChar c := by
      rw [encode_ofList, List.flatMap_singleton]
    rw [List.flatMap_cons] at same
    by_cases short : front.length < 4
    · exact ⟨"", front, rfl, short⟩
    · rcases List.append_eq_append_iff.1 same with ⟨missing, cut, -⟩ | ⟨front, rfl, more⟩
      · have size := congrArg List.length cut
        rw [String.length_utf8EncodeChar, List.length_append] at size
        have most := c.utf8Size_le_four
        obtain rfl : missing = [] := List.length_eq_zero_iff.1 (by omega)
        rw [List.append_nil] at cut
        exact ⟨String.ofList [c], [], by rw [single, cut, List.append_nil], by decide⟩
      · obtain ⟨u, rest, rfl, cut⟩ := ih more.symm
        refine ⟨String.ofList [c] ++ u, rest, ?_, cut⟩
        rw [encode_append, single, List.append_assoc]

end CadenceWire.Utf8
