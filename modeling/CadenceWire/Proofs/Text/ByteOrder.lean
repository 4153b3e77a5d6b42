import CadenceWire.Proofs.Text.Utf8
import Mathlib.Tactic.SplitIfs

/-!
The order of texts. Code points, of which texts are compared one by one, order them just as their
bytes do.
-/
namespace CadenceWire.Utf8

private theorem ofNat_lt_iff {m n : Nat} (small : m < 256) (small' : n < 256) :
    UInt8.ofNat m < UInt8.ofNat n ↔ m < n := by
  rw [UInt8.lt_iff_toNat_lt, UInt8.toNat_ofNat', UInt8.toNat_ofNat', Nat.mod_eq_of_lt small,
    Nat.mod_eq_of_lt small']

private theorem ofNat_eq_iff {m n : Nat} (small : m < 256) (small' : n < 256) :
    UInt8.ofNat m = UInt8.ofNat n ↔ m = n := by
  rw [← UInt8.toNat_inj, UInt8.toNat_ofNat', UInt8.toNat_ofNat', Nat.mod_eq_of_lt small,
    Nat.mod_eq_of_lt small']

/-- Numbers compare by their digits of six bits, of which the highest comes first. -/
theorem lt_digits {m n : Nat} (less : m < n) :
    m / 262144 < n / 262144 ∨ m / 262144 = n / 262144 ∧ (m / 4096 % 64 < n / 4096 % 64 ∨
      m / 4096 % 64 = n / 4096 % 64 ∧ (m / 64 % 64 < n / 64 % 64 ∨
        m / 64 % 64 = n / 64 % 64 ∧ m % 64 < n % 64)) := by
  have last (m n : Nat) (less : m < n) : m / 64 < n / 64 ∨ m / 64 = n / 64 ∧ m % 64 < n % 64 := by
    omega
  have shifted (n : Nat) : n / 64 / 64 = n / 4096 ∧ n / 4096 / 64 = n / 262144 :=
    ⟨Nat.div_div_eq_div_mul n 64 64, Nat.div_div_eq_div_mul n 4096 64⟩
  have left := shifted m
  have right := shifted n
  rcases last m n less with higher | ⟨same, digit⟩
  · rcases last _ _ higher with higher | ⟨same, digit⟩
    · rw [left.1, right.1] at higher
      rcases last _ _ higher with higher | ⟨same, digit⟩
      · rw [left.2, right.2] at higher
        exact .inl higher
      · rw [left.2, right.2] at same
        exact .inr ⟨same, .inl digit⟩
    · omega
  · omega

private theorem utf8EncodeChar_lt {c d : Char} (less : c < d) (front back : List UInt8) :
    String.utf8EncodeChar c ++ front < String.utf8EncodeChar d ++ back := by
  have order : c.val.toNat < d.val.toNat := UInt32.lt_iff_toNat_lt.1 less
  have bound : d.val.toNat < 0x110000 := by
    rcases d.valid with small | large
    · exact Nat.lt_trans small (by decide)
    · exact large.2
  unfold String.utf8EncodeChar
  generalize c.val.toNat = m at *
  generalize d.val.toNat = n at *
  have digits := lt_digits order
  -- The first byte grows with the number of bytes; for one number of bytes the digits decide.
  dsimp only
  split_ifs <;>
    simp (disch := omega) only [List.cons_append, List.nil_append, List.cons_lt_cons_iff,
      ofNat_lt_iff, ofNat_eq_iff, Nat.mod_eq_of_lt]
  all_goals omega

private theorem flatMap_lt {cs ds : List Char} (less : cs < ds) :
    cs.flatMap String.utf8EncodeChar < ds.flatMap String.utf8EncodeChar := by
  induction less with
  | @nil d ds =>
    obtain ⟨b, rest, bytes⟩ := List.exists_cons_of_ne_nil (String.utf8EncodeChar_ne_nil (c := d))
    rw [List.flatMap_nil, List.flatMap_cons, bytes]
    exact List.nil_lt_cons _ _
  | rel first =>
    rw [List.flatMap_cons, List.flatMap_cons]
    exact utf8EncodeChar_lt first _ _
  | cons _ ih =>
    rw [List.flatMap_cons, List.flatMap_cons]
    exact List.append_left_lt ih

theorem encode_lt {s t : String} (less : s < t) : encode s < encode t := by
  rw [← String.ofList_toList (s := s), ← String.ofList_toList (s := t), encode_ofList,
    encode_ofList]
  exact flatMap_lt (String.lt_iff.1 less)

/-- Texts are in the order of their bytes. -/
theorem encode_lt_iff {s t : String} : encode s < encode t ↔ s < t := by
  refine ⟨fun less => String.not_le.1 fun le => ?_, encode_lt⟩
  by_cases same : t = s
  · subst same
    exact List.lt_irrefl _ less
  · have more : t < s := String.not_le.1 fun ge => same (String.le_antisymm le ge)
    exact List.lt_asymm less (encode_lt more)

end CadenceWire.Utf8
