import CadenceWire.Proofs.Numeric.Shortest
import CadenceWire.Proofs.Text.Written

/-!
The text of a decimal and of a magnitude: unless it has an exponent, it has a point and as few
places behind it as the number can be written with.
-/
namespace CadenceWire

open Binary64 (OnGrid)

namespace DecimalFloat

variable (d : DecimalFloat)

private theorem exists_stripped : ∃ kept zeros,
    Nat.toDigits 10 d.digits = kept ++ List.replicate zeros '0' ∧
      d.stripped = (kept, d.exponent + zeros) ∧ kept.getLast? ≠ some '0' := by
  have split := List.takeWhile_append_dropWhile (p := (· = '0'))
    (l := (Nat.toDigits 10 d.digits).reverse)
  have last := List.head?_dropWhile_not (· = '0') (Nat.toDigits 10 d.digits).reverse
  have zeros := List.eq_replicate_of_mem fun c (member : c ∈ List.takeWhile (· = '0')
    (Nat.toDigits 10 d.digits).reverse) =>
      of_decide_eq_true (List.all_eq_true.1 List.all_takeWhile c member)
  have length := congrArg List.length split
  refine ⟨((Nat.toDigits 10 d.digits).reverse.dropWhile (· = '0')).reverse,
    ((Nat.toDigits 10 d.digits).reverse.takeWhile (· = '0')).length, ?_, ?_, ?_⟩
  · rw [← List.reverse_inj, List.reverse_append, List.reverse_replicate, List.reverse_reverse,
      ← zeros, split]
  · rw [List.length_append] at length
    simp only [stripped, Prod.mk.injEq, true_and]
    omega
  · rw [List.getLast?_reverse]
    intro zero
    rw [zero] at last
    simp at last

private theorem stripped_spec (above : 0 < d.digits) :
    d.stripped.1 ≠ [] ∧ (∀ c ∈ d.stripped.1, c.isDigit = true) ∧
      ¬ 10 ∣ Nat.ofDigitChars 10 d.stripped.1 0 ∧
      d.value = Nat.ofDigitChars 10 d.stripped.1 0 * 10 ^ d.stripped.2 := by
  obtain ⟨kept, zeros, split, stripped, last⟩ := d.exists_stripped
  have digits := Decimal.isDigit_toDigits d.digits
  have number := Nat.ofDigitChars_ten_toDigits (n := d.digits)
  rw [split] at digits
  rw [split, Nat.ofDigitChars_append, Nat.ofDigitChars_replicate_zero] at number
  have written : kept ≠ [] := by
    rintro rfl
    rw [Nat.ofDigitChars_nil] at number
    omega
  rw [stripped]
  refine ⟨written, fun c member => digits c (List.mem_append_left _ member), ?_, ?_⟩
  · obtain ⟨front, c, rfl⟩ := (List.eq_nil_or_concat kept).resolve_left written
    have digit := Char.isDigit_iff_toNat.1 (digits c (by simp))
    have zero : c ≠ '0' := by simpa using last
    have other : c.toNat ≠ '0'.toNat := fun same => zero (Char.toNat_inj.1 same)
    rw [List.concat_eq_append, Nat.ofDigitChars_append, Nat.ofDigitChars_cons,
      Nat.ofDigitChars_nil]
    change 48 ≤ c.toNat ∧ c.toNat ≤ 57 at digit
    change c.toNat ≠ 48 at other
    change ¬ 10 ∣ 10 * Nat.ofDigitChars 10 front 0 + (c.toNat - 48)
    omega
  · dsimp only
    rw [value, ← number, zpow_add₀ (by norm_num), zpow_natCast]
    push_cast
    ring

/-- Where the first digit of the number stands. -/
theorem lead_spec (above : 0 < d.digits) :
    (10 : ℚ) ^ (d.stripped.1.length + d.stripped.2 - 1) ≤ d.value ∧
      d.value < 10 ^ (d.stripped.1.length + d.stripped.2) := by
  obtain ⟨kept, zeros, split, stripped, -⟩ := d.exists_stripped
  obtain ⟨least, most⟩ := Binary64.length_toDigits_spec above
  have length := congrArg List.length split
  rw [List.length_append, List.length_replicate] at length
  have written : 0 < (Nat.toDigits 10 d.digits).length :=
    List.length_pos_of_ne_nil Nat.toDigits_ne_nil
  have place : (kept.length : ℤ) + (d.exponent + zeros) =
      (Nat.toDigits 10 d.digits).length + d.exponent := by omega
  have least' : (10 : ℚ) ^ ((Nat.toDigits 10 d.digits).length - 1) ≤ d.digits := by
    exact_mod_cast least
  have most' : (d.digits : ℚ) < 10 ^ (Nat.toDigits 10 d.digits).length := by exact_mod_cast most
  have step : (0 : ℚ) < 10 ^ d.exponent := by positivity
  rw [stripped, place, value]
  constructor
  · rw [show ((Nat.toDigits 10 d.digits).length : ℤ) + d.exponent - 1 =
        ((Nat.toDigits 10 d.digits).length - 1 : ℕ) + d.exponent by omega,
      zpow_add₀ (by norm_num), zpow_natCast]
    exact mul_le_mul_of_nonneg_right least' step.le
  · rw [zpow_add₀ (by norm_num), zpow_natCast]
    exact mul_lt_mul_of_pos_right most' step

/-- A number is on no grid wider than its last digit. -/
theorem places_le {n length places : ℕ} (last : ¬ 10 ∣ n)
    (on : OnGrid (-places) ((n : ℚ) * 10 ^ (-length : ℤ))) : length ≤ places := by
  obtain ⟨k, same⟩ := on
  by_contra more
  obtain ⟨extra, rfl⟩ := Nat.exists_eq_add_of_lt (Nat.lt_of_not_le more)
  refine last ⟨k * 10 ^ extra, ?_⟩
  have scaled : (n : ℚ) = k * 10 ^ (extra + 1) := by
    calc (n : ℚ) = n * 10 ^ (-(places + extra + 1 : ℕ) : ℤ) * 10 ^ (places + extra + 1) := by
          rw [zpow_neg, zpow_natCast]
          field_simp
      _ = k * 10 ^ (-places : ℤ) * 10 ^ (places + extra + 1) := by rw [same]
      _ = k * 10 ^ (extra + 1) := by
          rw [zpow_neg, zpow_natCast, Nat.add_assoc, pow_add]
          field_simp
  have scaled' : n = k * 10 ^ (extra + 1) := by exact_mod_cast scaled
  rw [scaled', Nat.pow_succ]
  ring

/-- The literal denotes the number, and has no more places behind its point than it needs. -/
structure Writes (l : Decimal.Written) (r : ℚ) : Prop where
  unsigned : l.negative = false
  point : l.fraction ≠ []
  value : (l.digits : ℚ) = r * 10 ^ l.fraction.length
  short : ∀ places : ℕ, 0 < places → OnGrid (-places) r → l.fraction.length ≤ places

section digits

variable {digits : List Char} (digit : ∀ c ∈ digits, c.isDigit = true)

include digit

private theorem writes_whole (written : digits ≠ []) (zeros : ℕ) : ∃ l : Decimal.Written,
    l.text = digits ++ List.replicate zeros '0' ++ ['.', '0'] ∧
      Writes l (Nat.ofDigitChars 10 digits 0 * 10 ^ (zeros : ℤ)) := by
  refine ⟨⟨false, digits ++ List.replicate zeros '0', ['0'], by simp [written], ?_⟩, ?_,
    rfl, by simp, ?_, fun _ some_places _ => some_places⟩
  · intro c member
    simp only [List.mem_append, List.mem_replicate, List.mem_singleton] at member
    rcases member with (member | ⟨-, rfl⟩) | rfl
    · exact digit c member
    · rfl
    · rfl
  · simp [Decimal.Written.text, Decimal.Written.unsigned]
  · rw [Decimal.Written.digits, Nat.ofDigitChars_append, Nat.ofDigitChars_append,
      Nat.ofDigitChars_replicate_zero, Nat.ofDigitChars_cons, Nat.ofDigitChars_nil, zpow_natCast]
    change ((10 * (10 ^ zeros * Nat.ofDigitChars 10 digits 0) + 0 : ℕ) : ℚ) = _ * 10 ^ 1
    push_cast
    ring

/-- The point stands among the digits or in front of them all. -/
theorem writes_part (last : ¬ 10 ∣ Nat.ofDigitChars 10 digits 0) {whole fraction : List Char}
    {zeros : ℕ} (split : whole ++ fraction = List.replicate zeros '0' ++ digits)
    (front : whole ≠ []) (point : fraction ≠ []) : ∃ l : Decimal.Written,
      l.text = whole ++ '.' :: fraction ∧
        Writes l (Nat.ofDigitChars 10 digits 0 * 10 ^ (-fraction.length : ℤ)) := by
  have all (c : Char) (member : c ∈ whole ++ fraction) : c.isDigit = true := by
    rw [split, List.mem_append, List.mem_replicate] at member
    rcases member with ⟨-, rfl⟩ | member
    · rfl
    · exact digit c member
  refine ⟨⟨false, whole, fraction, front, all⟩, ?_, rfl, point, ?_, fun _ _ => places_le last⟩
  · simp [Decimal.Written.text, Decimal.Written.unsigned, point]
  · have number : Nat.ofDigitChars 10 (whole ++ fraction) 0 = Nat.ofDigitChars 10 digits 0 := by
      rw [split, Nat.ofDigitChars_append, Nat.ofDigitChars_replicate_zero, Nat.mul_zero]
    rw [Decimal.Written.digits, number, zpow_neg, zpow_natCast]
    field_simp

end digits

/-- Text without an exponent is a literal of the number, and no other text has one than that of a
small or a large number. -/
theorem render_spec (above : 0 < d.digits) :
    (d.value < 1 ∨ 10 ^ 16 ≤ d.value) ∧ 'e' ∈ d.render.toList ∨
      ∃ l : Decimal.Written, l.text = d.render.toList ∧ Writes l d.value := by
  obtain ⟨written, digit, last, value⟩ := d.stripped_spec above
  obtain ⟨low, high⟩ := d.lead_spec above
  unfold render
  generalize d.stripped = stripped at *
  obtain ⟨digits, exponent⟩ := stripped
  dsimp only at *
  have length := List.length_pos_of_ne_nil written
  split
  next =>
    right
    split
    next whole =>
      obtain ⟨zeros, rfl⟩ := Int.eq_ofNat_of_zero_le whole
      obtain ⟨l, text, writes⟩ := writes_whole digit written zeros
      exact ⟨l, by simp [text], value ▸ writes⟩
    next part =>
      split
      next inside =>
        generalize place : ((digits.length : ℤ) + exponent - 1 + 1).toNat = first
        have behind : exponent = -(digits.drop first).length := by
          rw [List.length_drop]
          omega
        have split : digits.take first ++ digits.drop first = List.replicate 0 '0' ++ digits :=
          List.take_append_drop _ _
        have front : digits.take first ≠ [] := by
          rw [← List.length_pos_iff, List.length_take]
          omega
        have point : digits.drop first ≠ [] := by
          rw [← List.length_pos_iff]
          omega
        obtain ⟨l, text, writes⟩ := writes_part digit last split front point
        exact ⟨l, by simp [text], by rwa [← behind, ← value] at writes⟩
      next outside =>
        generalize place : (-((digits.length : ℤ) + exponent - 1) - 1).toNat = more
        have behind : exponent = -(List.replicate more '0' ++ digits).length := by
          rw [List.length_append, List.length_replicate]
          omega
        have split : ['0'] ++ (List.replicate more '0' ++ digits) =
            List.replicate (more + 1) '0' ++ digits := rfl
        have point := List.append_ne_nil_of_right_ne_nil (List.replicate more '0') written
        obtain ⟨l, text, writes⟩ := writes_part digit last split (by simp) point
        exact ⟨l, by simp [text], by rwa [← behind, ← value] at writes⟩
  next far =>
    left
    refine ⟨?_, by simp⟩
    simp only [plainFrom, plainBelow] at far
    rcases lt_or_ge ((digits.length : ℤ) + exponent - 1) (-5) with small | large
    · exact .inl (high.trans_le (zpow_le_one_of_nonpos₀ (by norm_num) (by omega)))
    · refine .inr (le_trans ?_ low)
      rw [← zpow_natCast]
      exact zpow_le_zpow_right₀ (by norm_num) (by omega)

private theorem exists_mark : '.' ∈ d.render.toList ∨ 'e' ∈ d.render.toList := by
  unfold render
  generalize d.stripped = stripped
  dsimp only
  split
  next =>
    left
    split
    next => simp
    next =>
      split <;> simp
  next => right; simp

end DecimalFloat

namespace Binary64

variable {x : Binary64}

/-- Text of a magnitude is never that of an integer. -/
theorem signed?_text (sign : List Char) : Decimal.signed? (sign ++ x.text.toList) = none := by
  have mark : '.' ∈ x.text.toList ∨ 'e' ∈ x.text.toList := by
    rw [text]
    split
    next => exact .inl (by decide)
    next => exact x.shortest.exists_mark
  rcases mark with point | exponent
  · exact Decimal.signed?_foreign (by decide) (List.mem_append_right _ point)
  · exact Decimal.signed?_foreign (by decide) (List.mem_append_right _ exponent)

private theorem scale?_zero {power : ℤ} (found : scale? 0 power = some x) : x = zero := by
  have whole : ofNat? 0 = some zero := rfl
  simp only [scale?, whole, Option.bind_eq_bind, Option.bind_some, if_true] at found
  exact (Option.some.inj found).symm

/-- What is written of a literal that was rounded. It has no exponent unless the whole part is
zero. -/
theorem exists_written {l : Decimal.Written} (point : l.fraction ≠ [] ∨ l.digits = 0)
    (few : l.fraction.length ≤ FixedPoint.places)
    (separates : Separates l.fraction.length (l.digits / 10 ^ l.fraction.length))
    (found : scale? l.digits (-l.fraction.length) = some x) :
    l.digits / 10 ^ l.fraction.length = 0 ∧ 'e' ∈ x.text.toList ∨
      ∃ l' : Decimal.Written, l'.text = x.text.toList ∧ l'.negative = false ∧
        l'.fraction.length ≤ FixedPoint.places ∧
        l'.digits * 10 ^ l.fraction.length = l.digits * 10 ^ l'.fraction.length := by
  rcases Nat.eq_zero_or_pos l.digits with zero | above
  · right
    rw [zero] at found
    rw [scale?_zero found]
    refine ⟨⟨false, ['0'], ['0'], by decide, List.all_eq_true.1 (by decide)⟩, rfl, rfl,
      by decide, ?_⟩
    rw [zero, Nat.zero_mul]
    exact Nat.zero_mul _
  · have some_places : 0 < l.fraction.length :=
      List.length_pos_of_ne_nil (point.resolve_right above.ne')
    have rounded :=
      roundedFrom_of_scale? above separates.lt_pow some_places (few.trans (by decide)) found
    have value := rounded.shortest_value separates
    have power : (0 : ℚ) < 10 ^ l.fraction.length := by positivity
    have some_digits : 0 < x.shortest.digits := by
      have positive : 0 < x.shortest.value := by
        rw [value]
        exact div_pos (Nat.cast_pos.2 above) power
      by_contra none
      rw [DecimalFloat.value, Nat.eq_zero_of_not_pos none, Nat.cast_zero, zero_mul] at positive
      exact positive.false
    have significand : x.significand ≠ 0 := by
      have least := rounded.1.least
      omega
    rw [text, if_neg significand]
    rcases x.shortest.render_spec some_digits with ⟨small | large, exponent⟩ | ⟨l', text, writes⟩
    · rw [value, div_lt_one power] at small
      exact .inl ⟨Nat.div_eq_of_lt (by exact_mod_cast small), exponent⟩
    · exfalso
      rw [value, le_div_iff₀ power] at large
      have large' : 10 ^ 16 * 10 ^ l.fraction.length ≤ l.digits := by exact_mod_cast large
      have least := Nat.le_mul_of_pos_right (10 ^ 16) (Nat.pow_pos (n := l.fraction.length)
        (show 0 < 10 by decide))
      have most := separates.lt_pow
      omega
    · have grid : OnGrid (-l.fraction.length) x.shortest.value :=
        ⟨l.digits, by rw [value, zpow_neg, zpow_natCast, div_eq_mul_inv]⟩
      have short := writes.short l.fraction.length some_places grid
      refine .inr ⟨l', text, writes.unsigned, short.trans few, ?_⟩
      have same := writes.value
      rw [value, div_mul_eq_mul_div, eq_div_iff power.ne'] at same
      exact_mod_cast same

/-- What is written of a literal that was rounded reads as the literal, or does not read at all, for
which the whole part is zero. -/
theorem scaled?_text {l : Decimal.Written} (point : l.fraction ≠ [] ∨ l.digits = 0)
    (few : l.fraction.length ≤ FixedPoint.places)
    (separates : Separates l.fraction.length (l.digits / 10 ^ l.fraction.length))
    (found : scale? l.digits (-l.fraction.length) = some x) :
    FixedPoint.scaled? ((if l.negative then ['-'] else []) ++ x.text.toList) =
        FixedPoint.scaled? l.text ∨
      l.digits / 10 ^ l.fraction.length = 0 ∧
        FixedPoint.scaled? ((if l.negative then ['-'] else []) ++ x.text.toList) = none := by
  rcases exists_written point few separates found with
    ⟨zero, exponent⟩ | ⟨l', text, unsigned, few', same⟩
  · have member := List.mem_append_right (if l.negative then ['-'] else []) exponent
    exact .inr ⟨zero, Decimal.scaled?_foreign (by decide) (by decide) member⟩
  · left
    have signed : (if l.negative then ['-'] else []) ++ x.text.toList =
        (l'.signed l.negative).text := by
      rw [← text, Decimal.Written.text, unsigned]
      rfl
    rw [signed]
    exact Decimal.Written.scaled?_congr rfl few' few same

end Binary64

end CadenceWire
