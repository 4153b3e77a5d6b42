import CadenceWire.Proofs.Numeric.Binary64
import Mathlib.Data.Nat.Cast.Order.Field

/-!
The shortest decimal that rounds to a magnitude. Where doubles lie closer than the decimals of so
many places, it is the only one of these that rounds there.
-/
namespace CadenceWire.Binary64

/-- The number is a multiple of the power of ten. -/
def OnGrid (exponent : ℤ) (r : ℚ) : Prop := ∃ k : ℕ, r = k * 10 ^ exponent

variable {x : Binary64} {r : ℚ} {t : ℤ}

theorem OnGrid.finer {finer : ℤ} (on : OnGrid t r) (le : finer ≤ t) : OnGrid finer r := by
  obtain ⟨k, rfl⟩ := on
  refine ⟨k * 10 ^ (t - finer).toNat, ?_⟩
  push_cast
  rw [mul_assoc, ← zpow_natCast, ← zpow_add₀ (by norm_num)]
  congr 2
  omega

private theorem onGrid_value (d : DecimalFloat) : OnGrid d.exponent d.value := ⟨d.digits, rfl⟩

/-- No two numbers of a grid that is wider than the steps of the magnitude round to it. -/
theorem Rounds.eq_of_onGrid {s : ℚ} (wide : (2 : ℚ) ^ x.exponent < 10 ^ t) (rounds : x.Rounds r)
    (rounds' : x.Rounds s) (on : OnGrid t r) (on' : OnGrid t s) : r = s := by
  obtain ⟨low, high⟩ := rounds.near
  obtain ⟨low', high'⟩ := rounds'.near
  obtain ⟨k, rfl⟩ := on
  obtain ⟨k', rfl⟩ := on'
  have step : (0 : ℚ) < 10 ^ t := by positivity
  have less : (k : ℚ) < k' + 1 := by
    refine lt_of_mul_lt_mul_right ?_ step.le
    linarith
  have less' : (k' : ℚ) < k + 1 := by
    refine lt_of_mul_lt_mul_right ?_ step.le
    linarith
  have one : k < k' + 1 := by exact_mod_cast less
  have two : k' < k + 1 := by exact_mod_cast less'
  rw [show k = k' by omega]

theorem Normal.value_bounds (normal : x.Normal) :
    2 ^ 52 * (2 : ℚ) ^ x.exponent ≤ x.value ∧ x.value < 2 ^ 53 * 2 ^ x.exponent := by
  have step : (0 : ℚ) < 2 ^ x.exponent := by positivity
  have least : (2 : ℚ) ^ 52 ≤ x.significand := by exact_mod_cast normal.least
  have most : (x.significand : ℚ) < 2 ^ 53 := by exact_mod_cast normal.most
  exact ⟨mul_le_mul_of_nonneg_right least step.le, mul_lt_mul_of_pos_right most step⟩

/-- Normal magnitudes do not start further behind the point. -/
theorem Normal.exists_reached (normal : x.Normal) :
    ∃ zeros < 330, 1 ≤ x.value * 10 ^ (zeros + 1) := by
  obtain ⟨zeros, last⟩ : ∃ zeros, zeros + 1 = 5 * 64 := ⟨319, rfl⟩
  refine ⟨zeros, by omega, ?_⟩
  rw [last, pow_mul]
  have exponent : (2 : ℚ) ^ (-1074 : ℤ) ≤ 2 ^ x.exponent :=
    zpow_le_zpow_right₀ one_le_two normal.exponent
  have power : (2 : ℚ) ^ (1074 : ℕ) ≤ 2 ^ 52 * (10 ^ 5) ^ 64 := by
    calc (2 : ℚ) ^ 1074 ≤ 2 ^ (52 + 16 * 64) := pow_le_pow_right₀ one_le_two (by norm_num)
      _ = 2 ^ 52 * (2 ^ 16) ^ 64 := by rw [pow_add, pow_mul]
      _ ≤ 2 ^ 52 * (10 ^ 5) ^ 64 := by gcongr; norm_num
  calc (1 : ℚ) = 2 ^ (-1074 : ℤ) * 2 ^ (1074 : ℕ) := by
        rw [← zpow_natCast, ← zpow_add₀ two_ne_zero]
        rfl
    _ ≤ 2 ^ x.exponent * (2 ^ 52 * (10 ^ 5) ^ 64) := by gcongr
    _ = 2 ^ 52 * 2 ^ x.exponent * (10 ^ 5) ^ 64 := by ring
    _ ≤ x.value * (10 ^ 5) ^ 64 := by gcongr; exact normal.value_bounds.1

private theorem lt_cast_div_add_one (num : ℕ) {den : ℕ} (positive : 0 < den) :
    (num / den : ℚ) < (num / den : ℕ) + 1 := by
  have split := Nat.div_add_mod' num den
  have small := Nat.mod_lt num positive
  have next : num < (num / den + 1) * den := by
    rw [Nat.succ_mul]
    omega
  rw [div_lt_iff₀ (Nat.cast_pos.2 positive)]
  exact_mod_cast next

private theorem eq_div_or_succ {k num den : ℕ} (positive : 0 < den)
    (below : (num / den : ℚ) < k + 1)
    (above : (k : ℚ) < num / den + 1) : k = num / den ∨ k = num / den + 1 := by
  have floor : ((num / den : ℕ) : ℚ) ≤ num / den := Nat.cast_div_le
  have ceil := lt_cast_div_add_one num positive
  have least : ((num / den : ℕ) : ℚ) < k + 1 := by linarith
  have most : (k : ℚ) < (num / den : ℕ) + 2 := by linarith
  have least' : num / den < k + 1 := by exact_mod_cast least
  have most' : k < num / den + 2 := by exact_mod_cast most
  omega

theorem length_toDigits_spec {n : ℕ} (positive : 0 < n) :
    10 ^ ((Nat.toDigits 10 n).length - 1) ≤ n ∧ n < 10 ^ (Nat.toDigits 10 n).length := by
  have written : 0 < (Nat.toDigits 10 n).length := List.length_pos_of_ne_nil Nat.toDigits_ne_nil
  refine ⟨?_, (Nat.length_toDigits_le_iff (by decide) written).1 le_rfl⟩
  by_contra small
  rcases Nat.eq_zero_or_pos ((Nat.toDigits 10 n).length - 1) with one | more
  · rw [one] at small
    omega
  · have shorter := (Nat.length_toDigits_le_iff (by decide) more).2 (Nat.lt_of_not_le small)
    omega

/-- Where the first digit of the magnitude stands. -/
theorem pointAfter_spec (normal : x.Normal) :
    (10 : ℚ) ^ (x.pointAfter - 1) ≤ x.value ∧ x.value < 10 ^ x.pointAfter := by
  have den : (0 : ℚ) < x.denominator := Nat.cast_pos.2 x.denominator_pos
  unfold pointAfter
  split
  next whole =>
    have some_digits : 0 < x.numerator / x.denominator := Nat.div_pos whole x.denominator_pos
    have low : ((x.numerator / x.denominator : ℕ) : ℚ) ≤ x.value := by
      rw [value_eq_div]
      exact Nat.cast_div_le
    have high : x.value < (x.numerator / x.denominator : ℕ) + 1 := by
      rw [value_eq_div]
      exact lt_cast_div_add_one _ x.denominator_pos
    generalize x.numerator / x.denominator = n at *
    have written : 0 < (Nat.toDigits 10 n).length := List.length_pos_of_ne_nil Nat.toDigits_ne_nil
    obtain ⟨least, most⟩ := length_toDigits_spec some_digits
    generalize (Nat.toDigits 10 n).length = length at *
    constructor
    · have cast : (10 : ℚ) ^ ((length : ℤ) - 1) = (10 ^ (length - 1) : ℕ) := by
        rw [Nat.cast_pow, ← zpow_natCast, Nat.cast_sub written]
        rfl
      rw [cast]
      exact (Nat.cast_le.2 least).trans low
    · have above : ((n + 1 : ℕ) : ℚ) ≤ (10 ^ length : ℕ) := Nat.cast_le.2 most
      push_cast at above
      rw [zpow_natCast]
      linarith
  next part =>
    have below : x.value < 1 := by
      rw [value_eq_div, div_lt_one den]
      exact_mod_cast Nat.lt_of_not_le part
    have reached_iff (zeros : ℕ) : x.denominator ≤ x.numerator * Nat.pow 10 (zeros + 1) ↔
        1 ≤ x.value * 10 ^ (zeros + 1) := by
      rw [value_eq_div, div_mul_eq_mul_div, one_le_div den, Nat.pow_eq]
      exact_mod_cast Iff.rfl
    simp only [reached_iff]
    cases found : (List.range 330).find? fun zeros => decide (1 ≤ x.value * 10 ^ (zeros + 1)) with
    | none =>
      obtain ⟨zeros, early, reached⟩ := normal.exists_reached
      exact absurd reached (by simpa using List.find?_eq_none.1 found zeros (by simpa using early))
    | some zeros =>
      obtain ⟨reached, -, before⟩ := List.find?_range_eq_some.1 found
      have reached := of_decide_eq_true reached
      change (10 : ℚ) ^ (-(zeros : ℤ) - 1) ≤ x.value ∧ x.value < 10 ^ (-(zeros : ℤ))
      have positive : (0 : ℚ) < 10 ^ (zeros + 1) := by positivity
      constructor
      · rw [show -(zeros : ℤ) - 1 = -((zeros + 1 : ℕ) : ℤ) by push_cast; ring, zpow_neg,
          zpow_natCast, inv_eq_one_div, div_le_iff₀ positive]
        exact reached
      · rw [zpow_neg, zpow_natCast, inv_eq_one_div, lt_div_iff₀ (by positivity)]
        cases zeros with
        | zero => simpa using below
        | succ zeros => simpa using before zeros (Nat.lt_succ_self zeros)

private theorem neighbour?_eq_some {d : DecimalFloat} (normal : x.Normal)
    (found : x.neighbour? t = some d) : d.exponent = t ∧ x.Rounds d.value := by
  have positive : 0 < x.significand := lt_of_lt_of_le (by norm_num) normal.least
  unfold neighbour? at found
  dsimp only at found
  split at found
  next below above =>
    split at found
    next =>
      cases found
      exact ⟨rfl, (roundsHere_iff positive _).1 below⟩
    next =>
      cases found
      exact ⟨rfl, (roundsHere_iff positive _).1 above⟩
  next below _ =>
    cases found
    exact ⟨rfl, (roundsHere_iff positive _).1 below⟩
  next _ above =>
    cases found
    exact ⟨rfl, (roundsHere_iff positive _).1 above⟩
  next => cases found

private theorem exists_neighbour? (normal : x.Normal) (rounds : x.Rounds r) (on : OnGrid t r)
    (wide : (2 : ℚ) ^ x.exponent < 10 ^ t) : ∃ d, x.neighbour? t = some d := by
  have positive : 0 < x.significand := lt_of_lt_of_le (by norm_num) normal.least
  have step : (0 : ℚ) < 10 ^ t := by positivity
  obtain ⟨low, high⟩ := rounds.near
  obtain ⟨k, rfl⟩ := on
  have den_pos : 0 < x.denominator * Nat.pow 10 t.toNat :=
    Nat.mul_pos x.denominator_pos (Nat.pow_pos (by decide))
  have scaled : ((x.numerator * Nat.pow 10 (-t).toNat : ℕ) : ℚ) /
      (x.denominator * Nat.pow 10 t.toNat : ℕ) = x.value / 10 ^ t := by
    have above := x.denominator_pos
    rw [value_eq_div, zpow_eq_div, Nat.pow_eq, Nat.pow_eq]
    push_cast
    field_simp
  -- The number is less than a step away, so it is next to the magnitude on either side.
  have next : k = x.numerator * Nat.pow 10 (-t).toNat / (x.denominator * Nat.pow 10 t.toNat) ∨
      k = x.numerator * Nat.pow 10 (-t).toNat / (x.denominator * Nat.pow 10 t.toNat) + 1 := by
    refine eq_div_or_succ den_pos ?_ ?_
    · rw [scaled, div_lt_iff₀ step]
      linarith
    · rw [scaled, ← sub_lt_iff_lt_add, lt_div_iff₀ step]
      linarith
  have here : x.roundsHere ⟨k, t⟩ = true := (roundsHere_iff positive _).2 rounds
  unfold neighbour?
  dsimp only
  generalize x.numerator * Nat.pow 10 (-t).toNat / (x.denominator * Nat.pow 10 t.toNat) = n at *
  split
  next => exact ⟨_, rfl⟩
  next => exact ⟨_, rfl⟩
  next => exact ⟨_, rfl⟩
  next below above =>
    rcases next with rfl | rfl
    · rw [here] at below
      cases below
    · rw [here] at above
      cases above

/-- The shortest decimal of a magnitude is the number itself, if it lies on a grid wider than the
steps of the magnitude. -/
theorem shortest_value (normal : x.Normal) (rounds : x.Rounds r) (on : OnGrid t r)
    (wide : (2 : ℚ) ^ x.exponent < 10 ^ t) : x.shortest.value = r := by
  obtain ⟨first, last⟩ := pointAfter_spec normal
  have step : (0 : ℚ) < 2 ^ x.exponent := by positivity
  -- Where the magnitude starts behind the grid, that place is the grid to look at.
  obtain ⟨finest, meet⟩ : ∃ finest, finest = min t (x.pointAfter - 1) := ⟨_, rfl⟩
  have wide' : (2 : ℚ) ^ x.exponent < 10 ^ finest := by
    rcases le_total t (x.pointAfter - 1) with before | behind
    · rwa [meet, min_eq_left before]
    · rw [← sub_add_cancel x.pointAfter 1, zpow_add_one₀ (by norm_num)] at last
      rw [meet, min_eq_right behind]
      linarith [normal.value_bounds.1]
  have reach : x.pointAfter - 1 - finest ≤ 16 := by
    have high : (10 : ℚ) ^ (x.pointAfter - 1) < 10 ^ (16 + finest) := by
      calc (10 : ℚ) ^ (x.pointAfter - 1) ≤ x.value := first
        _ < 2 ^ 53 * 2 ^ x.exponent := normal.value_bounds.2
        _ < 2 ^ 53 * 10 ^ finest := by gcongr
        _ ≤ 10 ^ 16 * 10 ^ finest := by gcongr; norm_num
        _ = 10 ^ (16 + finest) := by rw [zpow_add₀ (by norm_num)]; rfl
    have less := (zpow_lt_zpow_iff_right₀ (by norm_num)).1 high
    omega
  have on' : OnGrid finest r := on.finer (by omega)
  obtain ⟨n, place⟩ : ∃ n : ℕ, finest = x.pointAfter - (n + 1) :=
    ⟨(x.pointAfter - 1 - finest).toNat, by omega⟩
  have inRange : n < 17 := by omega
  obtain ⟨d, found⟩ := exists_neighbour? normal rounds on' wide'
  obtain ⟨m, earlier, d, shortest, found⟩ : ∃ m ≤ n, ∃ d, x.shortest = d ∧
      x.neighbour? (x.pointAfter - (m + 1)) = some d := by
    obtain ⟨d, first⟩ : ∃ d, (List.range (n + 1)).findSome?
        (fun m : ℕ => x.neighbour? (x.pointAfter - (m + 1))) = some d := by
      rw [← Option.isSome_iff_exists, List.findSome?_isSome_iff]
      exact ⟨n, by simp, by rw [← place, found]; rfl⟩
    obtain ⟨m, listed, found⟩ := List.exists_of_findSome?_eq_some first
    refine ⟨m, Nat.le_of_lt_succ (List.mem_range.1 listed), d, ?_, found⟩
    have split : List.range 17 = List.range (n + 1) ++ (List.range (16 - n)).map (n + 1 + ·) := by
      rw [← List.range_add]
      congr 1
      omega
    simp only [Binary64.shortest, split, List.findSome?_append, first, Option.some_or,
      Option.getD_some]
  obtain ⟨exponent, rounds'⟩ := neighbour?_eq_some normal found
  rw [shortest]
  refine Rounds.eq_of_onGrid wide' rounds' rounds ?_ on'
  exact (onGrid_value d).finer (by omega)

/-- Doubles whose whole part is as given lie closer than decimals of so many places. -/
def Separates (places whole : ℕ) : Prop := 10 ^ places * 2 ^ whole.log2 < 2 ^ 52

instance (places whole : ℕ) : Decidable (Separates places whole) :=
  inferInstanceAs (Decidable (_ < _))

section separates

variable {n places : ℕ}

theorem Separates.lt_pow (separates : Separates places (n / 10 ^ places)) : n < 2 ^ 53 := by
  have power : 0 < 10 ^ places := by positivity
  have bits := Nat.lt_log2_self (n := n / 10 ^ places)
  rw [Separates] at separates
  calc n < 10 ^ places * (n / 10 ^ places + 1) := Nat.lt_mul_div_succ n power
    _ ≤ 10 ^ places * 2 ^ ((n / 10 ^ places).log2 + 1) := Nat.mul_le_mul_left _ bits
    _ = 10 ^ places * 2 ^ (n / 10 ^ places).log2 * 2 := by ring
    _ < 2 ^ 53 := by omega

/-- One step at a bit of the whole part, as a part of the last place. -/
theorem Separates.step_lt {whole : ℕ} (separates : Separates places whole) {bit : ℤ}
    (last : bit ≤ whole.log2) : (2 : ℚ) ^ (bit - 52) * 10 ^ places < 1 := by
  have fine : (10 : ℚ) ^ places * 2 ^ whole.log2 < 2 ^ 52 := by exact_mod_cast separates
  calc (2 : ℚ) ^ (bit - 52) * 10 ^ places
      ≤ 2 ^ (whole.log2 - 52 : ℤ) * 10 ^ places := by gcongr; norm_num
    _ = 10 ^ places * 2 ^ whole.log2 / 2 ^ 52 := by
      rw [zpow_sub₀ two_ne_zero, zpow_natCast, show (2 : ℚ) ^ (52 : ℤ) = 2 ^ 52 from rfl]
      ring
    _ < 1 := (div_lt_one (by norm_num)).2 fine

private theorem le_log2 (n places : ℕ) {bit : ℤ} (low : (2 : ℚ) ^ bit ≤ n / 10 ^ places) :
    bit ≤ (n / 10 ^ places).log2 := by
  have whole : (n / 10 ^ places : ℚ) < (n / 10 ^ places : ℕ) + 1 := by
    exact_mod_cast lt_cast_div_add_one n (Nat.pow_pos (n := places) (show 0 < 10 by decide))
  have next : ((n / 10 ^ places : ℕ) : ℚ) + 1 ≤ 2 ^ ((n / 10 ^ places).log2 + 1 : ℤ) := by
    exact_mod_cast Nat.lt_log2_self (n := n / 10 ^ places)
  have less := (zpow_lt_zpow_iff_right₀ one_lt_two).1 ((low.trans_lt whole).trans_le next)
  omega

/-- A rounded decimal keeps the steps of its own size: none of so few places is so close below a
power of two that it is rounded up to it. -/
theorem RoundedFrom.step_lt (rounded : x.RoundedFrom (n / 10 ^ places))
    (separates : Separates places (n / 10 ^ places)) :
    (2 : ℚ) ^ x.exponent * 10 ^ places < 1 := by
  obtain ⟨-, rounds, bit, low, high, exponent⟩ := rounded
  have step := separates.step_lt (le_log2 n places low)
  have power : (0 : ℚ) < 10 ^ places := by positivity
  rcases exponent with here | ⟨up, significand⟩
  · rwa [here]
  · rcases lt_or_ge bit 0 with small | large
    · have below : bit + 1 ≤ (n / 10 ^ places).log2 := by omega
      rw [up, show bit - 51 = bit + 1 - 52 by ring]
      exact separates.step_lt below
    · obtain ⟨bit, rfl⟩ := Int.eq_ofNat_of_zero_le large
      exfalso
      have double : (2 : ℚ) ^ x.exponent = 2 * 2 ^ ((bit : ℤ) - 52) := by
        rw [up, ← zpow_one_add₀ two_ne_zero]
        congr 1
        ring
      have value : x.value = 2 ^ (bit + 1) := by
        rw [Binary64.value, significand, double, zpow_sub₀ two_ne_zero, zpow_natCast,
          show (2 : ℚ) ^ (52 : ℤ) = 2 ^ 52 from rfl, pow_succ]
        push_cast
        ring
      have near := rounds.near.1
      rw [value, double, le_div_iff₀ power] at near
      rw [div_lt_iff₀ power] at high
      have below : n < 2 ^ (bit + 1) * 10 ^ places := by exact_mod_cast high
      have above : (2 : ℚ) ^ (bit + 1) * 10 ^ places < n + 1 := by linarith
      have above' : 2 ^ (bit + 1) * 10 ^ places < n + 1 := by exact_mod_cast above
      omega

/-- A decimal that was rounded once is the shortest one of what it was rounded to, where doubles
separate the decimals of as many places. -/
theorem RoundedFrom.shortest_value (rounded : x.RoundedFrom (n / 10 ^ places))
    (separates : Separates places (n / 10 ^ places)) : x.shortest.value = n / 10 ^ places := by
  have grid : OnGrid (-places) ((n : ℚ) / 10 ^ places) :=
    ⟨n, by rw [zpow_neg, zpow_natCast, div_eq_mul_inv]⟩
  have wide : (2 : ℚ) ^ x.exponent < 10 ^ (-places : ℤ) := by
    rw [zpow_neg, zpow_natCast, inv_eq_one_div, lt_div_iff₀ (by positivity)]
    exact rounded.step_lt separates
  exact Binary64.shortest_value rounded.1 rounded.2.1 grid wide

end separates

end CadenceWire.Binary64
