import CadenceWire.Numeric.Binary64
import Mathlib.Algebra.Order.Field.Rat
import Mathlib.Algebra.Order.Field.Power
import Mathlib.Data.Nat.Log
import Mathlib.Tactic.FieldSimp
import Mathlib.Tactic.Linarith
import Mathlib.Tactic.NormNum
import Mathlib.Tactic.Positivity
import Mathlib.Tactic.Ring

/-!
Binary64 magnitudes as rational numbers: what an operation gives is next to the exact quotient, and
which reals round to a magnitude.
-/
namespace CadenceWire

/-- An exponent is taken apart by its sign. -/
theorem zpow_eq_div (b : ℚ) (e : ℤ) : b ^ e = b ^ e.toNat / b ^ (-e).toNat := by
  rcases le_total 0 e with up | down
  · have none : (-e).toNat = 0 := by omega
    rw [none, pow_zero, div_one, ← zpow_natCast, Int.toNat_of_nonneg up]
  · have none : e.toNat = 0 := by omega
    rw [none, pow_zero, one_div, ← zpow_natCast, Int.toNat_of_nonneg (by omega), zpow_neg, inv_inv]

def DecimalFloat.value (d : DecimalFloat) : ℚ := d.digits * 10 ^ d.exponent

namespace Binary64

def value (x : Binary64) : ℚ := x.significand * 2 ^ x.exponent

theorem value_eq_div (x : Binary64) : x.value = x.numerator / x.denominator := by
  rw [value, zpow_eq_div, numerator, denominator, Nat.shiftLeft_eq, Nat.shiftLeft_eq]
  push_cast
  ring

theorem denominator_pos (x : Binary64) : 0 < x.denominator := by
  rw [denominator, Nat.shiftLeft_eq]
  positivity

/-- The natural number is nearest, and even if another is as near. -/
def Nearest (m : ℕ) (r : ℚ) : Prop :=
  (m - 1 / 2 < r ∨ m % 2 = 0 ∧ r = m - 1 / 2) ∧ (r < m + 1 / 2 ∨ m % 2 = 0 ∧ r = m + 1 / 2)

private theorem nearest_div_iff {m num den : ℕ} (positive : 0 < den) :
    Nearest m (num / den) ↔
      (2 * (m * den) < 2 * num + den ∨ m % 2 = 0 ∧ 2 * num + den = 2 * (m * den)) ∧
      (2 * num < 2 * (m * den) + den ∨ m % 2 = 0 ∧ 2 * num = 2 * (m * den) + den) := by
  have above : (0 : ℚ) < den := Nat.cast_pos.2 positive
  have low : (m - 1 / 2 : ℚ) < num / den ↔ 2 * (m * den) < 2 * num + den := by
    rw [lt_div_iff₀ above, ← Nat.cast_lt (α := ℚ)]
    push_cast
    constructor <;> intro less <;> linarith
  have lowest : (num / den : ℚ) = m - 1 / 2 ↔ 2 * num + den = 2 * (m * den) := by
    rw [div_eq_iff above.ne', ← Nat.cast_inj (R := ℚ)]
    push_cast
    constructor <;> intro same <;> linarith
  have high : (num / den : ℚ) < m + 1 / 2 ↔ 2 * num < 2 * (m * den) + den := by
    rw [div_lt_iff₀ above, ← Nat.cast_lt (α := ℚ)]
    push_cast
    constructor <;> intro less <;> linarith
  have highest : (num / den : ℚ) = m + 1 / 2 ↔ 2 * num = 2 * (m * den) + den := by
    rw [div_eq_iff above.ne', ← Nat.cast_inj (R := ℚ)]
    push_cast
    constructor <;> intro same <;> linarith
  rw [Nearest, low, lowest, high, highest]

private theorem nearest_roundQuotient (num : ℕ) {den : ℕ} (positive : 0 < den) :
    Nearest (roundQuotient num den) (num / den) := by
  rw [nearest_div_iff positive]
  have split : num / den * den + num % den = num := Nat.div_add_mod' num den
  have small : num % den < den := Nat.mod_lt num positive
  unfold roundQuotient
  generalize num / den = q at *
  generalize num % den = r at *
  dsimp only
  split
  next down => omega
  next up =>
    have next : (q + 1) * den = q * den + den := Nat.succ_mul q den
    omega

private theorem leadingBit_spec {num den : ℕ} (above : 0 < num) (positive : 0 < den) :
    (2 : ℚ) ^ leadingBit num den ≤ num / den ∧ (num / den : ℚ) < 2 ^ (leadingBit num den + 1) := by
  have den_pos : (0 : ℚ) < den := Nat.cast_pos.2 positive
  have shifted (guess : ℤ) : den <<< guess.toNat ≤ num <<< (-guess).toNat ↔
      (2 : ℚ) ^ guess ≤ num / den := by
    rw [zpow_eq_div, div_le_div_iff₀ (by positivity) den_pos, Nat.shiftLeft_eq, Nat.shiftLeft_eq,
      ← Nat.cast_le (α := ℚ)]
    push_cast
    rw [mul_comm]
  have numLow : (2 : ℚ) ^ (num.log2 : ℤ) ≤ num := by
    rw [zpow_natCast]
    exact_mod_cast Nat.log2_self_le above.ne'
  have numHigh : (num : ℚ) < 2 ^ (num.log2 + 1 : ℤ) := by
    exact_mod_cast Nat.lt_log2_self (n := num)
  have denLow : (2 : ℚ) ^ (den.log2 : ℤ) ≤ den := by
    rw [zpow_natCast]
    exact_mod_cast Nat.log2_self_le positive.ne'
  have denHigh : (den : ℚ) < 2 ^ (den.log2 + 1 : ℤ) := by
    exact_mod_cast Nat.lt_log2_self (n := den)
  have high : (num / den : ℚ) < 2 ^ (num.log2 - den.log2 + 1 : ℤ) := by
    calc (num / den : ℚ) < 2 ^ (num.log2 + 1 : ℤ) / den := div_lt_div_of_pos_right numHigh den_pos
      _ ≤ 2 ^ (num.log2 + 1 : ℤ) / 2 ^ (den.log2 : ℤ) :=
        div_le_div_of_nonneg_left (by positivity) (by positivity) denLow
      _ = 2 ^ (num.log2 - den.log2 + 1 : ℤ) := by
        rw [← zpow_sub₀ two_ne_zero]
        congr 1
        ring
  have low : (2 : ℚ) ^ (num.log2 - den.log2 - 1 : ℤ) ≤ num / den := by
    calc (2 : ℚ) ^ (num.log2 - den.log2 - 1 : ℤ) = 2 ^ (num.log2 : ℤ) / 2 ^ (den.log2 + 1 : ℤ) := by
          rw [← zpow_sub₀ two_ne_zero]
          congr 1
          ring
      _ ≤ 2 ^ (num.log2 : ℤ) / den := div_le_div_of_nonneg_left (by positivity) den_pos denHigh.le
      _ ≤ num / den := div_le_div_of_nonneg_right numLow den_pos.le
  unfold leadingBit
  dsimp only
  split
  next reached => exact ⟨(shifted _).1 reached, high⟩
  next missed =>
    rw [shifted, not_le] at missed
    exact ⟨low, by rwa [sub_add_cancel]⟩

/-- A magnitude is made of the natural number nearest to the quotient at the scale of 53 bits, in
steps of twice the size if that takes a bit more. -/
theorem nearest?_spec {num den : ℕ} (above : 0 < num) (positive : 0 < den) {x : Binary64}
    (found : nearest? num den = some x) (normal : leastExponent + 52 ≤ leadingBit num den) :
    ∃ m, Nearest m (num / den / 2 ^ (leadingBit num den - 52)) ∧
      x = if m = 2 ^ 53 then ⟨2 ^ 52, leadingBit num den - 52 + 1⟩
        else ⟨m, leadingBit num den - 52⟩ := by
  have exponent : max (leadingBit num den - 52) leastExponent = leadingBit num den - 52 := by omega
  unfold nearest? at found
  rw [if_neg above.ne', exponent] at found
  generalize leadingBit num den - 52 = q at *
  obtain ⟨-, rounded⟩ := Option.ite_none_left_eq_some.1 found
  refine ⟨_, ?_, (Option.some.inj rounded).symm⟩
  have shifted : (0 : ℕ) < den <<< q.toNat := by
    rw [Nat.shiftLeft_eq]
    positivity
  have scaled : (num / den / 2 ^ q : ℚ) =
      (num <<< (-q).toNat : ℕ) / (den <<< q.toNat : ℕ) := by
    rw [zpow_eq_div, Nat.shiftLeft_eq, Nat.shiftLeft_eq]
    push_cast
    field_simp
  rw [scaled]
  exact nearest_roundQuotient _ shifted

/-- Among magnitudes at the least of their exponent, the one below is nearer than the one above. -/
def lowest (x : Binary64) : ℚ :=
  (x.significand - if x.significand = 2 ^ 52 ∧ leastExponent < x.exponent then 1 / 4 else 1 / 2) *
    2 ^ x.exponent

def highest (x : Binary64) : ℚ := (x.significand + 1 / 2) * 2 ^ x.exponent

/-- The number rounds to the magnitude: it is no further away than half way to the neighbours, which
it may reach if the significand is even. -/
def Rounds (x : Binary64) (r : ℚ) : Prop :=
  (x.lowest < r ∨ x.significand % 2 = 0 ∧ r = x.lowest) ∧
    (r < x.highest ∨ x.significand % 2 = 0 ∧ r = x.highest)

private theorem compareDecimal_spec (d : DecimalFloat) (m : ℕ) (q : ℤ) :
    (compareDecimal d m q = .lt ↔ d.value < m * 2 ^ q) ∧
      (compareDecimal d m q = .eq ↔ d.value = m * 2 ^ q) ∧
      (compareDecimal d m q = .gt ↔ m * 2 ^ q < d.value) := by
  have positive : (0 : ℚ) < 10 ^ (-d.exponent).toNat * 2 ^ (-q).toNat := by positivity
  have left : (((d.digits * Nat.pow 10 d.exponent.toNat) <<< (-q).toNat : ℕ) : ℚ) =
      d.value * (10 ^ (-d.exponent).toNat * 2 ^ (-q).toNat) := by
    rw [DecimalFloat.value, zpow_eq_div, Nat.shiftLeft_eq, Nat.pow_eq]
    push_cast
    field_simp
  have right : (((m * Nat.pow 10 (-d.exponent).toNat) <<< q.toNat : ℕ) : ℚ) =
      m * 2 ^ q * (10 ^ (-d.exponent).toNat * 2 ^ (-q).toNat) := by
    rw [zpow_eq_div 2 q, Nat.shiftLeft_eq, Nat.pow_eq]
    push_cast
    field_simp
  unfold compareDecimal
  rw [Nat.compare_eq_lt, Nat.compare_eq_eq, Nat.compare_eq_gt, ← Nat.cast_lt (α := ℚ),
    ← Nat.cast_inj (R := ℚ), ← Nat.cast_lt (α := ℚ), left, right]
  exact ⟨mul_lt_mul_iff_left₀ positive, mul_left_inj' positive.ne', mul_lt_mul_iff_left₀ positive⟩

theorem roundsHere_iff {x : Binary64} (positive : 0 < x.significand) (d : DecimalFloat) :
    x.roundsHere d = true ↔ x.Rounds d.value := by
  have quarter (n : ℚ) : n * 2 ^ (x.exponent - 2) = n / 4 * 2 ^ x.exponent := by
    rw [zpow_sub₀ two_ne_zero]
    norm_num
    ring
  have low : ((4 * x.significand - if x.significand = 2 ^ 52 ∧ leastExponent < x.exponent then 1
      else 2 : ℕ) : ℚ) * 2 ^ (x.exponent - 2) = x.lowest := by
    rw [quarter, lowest]
    split
    next =>
      rw [Nat.cast_sub (by omega)]
      push_cast
      ring
    next =>
      rw [Nat.cast_sub (by omega)]
      push_cast
      ring
  have high : ((4 * x.significand + 2 : ℕ) : ℚ) * 2 ^ (x.exponent - 2) = x.highest := by
    rw [quarter, highest]
    push_cast
    ring
  have below := compareDecimal_spec d (4 * x.significand -
    if x.significand = 2 ^ 52 ∧ leastExponent < x.exponent then 1 else 2) (x.exponent - 2)
  have above := compareDecimal_spec d (4 * x.significand + 2) (x.exponent - 2)
  rw [low] at below
  rw [high] at above
  change decide _ = true ↔ _
  rw [decide_eq_true_eq, Rounds, ← below.2.2, ← below.2.1, ← above.1, ← above.2.1]
  exact Iff.rfl

/-- The significand has all of its 53 bits. -/
structure Normal (x : Binary64) : Prop where
  least : 2 ^ 52 ≤ x.significand
  most : x.significand < 2 ^ 53
  exponent : leastExponent ≤ x.exponent

/-- A number as a multiple of its 53rd bit. -/
theorem exists_scaled {r : ℚ} {bit : ℤ} (low : 2 ^ bit ≤ r) (high : r < 2 ^ (bit + 1)) :
    ∃ s : ℚ, r = s * 2 ^ (bit - 52) ∧ 2 ^ 52 ≤ s ∧ s < 2 ^ 53 := by
  have step : (0 : ℚ) < 2 ^ (bit - 52) := by positivity
  have whole : (2 : ℚ) ^ bit = 2 ^ 52 * 2 ^ (bit - 52) := by
    rw [← zpow_natCast, ← zpow_add₀ two_ne_zero]
    congr 1
    push_cast
    ring
  obtain ⟨s, scaled⟩ : ∃ s : ℚ, r = s * 2 ^ (bit - 52) := ⟨r / 2 ^ (bit - 52), by field_simp⟩
  refine ⟨s, scaled, ?_, ?_⟩
  · rw [scaled, whole] at low
    exact le_of_mul_le_mul_right low step
  · rw [scaled, zpow_add_one₀ two_ne_zero, whole, mul_right_comm] at high
    exact lt_of_mul_lt_mul_right (by linarith) step.le

/-- Bounds that are whole hold of the nearest natural number as well. -/
theorem Nearest.bounds {m least most : ℕ} {s : ℚ} (near : Nearest m s) (low : least ≤ s)
    (high : s < most) : least ≤ m ∧ m ≤ most := by
  have near' : (m : ℚ) - 1 / 2 ≤ s ∧ s ≤ m + 1 / 2 := by
    obtain ⟨left | left, right | right⟩ := near <;> constructor <;> linarith
  constructor
  · by_contra small
    have small' : (m : ℚ) + 1 ≤ least := by exact_mod_cast Nat.lt_of_not_le small
    linarith [near'.2]
  · by_contra large
    have large' : (most : ℚ) + 1 ≤ m := by exact_mod_cast Nat.lt_of_not_le large
    linarith [near'.1]

/-- The quotient rounds to the magnitude nearest to it, whose exponent tells the leading bit of the
quotient, unless that was rounded up to a power of two. -/
theorem nearest?_rounds {num den : ℕ} (above : 0 < num) (positive : 0 < den) {x : Binary64}
    (found : nearest? num den = some x) (normal : leastExponent + 52 ≤ leadingBit num den) :
    x.Normal ∧ x.Rounds (num / den) ∧
      (x.exponent = leadingBit num den - 52 ∨
        x.exponent = leadingBit num den - 51 ∧ x.significand = 2 ^ 52) := by
  obtain ⟨m, near, rfl⟩ := nearest?_spec above positive found normal
  obtain ⟨low, high⟩ := leadingBit_spec above positive
  generalize leadingBit num den = bit at *
  have step : (0 : ℚ) < 2 ^ (bit - 52) := by positivity
  obtain ⟨s, scaled, least, most⟩ := exists_scaled low high
  rw [scaled, mul_div_cancel_right₀ _ step.ne'] at near
  rw [scaled]
  obtain ⟨atLeast, upTo⟩ := near.bounds (by exact_mod_cast least) (by exact_mod_cast most)
  split
  next full =>
    subst full
    have double : (2 : ℚ) ^ (bit - 52 + 1) = 2 * 2 ^ (bit - 52) := by
      rw [zpow_add_one₀ two_ne_zero, mul_comm]
    refine ⟨⟨le_rfl, by norm_num, by dsimp only; omega⟩, ?_, .inr ⟨by dsimp only; omega, rfl⟩⟩
    have narrow : leastExponent < bit - 52 + 1 := by omega
    simp only [Rounds, lowest, highest, double, narrow, and_self, if_true]
    obtain ⟨near, -⟩ := near
    push_cast at near ⊢
    constructor
    · rcases near with below | ⟨-, same⟩
      · left
        linarith [mul_lt_mul_of_pos_right below step]
      · right
        rw [same]
        exact ⟨by norm_num, by ring⟩
    · left
      linarith [mul_lt_mul_of_pos_right most step]
  next short =>
    refine ⟨⟨atLeast, by dsimp only; omega, by dsimp only; omega⟩, ?_, .inl rfl⟩
    simp only [Rounds, lowest, highest]
    constructor
    · split
      next narrow =>
        left
        refine mul_lt_mul_of_pos_right ?_ step
        rw [narrow.1]
        push_cast
        linarith
      next =>
        exact near.1.imp (mul_lt_mul_of_pos_right · step) fun tie => ⟨tie.1, by rw [tie.2]⟩
    · exact near.2.imp (mul_lt_mul_of_pos_right · step) fun tie => ⟨tie.1, by rw [tie.2]⟩

theorem Rounds.near {x : Binary64} {r : ℚ} (rounds : x.Rounds r) :
    x.value - 2 ^ x.exponent / 2 ≤ r ∧ r ≤ x.value + 2 ^ x.exponent / 2 := by
  have step : (0 : ℚ) < 2 ^ x.exponent := by positivity
  have low : x.value - 2 ^ x.exponent / 2 ≤ x.lowest := by
    rw [value, lowest]
    split <;> linarith
  have high : x.highest = x.value + 2 ^ x.exponent / 2 := by
    rw [value, highest]
    ring
  obtain ⟨below | ⟨-, same⟩, above | ⟨-, same'⟩⟩ := rounds <;> constructor <;> linarith

theorem Nearest.eq {m n : ℕ} (near : Nearest m n) : m = n := by
  have low : (m : ℚ) < n + 1 := by
    obtain ⟨below | ⟨-, same⟩, -⟩ := near <;> linarith
  have high : (n : ℚ) < m + 1 := by
    obtain ⟨-, above | ⟨-, same⟩⟩ := near <;> linarith
  have low' : m < n + 1 := by exact_mod_cast low
  have high' : n < m + 1 := by exact_mod_cast high
  omega

/-- Natural numbers of 53 bits are magnitudes themselves. -/
theorem value_of_ofNat? {n : ℕ} (above : 0 < n) (small : n < 2 ^ 53) {x : Binary64}
    (found : ofNat? n = some x) : x.value = n := by
  obtain ⟨low, high⟩ := leadingBit_spec above one_pos
  rw [Nat.cast_one, div_one] at low high
  have one_le : (2 : ℚ) ^ (0 : ℤ) ≤ n := by exact_mod_cast above
  have lt_full : (n : ℚ) < 2 ^ (53 : ℤ) := by exact_mod_cast small
  have first := (zpow_lt_zpow_iff_right₀ one_lt_two).1 (one_le.trans_lt high)
  have last := (zpow_lt_zpow_iff_right₀ one_lt_two).1 (low.trans_lt lt_full)
  obtain ⟨m, near, rfl⟩ :=
    nearest?_spec above one_pos found (by simp only [leastExponent]; omega)
  generalize leadingBit n 1 = bit at *
  obtain ⟨k, rfl⟩ : ∃ k : ℕ, bit = 52 - k := ⟨(52 - bit).toNat, by omega⟩
  have step : (2 : ℚ) ^ (52 - (k : ℤ) - 52) = (2 ^ k)⁻¹ := by
    rw [show 52 - (k : ℤ) - 52 = -k by ring, zpow_neg, zpow_natCast]
  have exact : m = n * 2 ^ k := by
    rw [step, Nat.cast_one, div_one, div_inv_eq_mul] at near
    exact Nearest.eq (by exact_mod_cast near)
  have back : (n : ℚ) = m * (2 ^ k)⁻¹ := by
    rw [exact]
    push_cast
    field_simp
  split
  next full =>
    rw [value, zpow_add_one₀ two_ne_zero, step, back, full]
    push_cast
    ring
  next => rw [value, step, back]

private theorem numerator_pos {x : Binary64} (positive : 0 < x.value) : 0 < x.numerator := by
  rw [value_eq_div] at positive
  by_contra none
  rw [Nat.eq_zero_of_not_pos none, Nat.cast_zero, zero_div] at positive
  exact positive.false

/-- The magnitude rounded once, at the leading bit of the number. -/
def RoundedFrom (x : Binary64) (r : ℚ) : Prop :=
  x.Normal ∧ x.Rounds r ∧ ∃ bit : ℤ, 2 ^ bit ≤ r ∧ r < 2 ^ (bit + 1) ∧
    (x.exponent = bit - 52 ∨ x.exponent = bit - 51 ∧ x.significand = 2 ^ 52)

/-- Decimals of few digits are rounded only once. -/
theorem roundedFrom_of_scale? {n places : ℕ} (above : 0 < n) (small : n < 2 ^ 53)
    (some_places : 0 < places) (few : places ≤ 15) {x : Binary64}
    (found : scale? n (-places) = some x) : x.RoundedFrom (n / 10 ^ places) := by
  have down : ¬ (0 : ℤ) ≤ -places := by omega
  have reach : (- -(places : ℤ)).toNat = places := by omega
  have near : places ≤ greatestPower := few.trans (by decide)
  simp only [scale?, above.ne', if_false, down, reach, near, if_true, Option.bind_eq_bind,
    Option.bind_eq_some_iff] at found
  obtain ⟨whole, wholeFound, factor, factorFound, found⟩ := found
  have wholeValue := value_of_ofNat? above small wholeFound
  have power_small : Nat.pow 10 places < 2 ^ 53 :=
    (Nat.pow_le_pow_right (by decide) few).trans_lt (by decide)
  have factorValue := value_of_ofNat? (Nat.pow_pos (by decide)) power_small factorFound
  push_cast at factorValue
  have wholeAbove : 0 < whole.value := by
    rw [wholeValue]
    exact_mod_cast above
  have factorAbove : 0 < factor.value := by
    rw [factorValue]
    positivity
  have quotient : ((whole.numerator * factor.denominator : ℕ) : ℚ) /
      (whole.denominator * factor.numerator : ℕ) = n / 10 ^ places := by
    rw [← wholeValue, ← factorValue, value_eq_div whole, value_eq_div factor]
    push_cast
    have one := whole.denominator_pos
    have two := factor.denominator_pos
    have three := numerator_pos factorAbove
    field_simp
  have num_pos := Nat.mul_pos (numerator_pos wholeAbove) factor.denominator_pos
  have den_pos := Nat.mul_pos whole.denominator_pos (numerator_pos factorAbove)
  obtain ⟨low, high⟩ := leadingBit_spec num_pos den_pos
  rw [quotient] at low high
  have least : (2 : ℚ) ^ (-50 : ℤ) < n / 10 ^ places := by
    have power_le : (10 : ℚ) ^ places ≤ 10 ^ 15 := pow_le_pow_right₀ (by norm_num) few
    have one_le : (1 : ℚ) ≤ n := by exact_mod_cast above
    rw [lt_div_iff₀ (by positivity)]
    norm_num
    linarith
  have bit := (zpow_lt_zpow_iff_right₀ one_lt_two).1 (least.trans high)
  obtain ⟨full, rounds, exponent⟩ :=
    nearest?_rounds num_pos den_pos found (by simp only [leastExponent]; omega)
  rw [quotient] at rounds
  exact ⟨full, rounds, _, low, high, exponent⟩

end Binary64

end CadenceWire
