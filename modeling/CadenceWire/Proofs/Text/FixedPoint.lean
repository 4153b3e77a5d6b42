import CadenceWire.Proofs.Text.Digits
import Mathlib.Data.Rat.Cast.Order
import Mathlib.Tactic.Ring

/-!
Literals of fixed-point numbers. What is read of one is the number that it denotes, in
hundred-millionths and without rounding, and no step on the way goes beyond 128 bits unless the
whole number does.
-/
namespace CadenceWire.FixedPoint

open Decimal (Digits accumulate?)

/-- Digits behind a point, if there are any, and the part of one that they denote. -/
inductive Places : List Char → ℚ → Prop
  | none : Places [] 0
  | more {c : Char} {d : ℕ} {rest : List Char} {q : ℚ} (small : d < 10) (code : c.toNat = 48 + d)
      (behind : Places rest q) : Places (c :: rest) ((d + q) / 10)

/-- One or more digits, and perhaps a point with at most eight places. -/
inductive Unsigned : List Char → ℚ → Prop
  | whole {digits : List Char} {n : ℕ} (run : Digits digits n) : Unsigned digits n
  | point {digits fraction : List Char} {n : ℕ} {q : ℚ} (run : Digits digits n)
      (behind : Places fraction q) (few : fraction.length ≤ 8) :
      Unsigned (digits ++ '.' :: fraction) (n + q)

/-- The literals, whether each has a minus, and what it denotes apart from that. -/
inductive Literal : List Char → Bool → ℚ → Prop
  | plain {text : List Char} {q : ℚ} (unsigned : Unsigned text q) : Literal text false q
  | plus {text : List Char} {q : ℚ} (unsigned : Unsigned text q) : Literal ('+' :: text) false q
  | minus {text : List Char} {q : ℚ} (unsigned : Unsigned text q) : Literal ('-' :: text) true q

theorem Places.isDigit {fraction : List Char} {q : ℚ} (places : Places fraction q) :
    ∀ c ∈ fraction, c.isDigit = true := by
  induction places with
  | none => exact fun _ member => nomatch member
  | more small code _ ih =>
    exact List.forall_mem_cons.2 ⟨Decimal.isDigit_iff.2 ⟨_, small, code⟩, ih⟩

theorem Places.value {fraction : List Char} {q : ℚ} (places : Places fraction q) :
    (Nat.ofDigitChars 10 fraction 0 : ℚ) = q * 10 ^ fraction.length := by
  induction places with
  | none => simp
  | @more c d rest q small code _ ih =>
    have digit : c.toNat - '0'.toNat = d := by
      rw [code]
      exact Nat.add_sub_cancel_left 48 d
    rw [Nat.ofDigitChars_cons, digit, Nat.ofDigitChars_eq_ofDigitChars_zero, List.length_cons]
    push_cast
    rw [ih]
    ring

private theorem exists_places {fraction : List Char} (digit : ∀ c ∈ fraction, c.isDigit = true) :
    ∃ q, Places fraction q := by
  induction fraction with
  | nil => exact ⟨0, .none⟩
  | cons c rest ih =>
    obtain ⟨first, others⟩ := List.forall_mem_cons.1 digit
    obtain ⟨d, small, code⟩ := Decimal.isDigit_iff.1 first
    obtain ⟨q, behind⟩ := ih others
    exact ⟨_, .more small code behind⟩

section body

/-- The digits in front of the point. -/
def front (body : List Char) : List Char := body.takeWhile (· ≠ '.')

/-- What stands behind the point. -/
def rear (body : List Char) : List Char := (body.dropWhile (· ≠ '.')).drop 1

variable {body digits fraction : List Char} {n : ℕ} {q : ℚ}

private theorem front_append (digit : ∀ c ∈ digits, c.isDigit = true) (rest : List Char) :
    front (digits ++ rest) = digits ++ front rest ∧ rear (digits ++ rest) = rear rest := by
  have other := Decimal.ne_point digit
  exact ⟨List.takeWhile_append_of_pos other,
    congrArg (List.drop 1) (List.dropWhile_append_of_pos other)⟩

private theorem exists_point (body : List Char) :
    body = front body ∧ rear body = [] ∨ body = front body ++ '.' :: rear body := by
  have split := List.takeWhile_append_dropWhile (p := (· ≠ '.')) (l := body)
  have first := List.head?_dropWhile_not (· ≠ '.') body
  unfold front rear
  cases behind : body.dropWhile (· ≠ '.') with
  | nil =>
    rw [behind, List.append_nil] at split
    exact .inl ⟨split.symm, rfl⟩
  | cons c rest =>
    rw [behind] at split first
    obtain rfl : c = '.' := by simpa using first
    exact .inr split.symm

private theorem unsigned_iff : Unsigned body q ↔ ∃ (n : ℕ) (f : ℚ), Digits (front body) n ∧
    Places (rear body) f ∧ (rear body).length ≤ 8 ∧ q = n + f := by
  constructor
  · intro unsigned
    cases unsigned with
    | @whole _ n run =>
      obtain ⟨before, behind⟩ := front_append run.isDigit []
      rw [List.append_nil] at before behind
      rw [before, behind, front, rear]
      exact ⟨n, 0, (List.append_nil body).symm ▸ run, .none, Nat.zero_le _, (add_zero _).symm⟩
    | @point digits fraction n f run places few =>
      obtain ⟨before, behind⟩ := front_append run.isDigit ('.' :: fraction)
      rw [before, behind]
      exact ⟨n, f, (List.append_nil digits).symm ▸ run, places, few, rfl⟩
  · rintro ⟨n, f, run, places, few, rfl⟩
    rcases exists_point body with ⟨whole, none⟩ | split
    · rw [none] at places
      cases places
      rw [whole, add_zero]
      exact .whole run
    · rw [split]
      exact .point run places few

/-- Places filled up with zeros. -/
def padded (fraction : List Char) : List Char :=
  fraction ++ List.replicate (places - fraction.length) '0'

/-- The number that is read, in hundred-millionths. -/
def scaledValue (body : List Char) : ℕ :=
  Nat.ofDigitChars 10 (front body) 0 * factor + Nat.ofDigitChars 10 (padded (rear body)) 0

theorem Places.padded (places : Places fraction q) (few : fraction.length ≤ 8) :
    (Nat.ofDigitChars 10 (padded fraction) 0 : ℚ) = q * 10 ^ 8 := by
  have whole : (10 : ℚ) ^ 8 = 10 ^ (8 - fraction.length) * 10 ^ fraction.length := by
    rw [← pow_add, Nat.sub_add_cancel few]
  rw [FixedPoint.padded, Nat.ofDigitChars_append, Nat.ofDigitChars_replicate_zero, Nat.cast_mul,
    places.value, whole]
  push_cast
  change (10 : ℚ) ^ (8 - fraction.length) * _ = _
  ring

theorem Unsigned.scaledValue (unsigned : Unsigned body q) :
    (scaledValue body : ℚ) = q * 10 ^ 8 := by
  obtain ⟨n, f, run, places, few, rfl⟩ := unsigned_iff.1 unsigned
  have scale : (factor : ℚ) = 10 ^ 8 := by norm_num [factor, FixedPoint.places]
  rw [FixedPoint.scaledValue, run.ofDigitChars_eq, Nat.cast_add, places.padded few, Nat.cast_mul,
    add_mul, scale]

/-- Whether a body is read at all. -/
def Readable (body : List Char) : Prop :=
  front body ≠ [] ∧ (rear body).length ≤ places ∧ (front body ++ rear body).all Char.isDigit = true

instance (body : List Char) : Decidable (Readable body) :=
  inferInstanceAs (Decidable (_ ∧ _))

private theorem readable_iff : Readable body ↔ ∃ q, Unsigned body q := by
  constructor
  · rintro ⟨some_digits, few, digit⟩
    obtain ⟨whole, behind⟩ := List.forall_mem_append.1 (List.all_eq_true.1 digit)
    obtain ⟨n, run⟩ := Decimal.exists_digits some_digits whole
    obtain ⟨f, places⟩ := exists_places behind
    exact ⟨n + f, unsigned_iff.2 ⟨n, f, run, places, few, rfl⟩⟩
  · rintro ⟨q, unsigned⟩
    obtain ⟨n, f, run, places, few, -⟩ := unsigned_iff.1 unsigned
    exact ⟨run.ne_nil, few,
      List.all_eq_true.2 (List.forall_mem_append.2 ⟨run.isDigit, places.isDigit⟩)⟩

end body

variable {text : List Char} {minus : Bool} {q : ℚ}

private theorem literal_iff :
    Literal text minus q ↔ ∃ body, Decimal.splitSign text = (minus, body) ∧ Unsigned body q := by
  constructor
  · intro literal
    cases literal with
    | plus unsigned | minus unsigned => exact ⟨_, rfl, unsigned⟩
    | plain unsigned =>
      refine ⟨text, ?_, unsigned⟩
      cases unsigned with
      | whole run => simpa using run.splitSign []
      | point run _ _ => exact run.splitSign _
  · rintro ⟨body, split, unsigned⟩
    unfold Decimal.splitSign at split
    split at split <;> cases split
    · exact .minus unsigned
    · exact .plus unsigned
    · exact .plain unsigned

private theorem not_readable_iff {body : List Char} : ¬ Readable body ↔
    front body = [] ∨ places < (rear body).length ∨
      (!(front body ++ rear body).all Char.isDigit) = true := by
  simp only [Readable, not_and_or, Nat.not_le, not_not, Bool.not_eq_true', Bool.not_eq_true]

private theorem scaled?_eq {body : List Char} (split : Decimal.splitSign text = (minus, body)) :
    scaled? text =
      if Readable body ∧ scaledValue body < Width.w128.count then
        some (SignMagnitude.normal ⟨minus, scaledValue body⟩)
      else none := by
  rw [scaled?, split]
  change (if front body = [] ∨ places < (rear body).length ∨
      (!(front body ++ rear body).all Char.isDigit) = true then none
    else if scaledValue body < Width.w128.count then
      some (SignMagnitude.normal ⟨minus, scaledValue body⟩) else none) = _
  by_cases readable : Readable body
  · rw [if_neg (mt not_readable_iff.2 (not_not.2 readable))]
    simp only [readable, true_and]
  · rw [if_pos (not_readable_iff.1 readable), if_neg fun both => readable both.1]

private theorem normal_eq_iff {m : ℕ} {s : SignMagnitude} : SignMagnitude.normal ⟨minus, m⟩ = s ↔
    m = s.magnitude ∧ (s.negative = true ↔ minus = true ∧ s.magnitude ≠ 0) := by
  obtain ⟨negative, magnitude⟩ := s
  rw [SignMagnitude.normal, SignMagnitude.mk.injEq, and_comm]
  refine and_congr_right fun same => ?_
  change m = magnitude at same
  rw [same, Bool.eq_iff_iff, Bool.and_eq_true, bne_iff_ne]
  exact iff_comm

/-- A literal is read as the number it denotes, and nothing else is read. -/
theorem scaled?_eq_some_iff {s : SignMagnitude} : scaled? text = some s ↔
    ∃ minus q, Literal text minus q ∧ (s.magnitude : ℚ) = q * 10 ^ 8 ∧ s.magnitude < 2 ^ 128 ∧
      (s.negative = true ↔ minus = true ∧ s.magnitude ≠ 0) := by
  constructor
  · intro read
    rcases form : Decimal.splitSign text with ⟨minus, body⟩
    rw [scaled?_eq form] at read
    split at read
    next within =>
      obtain ⟨q, unsigned⟩ := readable_iff.1 within.1
      obtain ⟨same, sign⟩ := normal_eq_iff.1 (Option.some.inj read)
      have literal := literal_iff.2 ⟨body, form, unsigned⟩
      exact ⟨minus, q, literal, same ▸ unsigned.scaledValue, same ▸ within.2, sign⟩
    next => cases read
  · rintro ⟨minus, q, literal, value, small, sign⟩
    obtain ⟨body, split, unsigned⟩ := literal_iff.1 literal
    have same : scaledValue body = s.magnitude := by
      have scaled := unsigned.scaledValue
      rw [← value] at scaled
      exact_mod_cast scaled
    have within : Readable body ∧ scaledValue body < Width.w128.count :=
      ⟨readable_iff.2 ⟨q, unsigned⟩, same ▸ small⟩
    rw [scaled?_eq split, if_pos within, normal_eq_iff.2 ⟨same, sign⟩]

/-- A number, if 128 bits hold it. -/
def word? (n : ℕ) : Option ℕ := if n < 2 ^ 128 then some n else none

/-- The number that is read step by step, where every step has to stay within 128 bits. -/
def checked? (text : List Char) : Option SignMagnitude :=
  let (negative, body) := Decimal.splitSign text
  if Readable body then do
    let whole ← accumulate? (· < 2 ^ 128) 0 (front body)
    let fraction ← accumulate? (· < 2 ^ 128) 0 (padded (rear body))
    let product ← word? (whole * factor)
    let sum ← word? (product + fraction)
    return SignMagnitude.normal ⟨negative, sum⟩
  else none

private theorem accumulate?_word {digits : List Char} (digit : ∀ c ∈ digits, c.isDigit = true) :
    accumulate? (· < 2 ^ 128) 0 digits = word? (Nat.ofDigitChars 10 digits 0) :=
  Decimal.accumulate?_eq (fun _ _ => Nat.lt_of_le_of_lt) digit (by decide)

private theorem word?_eq_some_iff {n m : ℕ} : word? n = some m ↔ n < 2 ^ 128 ∧ n = m := by
  rw [word?, Option.ite_none_right_eq_some, Option.some_inj]

/-- No step fails that the whole number would not fail as well. -/
theorem checked?_eq (text : List Char) : checked? text = scaled? text := by
  rcases form : Decimal.splitSign text with ⟨minus, body⟩
  rw [scaled?_eq form, checked?, form]
  dsimp only
  by_cases readable : Readable body
  · obtain ⟨q, unsigned⟩ := readable_iff.1 readable
    obtain ⟨n, f, run, places, -, -⟩ := unsigned_iff.1 unsigned
    have zeros : ∀ c ∈ padded (rear body), c.isDigit = true := by
      refine List.forall_mem_append.2 ⟨places.isDigit, fun c member => ?_⟩
      rw [List.eq_of_mem_replicate member]
      decide
    -- Every number on the way is at most the last, so only the last decides.
    have product : Nat.ofDigitChars 10 (front body) 0 * factor ≤ scaledValue body :=
      Nat.le_add_right _ _
    have whole : Nat.ofDigitChars 10 (front body) 0 ≤ scaledValue body :=
      (Nat.le_mul_of_pos_right _ (by decide)).trans product
    have fraction : Nat.ofDigitChars 10 (padded (rear body)) 0 ≤ scaledValue body :=
      Nat.le_add_left _ _
    rw [if_pos readable, accumulate?_word run.isDigit, accumulate?_word zeros]
    ext s
    simp only [Option.bind_eq_bind, Option.bind_eq_some_iff, word?_eq_some_iff, readable, true_and,
      Option.ite_none_right_eq_some]
    constructor
    · rintro ⟨_, ⟨-, rfl⟩, _, ⟨-, rfl⟩, _, ⟨-, rfl⟩, _, ⟨small, rfl⟩, same⟩
      exact ⟨small, same⟩
    · rintro ⟨small, same⟩
      exact ⟨_, ⟨whole.trans_lt small, rfl⟩, _, ⟨fraction.trans_lt small, rfl⟩,
        _, ⟨product.trans_lt small, rfl⟩, _, ⟨small, rfl⟩, same⟩
  · rw [if_neg readable, if_neg fun both => readable both.1]

end CadenceWire.FixedPoint
