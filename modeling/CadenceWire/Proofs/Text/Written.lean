import CadenceWire.Proofs.Text.Literal
import Mathlib.Tactic.Ring

/-!
Decimals as they are written, with a point or without one. What a literal denotes depends on all of
its digits together and on how many of them stand behind the point.
-/
namespace CadenceWire.Decimal

/-- A sign, digits, and more digits behind a point if there are any. -/
structure Written where
  negative : Bool
  whole : List Char
  fraction : List Char
  whole_ne_nil : whole ≠ []
  isDigit : ∀ c ∈ whole ++ fraction, c.isDigit = true

namespace Written

variable (l : Written)

def unsigned : List Char := l.whole ++ if l.fraction = [] then [] else '.' :: l.fraction

def text : List Char := (if l.negative then ['-'] else []) ++ l.unsigned

/-- The number that all digits denote together. -/
def digits : Nat := Nat.ofDigitChars 10 (l.whole ++ l.fraction) 0

theorem isDigit_whole : ∀ c ∈ l.whole, c.isDigit = true :=
  fun c member => l.isDigit c (List.mem_append_left _ member)

theorem isDigit_fraction : ∀ c ∈ l.fraction, c.isDigit = true :=
  fun c member => l.isDigit c (List.mem_append_right _ member)

private theorem splitSign_text : splitSign l.text = (l.negative, l.unsigned) := by
  obtain ⟨c, rest, whole⟩ := List.exists_cons_of_ne_nil l.whole_ne_nil
  have digit := l.isDigit_whole c (whole ▸ List.mem_cons_self)
  unfold text
  cases l.negative with
  | true => rfl
  | false =>
    rw [unsigned, whole]
    exact splitSign_digit digit _

theorem signed?_text (pointless : l.fraction = []) :
    signed? l.text = some ⟨l.negative, l.digits⟩ := by
  have all := List.all_eq_true.2 l.isDigit_whole
  simp only [signed?, splitSign_text, unsigned, digits, pointless, if_true, List.append_nil]
  rw [natural?, if_pos ⟨l.whole_ne_nil, all⟩]
  rfl

private theorem takeWhile_unsigned : l.unsigned.takeWhile (· ≠ '.') = l.whole := by
  rw [unsigned, List.takeWhile_append_of_pos (ne_point l.isDigit_whole)]
  split <;> simp

private theorem dropWhile_unsigned : (l.unsigned.dropWhile (· ≠ '.')).drop 1 = l.fraction := by
  rw [unsigned, List.dropWhile_append_of_pos (ne_point l.isDigit_whole)]
  split <;> simp [*]

/-- No more places than these are read, and fewer are filled up with zeros. -/
theorem scaled?_text : FixedPoint.scaled? l.text =
    if l.fraction.length ≤ FixedPoint.places ∧
        l.digits * 10 ^ (FixedPoint.places - l.fraction.length) < Width.w128.count then
      some (SignMagnitude.normal
        ⟨l.negative, l.digits * 10 ^ (FixedPoint.places - l.fraction.length)⟩)
    else none := by
  have all := List.all_eq_true.2 l.isDigit
  simp only [FixedPoint.scaled?, splitSign_text, takeWhile_unsigned, dropWhile_unsigned, all,
    l.whole_ne_nil, Bool.not_true, Bool.false_eq_true, false_or, or_false]
  by_cases long : FixedPoint.places < l.fraction.length
  · rw [if_pos long, if_neg fun short => Nat.not_le.2 long short.1]
  · have short := Nat.le_of_not_lt long
    have factor : FixedPoint.factor =
        10 ^ l.fraction.length * 10 ^ (FixedPoint.places - l.fraction.length) := by
      rw [← Nat.pow_add, Nat.add_sub_cancel' short]
      rfl
    have value : Nat.ofDigitChars 10 l.whole 0 * FixedPoint.factor + Nat.ofDigitChars 10
        (l.fraction ++ List.replicate (FixedPoint.places - l.fraction.length) '0') 0 =
          l.digits * 10 ^ (FixedPoint.places - l.fraction.length) := by
      rw [digits, Nat.ofDigitChars_append, Nat.ofDigitChars_append, Nat.ofDigitChars_replicate_zero,
        factor, @Nat.ofDigitChars_eq_ofDigitChars_zero l.fraction (Nat.ofDigitChars 10 l.whole 0)]
      ring
    simp only [if_neg long, value, short, true_and]

/-- A literal of a fixed-point kind fits 64 bits with all the places. -/
theorem bounds_of_ofLiteral? {l : Written} {kind : FixedPointKind} {x : FixedPoint}
    (read : FixedPoint.ofLiteral? kind (String.ofList l.text) = some x) :
    l.fraction.length ≤ FixedPoint.places ∧
      l.digits * 10 ^ (FixedPoint.places - l.fraction.length) < Width.w64.count := by
  rw [FixedPoint.ofLiteral?, String.toList_ofList, scaled?_text] at read
  split at read
  next fits =>
    refine ⟨fits.1, ?_⟩
    obtain ⟨rfl, scaled⟩ := FixedPoint.ofScaled?_eq_some_iff.1 read
    rw [SignMagnitude.toInt_normal] at scaled
    have holds := x.holds
    rw [scaled] at holds
    generalize l.digits * 10 ^ (FixedPoint.places - l.fraction.length) = magnitude at *
    cases kind : x.kind with
    | fix64 | ufix64 =>
      simp only [kind, FixedPointKind.Holds, SignMagnitude.toInt, Width.half, Width.count,
        Width.bits] at holds ⊢
      split at holds <;> omega
  next => cases read

/-- Literals of one number are read as one, wherever the point stands in them. -/
theorem scaled?_congr {l l' : Written} (sign : l.negative = l'.negative)
    (few : l.fraction.length ≤ FixedPoint.places) (few' : l'.fraction.length ≤ FixedPoint.places)
    (same : l.digits * 10 ^ l'.fraction.length = l'.digits * 10 ^ l.fraction.length) :
    FixedPoint.scaled? l.text = FixedPoint.scaled? l'.text := by
  have scaled : l.digits * 10 ^ (FixedPoint.places - l.fraction.length) =
      l'.digits * 10 ^ (FixedPoint.places - l'.fraction.length) := by
    obtain ⟨more, split⟩ := Nat.exists_eq_add_of_le few
    obtain ⟨more', split'⟩ := Nat.exists_eq_add_of_le few'
    have positive : 0 < 10 ^ (l.fraction.length + l'.fraction.length) := Nat.pow_pos (by decide)
    refine Nat.eq_of_mul_eq_mul_right positive ?_
    rw [split, Nat.add_sub_cancel_left, ← split, split', Nat.add_sub_cancel_left]
    calc l.digits * 10 ^ more * 10 ^ (l.fraction.length + l'.fraction.length)
        = l.digits * 10 ^ l'.fraction.length * 10 ^ (l.fraction.length + more) := by ring
      _ = l'.digits * 10 ^ l.fraction.length * 10 ^ (l'.fraction.length + more') := by
        rw [same, ← split, split']
      _ = l'.digits * 10 ^ more' * 10 ^ (l.fraction.length + l'.fraction.length) := by ring
  simp only [scaled?_text, sign, scaled, few, few', true_and]

/-- The same digits and point behind the other sign or none. -/
def signed (negative : Bool) : Written := { l with negative }

end Written

/-- The number in front of the point. -/
def wholePart (text : List Char) : Nat :=
  Nat.ofDigitChars 10 ((splitSign text).2.takeWhile (· ≠ '.')) 0

/-- How many places there are behind the point. -/
def places (text : List Char) : Nat :=
  (((splitSign text).2.dropWhile (· ≠ '.')).drop 1).length

theorem Written.places_text (l : Written) : places l.text = l.fraction.length := by
  rw [places, splitSign_text, dropWhile_unsigned]

private theorem ofDigitChars_lt {digits : List Char} (digit : ∀ c ∈ digits, c.isDigit = true) :
    Nat.ofDigitChars 10 digits 0 < 10 ^ digits.length := by
  induction digits with
  | nil => decide
  | cons c rest ih =>
    have here := Char.isDigit_iff_toNat.1 (digit c List.mem_cons_self)
    have behind := ih fun c member => digit c (List.mem_cons_of_mem _ member)
    have first : c.toNat - '0'.toNat ≤ 9 := by
      change 48 ≤ c.toNat ∧ c.toNat ≤ 57 at here
      change c.toNat - 48 ≤ 9
      omega
    have scaled := Nat.mul_le_mul_left (10 ^ rest.length) first
    rw [Nat.ofDigitChars_cons, Nat.ofDigitChars_eq_ofDigitChars_zero, List.length_cons,
      Nat.pow_succ, Nat.mul_zero, Nat.zero_add]
    omega

theorem Written.wholePart_text (l : Written) :
    wholePart l.text = l.digits / 10 ^ l.fraction.length := by
  have small := ofDigitChars_lt l.isDigit_fraction
  rw [wholePart, splitSign_text, takeWhile_unsigned, digits, Nat.ofDigitChars_append,
    Nat.ofDigitChars_eq_ofDigitChars_zero (l := l.fraction),
    Nat.mul_add_div (Nat.pow_pos (by decide)), Nat.div_eq_of_lt small, Nat.add_zero]

/-- A number as it is written without a point. -/
def Written.ofInt (n : Int) : Written where
  negative := n < 0
  whole := Nat.toDigits 10 n.natAbs
  fraction := []
  whole_ne_nil := Nat.toDigits_ne_nil
  isDigit := by
    rw [List.append_nil]
    exact isDigit_toDigits _

theorem Written.text_ofInt (n : Int) : (ofInt n).text = (Decimal.ofInt n).toList := by
  rw [text, unsigned, ofInt, Decimal.ofInt]
  by_cases negative : n < 0
  · simp [negative, ofNat]
  · simp [negative, ofNat]

theorem Written.digits_ofInt (n : Int) : (ofInt n).digits = n.natAbs := by
  rw [digits, ofInt, List.append_nil, Nat.ofDigitChars_ten_toDigits]

section foreign

variable {text : List Char} {c : Char}

/-- A character that is neither a digit nor a sign. -/
def Foreign (c : Char) : Prop := c.isDigit = false ∧ c ≠ '-' ∧ c ≠ '+'

instance (c : Char) : Decidable (Foreign c) := inferInstanceAs (Decidable (_ ∧ _))

private theorem mem_splitSign (foreign : Foreign c) (member : c ∈ text) :
    c ∈ (splitSign text).2 := by
  unfold splitSign
  split
  next => exact List.mem_of_ne_of_mem foreign.2.1 member
  next => exact List.mem_of_ne_of_mem foreign.2.2 member
  next => exact member

theorem signed?_foreign (foreign : Foreign c) (member : c ∈ text) : signed? text = none := by
  have other : (splitSign text).2.all Char.isDigit = false :=
    List.all_eq_false.2 ⟨c, mem_splitSign foreign member, by simp [foreign.1]⟩
  simp only [signed?, natural?, other, Bool.false_eq_true, and_false, if_false, Option.map_none]

theorem scaled?_foreign (foreign : Foreign c) (noPoint : c ≠ '.') (member : c ∈ text) :
    FixedPoint.scaled? text = none := by
  have inside := mem_splitSign foreign member
  simp only [FixedPoint.scaled?]
  generalize (splitSign text).2 = body at *
  have other : (body.takeWhile (· ≠ '.') ++ (body.dropWhile (· ≠ '.')).drop 1).all Char.isDigit =
      false := by
    refine List.all_eq_false.2 ⟨c, ?_, by simp [foreign.1]⟩
    rw [← List.takeWhile_append_dropWhile (p := (· ≠ '.')) (l := body)] at inside
    rcases List.mem_append.1 inside with front | back
    · exact List.mem_append_left _ front
    · refine List.mem_append_right _ ?_
      have point := List.head?_dropWhile_not (· ≠ '.') body
      cases behind : body.dropWhile (· ≠ '.') with
      | nil =>
        rw [behind] at back
        cases back
      | cons first rest =>
        rw [behind] at back point
        have first : first = '.' := by simpa using point
        exact List.mem_of_ne_of_mem (first ▸ noPoint) back
  rw [if_pos (.inr (.inr (by rw [other]; rfl)))]

end foreign

end CadenceWire.Decimal
