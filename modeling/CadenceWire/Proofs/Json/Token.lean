import CadenceWire.Proofs.Json.Sequence
import CadenceWire.Proofs.Text.Written

/-!
Number tokens of JSON. A token without an exponent is a decimal with a whole part that no needless
zero leads. It becomes an integer of the same number, or a double.
-/
namespace CadenceWire.Json.Reader

open Decimal (Written)

private theorem digits_eq (text : List Char) :
    digits text = (text.takeWhile Char.isDigit, text.dropWhile Char.isDigit) :=
  List.span_eq_takeWhile_dropWhile _ _

private theorem digits_append {front rest : List Char} (digit : ∀ c ∈ front, c.isDigit = true)
    (ends : ∀ c ∈ rest.head?, c.isDigit = false) : digits (front ++ rest) = (front, rest) :=
  span_append digit ends

private theorem digits_split {text front rest : List Char} (read : digits text = (front, rest)) :
    text = front ++ rest ∧ ∀ c ∈ front, c.isDigit = true := by
  rw [digits_eq] at read
  cases read
  exact ⟨List.takeWhile_append_dropWhile.symm, List.all_eq_true.1 List.all_takeWhile⟩

/-- A zero in front stands alone. -/
def Unpadded (digits : List Char) : Prop := ∀ c rest, digits ≠ '0' :: c :: rest

private theorem whole_append {front rest : List Char} (written : front ≠ [])
    (unpadded : Unpadded front)
    (digit : ∀ c ∈ front, c.isDigit = true) (ends : ∀ c ∈ rest.head?, c.isDigit = false) :
    whole (front ++ rest) = some (front, rest) := by
  rw [whole, digits_append digit ends]
  split
  next same => cases same; exact absurd rfl written
  next same => cases same; exact absurd rfl (unpadded _ _)
  next => rfl

private theorem whole_split {text front rest : List Char} (read : whole text = some (front, rest)) :
    text = front ++ rest ∧ (∀ c ∈ front, c.isDigit = true) ∧ front ≠ [] ∧ Unpadded front := by
  unfold whole at read
  split at read
  next => cases read
  next => cases read
  next some_digits single =>
    obtain ⟨split, digit⟩ := digits_split (Option.some.inj read)
    rw [Option.some.inj read] at some_digits single
    refine ⟨split, digit, ?_, ?_⟩
    · rintro rfl
      exact some_digits _ rfl
    · rintro c more rfl
      exact single _ _ _ rfl

/-- What stands behind a token without an exponent. -/
def Ends (rest : List Char) : Prop :=
  ∀ c ∈ rest.head?, c.isDigit = false ∧ c ≠ '.' ∧ c ≠ 'e' ∧ c ≠ 'E'

private theorem fraction_append {places rest : List Char} (digit : ∀ c ∈ places, c.isDigit = true)
    (ends : Ends rest) :
    fraction ((if places = [] then [] else '.' :: places) ++ rest) = some (places, rest) := by
  split
  next none =>
    rw [none, List.nil_append]
    unfold fraction
    split
    next => exact absurd rfl (ends _ rfl).2.1
    next => rfl
  next some_places =>
    rw [List.cons_append, fraction, digits_append digit fun c member => (ends c member).1]
    split
    next same => cases same; exact absurd rfl some_places
    next => rfl

private theorem fraction_split {text places rest : List Char}
    (read : fraction text = some (places, rest)) :
    text = (if places = [] then [] else '.' :: places) ++ rest ∧
      ∀ c ∈ places, c.isDigit = true := by
  unfold fraction at read
  split at read
  next =>
    split at read
    next => cases read
    next some_places =>
      obtain ⟨split, digit⟩ := digits_split (Option.some.inj read)
      rw [Option.some.inj read] at some_places
      refine ⟨?_, digit⟩
      rw [if_neg (by rintro rfl; exact some_places _ rfl), split]
      rfl
  next =>
    cases read
    exact ⟨rfl, by simp⟩

private theorem exponent_ends {rest : List Char} (ends : Ends rest) :
    exponent rest = some (none, rest) := by
  unfold exponent
  split
  next => exact absurd rfl (ends _ rfl).2.2.1
  next => exact absurd rfl (ends _ rfl).2.2.2
  next => rfl

/-- What is read of a number behind its sign. -/
def unsigned (negative : Bool) (text : List Char) : Option (Number × List Char) := do
  let (front, rest) ← whole text
  let (places, rest) ← fraction rest
  let (power, rest) ← exponent rest
  let n ← numberOf? negative front places power
  return (n, rest)

private theorem number_signed (negative : Bool) {text : List Char}
    (digit : ∀ c ∈ text.head?, c.isDigit = true) :
    number ((if negative then ['-'] else []) ++ text) = unsigned negative text := by
  cases negative with
  | true => rfl
  | false =>
    rw [if_neg (by decide), List.nil_append, number]
    · rfl
    · rintro rest rfl
      exact absurd (digit _ rfl) (by decide)

private theorem number_text {l : Written} (unpadded : Unpadded l.whole) {rest : List Char}
    (ends : Ends rest) : number (l.text ++ rest) =
      (numberOf? l.negative l.whole l.fraction none).map fun n => (n, rest) := by
  obtain ⟨first, others, front⟩ := List.exists_cons_of_ne_nil l.whole_ne_nil
  have digit := l.isDigit_whole first (front ▸ List.mem_cons_self)
  have behind : ∀ c ∈ ((if l.fraction = [] then [] else '.' :: l.fraction) ++ rest).head?,
      c.isDigit = false := by
    split
    next => exact fun c member => (ends c member).1
    next => simp
  have start : ∀ c ∈ (l.unsigned ++ rest).head?, c.isDigit = true := by
    rw [Written.unsigned, front]
    simp [digit]
  rw [Written.text, List.append_assoc, number_signed _ start, unsigned, Written.unsigned,
    List.append_assoc, whole_append l.whole_ne_nil unpadded l.isDigit_whole behind]
  simp only [Option.bind_eq_bind, Option.bind_some, fraction_append l.isDigit_fraction ends,
    exponent_ends ends]
  cases numberOf? l.negative l.whole l.fraction none with
  | none => rfl
  | some n => rfl

section values

variable {c : Char} {gap rest : List Char}

theorem value_gap (blank : ∀ c ∈ gap, isBlank c = true) (depth : Nat) (text : List Char) :
    value depth (gap ++ text) = value depth text := by
  cases depth <;> simp only [value, skipBlanks_append blank]

theorem value_scalar (printed : isBlank c = false) (noArray : c ≠ '[') (noObject : c ≠ '\x7b')
    (depth : Nat) : value depth (c :: rest) = scalar (c :: rest) := by
  cases depth with
  | zero => rw [value, skipBlanks_of_start printed]
  | succ depth =>
    rw [value, skipBlanks_of_start printed]
    split
    next same => exact absurd (List.cons.inj same).1 noArray
    next same => exact absurd (List.cons.inj same).1 noObject
    next => rfl

theorem ne_of_start (start : c = '-' ∨ c.isDigit = true) {d : Char} (minus : d ≠ '-')
    (digit : d.isDigit = false) : c ≠ d := by
  rintro rfl
  rcases start with rfl | start
  · exact minus rfl
  · rw [start] at digit
    cases digit

/-- What starts with a minus or a digit is read as a number. -/
theorem value_numeral (start : c = '-' ∨ c.isDigit = true) (depth : Nat) (rest : List Char) :
    value depth (c :: rest) = (number (c :: rest)).map fun found => (.number found.1, found.2) := by
  have other {d : Char} (minus : d ≠ '-') (digit : d.isDigit = false) : c ≠ d :=
    ne_of_start start minus digit
  have printed : isBlank c = false := by
    simp only [isBlank, Bool.or_eq_false_iff, decide_eq_false_iff_not]
    exact ⟨⟨⟨other (by decide) rfl, other (by decide) rfl⟩, other (by decide) rfl⟩,
      other (by decide) rfl⟩
  rw [value_scalar printed (other (by decide) rfl) (other (by decide) rfl)]
  unfold scalar
  split
  next same => exact absurd (List.cons.inj same).1 (other (by decide) rfl)
  next same => exact absurd (List.cons.inj same).1 (other (by decide) rfl)
  next same => exact absurd (List.cons.inj same).1 (other (by decide) rfl)
  next same => exact absurd (List.cons.inj same).1 (other (by decide) rfl)
  next => rfl

theorem exists_cons_text (l : Written) :
    ∃ c others, l.text = c :: others ∧ (c = '-' ∨ c.isDigit = true) := by
  obtain ⟨c, others, whole⟩ := List.exists_cons_of_ne_nil l.whole_ne_nil
  rw [Written.text, Written.unsigned, whole]
  cases l.negative with
  | true => exact ⟨'-', _, rfl, .inl rfl⟩
  | false => exact ⟨c, _, rfl, .inr (l.isDigit_whole c (whole ▸ List.mem_cons_self))⟩

theorem value_written {l : Written} {n : Number} (unpadded : Unpadded l.whole)
    (found : numberOf? l.negative l.whole l.fraction none = some n) (depth : Nat) :
    Takes (value depth) Ends l.text (.number n) := by
  intro rest ends
  obtain ⟨c, others, first, start⟩ := exists_cons_text l
  have read := number_text unpadded ends
  rw [found, first] at read
  rw [first, List.cons_append, value_numeral start, ← List.cons_append, read]
  rfl

end values

theorem exponent_split {text : List Char} {power : Option Int}
    (read : exponent text = some (power, [])) :
    (∃ mark rest, text = mark :: rest ∧ (mark = 'e' ∨ mark = 'E') ∧
        ∀ c ∈ (Decimal.splitSign rest).2, c.isDigit = true) ∨
      text = [] ∧ power = none := by
  unfold exponent at read
  split at read
  case h_3 =>
    cases read
    exact .inr ⟨rfl, rfl⟩
  all_goals
    refine .inl ⟨_, _, rfl, by decide, ?_⟩
    dsimp only at read
    split at read
    next => cases read
    next split =>
      obtain ⟨whole, digit⟩ := digits_split split
      cases read
      rw [whole, List.append_nil]
      exact digit

private theorem exists_sign (text : List Char) : ∃ negative rest,
    text = (if negative then ['-'] else []) ++ rest ∧ number text = unsigned negative rest := by
  unfold number
  split
  next negative rest sign =>
    refine ⟨negative, rest, ?_, rfl⟩
    split at sign
    next =>
      cases sign
      rfl
    next =>
      cases sign
      rfl

theorem number_split {text : List Char} {n : Number} (read : number text = some (n, [])) :
    ∃ (l : Written) (tail : List Char) (power : Option Int), text = l.text ++ tail ∧
      Unpadded l.whole ∧ exponent tail = some (power, []) ∧
        numberOf? l.negative l.whole l.fraction power = some n := by
  obtain ⟨negative, _, sign, parts⟩ := exists_sign text
  simp only [parts, unsigned, Option.bind_eq_bind, Option.bind_eq_some_iff, Option.pure_def,
    Option.some.injEq, Prod.mk.injEq] at read
  obtain ⟨⟨front, _⟩, first, ⟨places, _⟩, second, ⟨power, _⟩, third, _, found, rfl, rfl⟩ := read
  obtain ⟨rfl, digit, written, unpadded⟩ := whole_split first
  obtain ⟨rfl, digit'⟩ := fraction_split second
  refine ⟨⟨negative, front, places, written, ?_⟩, _, power, ?_, unpadded, third, found⟩
  · intro c member
    exact (List.mem_append.1 member).elim (digit c) (digit' c)
  · rw [sign, Written.text, Written.unsigned, List.append_assoc, List.append_assoc]

/-- A token without an exponent is a decimal, and nothing but its parts makes the number. -/
theorem exists_written {text : List Char} {n : Number} (read : number text = some (n, []))
    (small : 'e' ∉ text) (large : 'E' ∉ text) : ∃ l : Written, l.text = text ∧
      Unpadded l.whole ∧ numberOf? l.negative l.whole l.fraction none = some n := by
  obtain ⟨l, tail, power, rfl, unpadded, behind, found⟩ := number_split read
  rcases exponent_split behind with ⟨mark, rest, rfl, rfl | rfl, -⟩ | ⟨rfl, rfl⟩
  · exact absurd (List.mem_append_right _ List.mem_cons_self) small
  · exact absurd (List.mem_append_right _ List.mem_cons_self) large
  · exact ⟨l, (List.append_nil _).symm, unpadded, found⟩

theorem le_ofDigitChars (digits : List Char) (significand : Nat) :
    significand ≤ Nat.ofDigitChars 10 digits significand := by
  rw [Nat.ofDigitChars_eq_ofDigitChars_zero]
  exact Nat.le_add_right_of_le (Nat.le_mul_of_pos_left _ (Nat.pow_pos (by decide)))

theorem fillSignificand_of_lt {digits : List Char} {significand : Nat}
    (small : Nat.ofDigitChars 10 digits significand < Width.w64.count) :
    fillSignificand significand digits = (Nat.ofDigitChars 10 digits significand, []) := by
  induction digits generalizing significand with
  | nil => rfl
  | cons c rest ih =>
    rw [Nat.ofDigitChars_cons] at small ⊢
    have next : 10 * significand + (c.toNat - '0'.toNat) < Width.w64.count :=
      Nat.lt_of_le_of_lt (le_ofDigitChars _ _) small
    rw [← ih small]
    exact if_pos next

private theorem fillSignificand_all {digits : List Char} {significand : Nat}
    (all : (fillSignificand significand digits).2 = []) :
    (fillSignificand significand digits).1 = Nat.ofDigitChars 10 digits significand := by
  induction digits generalizing significand with
  | nil => rfl
  | cons c rest ih =>
    unfold fillSignificand at all ⊢
    dsimp only at all ⊢
    split at all
    next fits =>
      rw [if_pos fits, Nat.ofDigitChars_cons]
      exact ih all
    next => cases all

/-- A token without a point is the integer of its digits, if it fits 64 bits. Otherwise it is a
double, scaled from all of its digits if these fit. -/
theorem numberOf?_spec {l : Written} {n : Number}
    (found : numberOf? l.negative l.whole l.fraction none = some n) :
    (∃ z, n = .integer z ∧ l.fraction = [] ∧ (Written.ofInt z).negative = l.negative ∧
        (Written.ofInt z).digits = l.digits) ∨
      ∃ x, n = .double l.negative x ∧
        (l.fraction ≠ [] ∨ l.digits = 0 ∨ Width.w64.half < l.digits) ∧
        (l.digits < Width.w64.count →
          Binary64.scale? l.digits (-l.fraction.length) = some x) := by
  unfold numberOf? at found
  dsimp only at found
  split at found
  next whole =>
    left
    obtain ⟨⟨all, fits⟩, pointless, -⟩ := whole
    have value : (fillSignificand 0 l.whole).1 = l.digits := by
      rw [fillSignificand_all all, Written.digits, pointless, List.append_nil]
    rw [value] at found fits
    refine ⟨_, (Option.some.inj found).symm, pointless, ?_⟩
    rw [Written.digits_ofInt, Written.ofInt]
    dsimp only
    cases sign : l.negative with
    | true =>
      have positive : 0 < l.digits := by
        rcases fits with plus | inside
        · rw [sign] at plus
          cases plus
        · exact inside.1
      simp [positive]
    | false => simp
  next unfit =>
    right
    obtain ⟨x, found, rfl⟩ := Option.map_eq_some_iff.1 found
    refine ⟨x, rfl, ?_, fun small => ?_⟩
    · by_cases point : l.fraction = []
      · right
        by_cases small : l.digits < Width.w64.count
        · have value : fillSignificand 0 l.whole = (l.digits, []) := by
            rw [Written.digits, point, List.append_nil] at small ⊢
            exact fillSignificand_of_lt small
          rw [value] at unfit
          by_contra inside
          exact unfit ⟨⟨rfl, .inr ⟨by omega, by omega⟩⟩, point, rfl⟩
        · exact .inr (Nat.lt_of_lt_of_le Width.w64.half_lt_count (Nat.le_of_not_lt small))
      · exact .inl point
    · rw [Written.digits, Nat.ofDigitChars_append] at small
      have whole_small : Nat.ofDigitChars 10 l.whole 0 < Width.w64.count :=
        Nat.lt_of_le_of_lt (le_ofDigitChars _ _) small
      rw [fillSignificand_of_lt whole_small] at found
      dsimp only at found
      rw [fillSignificand_of_lt small, ← Nat.ofDigitChars_append] at found
      simpa [Written.digits] using found

end CadenceWire.Json.Reader
