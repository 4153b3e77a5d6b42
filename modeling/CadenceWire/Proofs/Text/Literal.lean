import CadenceWire.Account
import CadenceWire.Numeric.FixedPoint
import CadenceWire.Numeric.Integer

/-!
What is written as text is read back: numbers of every kind, and addresses. So no two of a kind are
written alike.
-/
namespace CadenceWire

namespace SignMagnitude

theorem toInt_natAbs (n : Int) : toInt ⟨n < 0, n.natAbs⟩ = n := by
  simp only [toInt, decide_eq_true_eq]
  split <;> omega

theorem toInt_normal (s : SignMagnitude) : s.normal.toInt = s.toInt := by
  obtain ⟨negative, magnitude⟩ := s
  cases negative with
  | false => rfl
  | true => cases magnitude <;> rfl

end SignMagnitude

namespace Decimal

theorem isDigit_toDigits (n : Nat) : ∀ c ∈ Nat.toDigits 10 n, c.isDigit = true :=
  fun _ member => Nat.isDigit_of_mem_toDigits (by decide) (by decide) member

/-- Digits end where a point stands. -/
theorem ne_point {digits : List Char} (digit : ∀ c ∈ digits, c.isDigit = true) :
    ∀ c ∈ digits, decide (c ≠ '.') = true := by
  refine fun c member => decide_eq_true ?_
  rintro rfl
  exact absurd (digit _ member) (by decide)

private theorem natural?_toDigits (n : Nat) : natural? (Nat.toDigits 10 n) = some n := by
  have digits := List.all_eq_true.2 (isDigit_toDigits n)
  rw [natural?, if_pos ⟨Nat.toDigits_ne_nil, digits⟩, Nat.ofDigitChars_ten_toDigits]

theorem splitSign_digit {c : Char} (digit : c.isDigit = true) (rest : List Char) :
    splitSign (c :: rest) = (false, c :: rest) := by
  unfold splitSign
  split
  next same => cases same; exact absurd digit (by decide)
  next same => cases same; exact absurd digit (by decide)
  next => rfl

private theorem splitSign_toDigits (n : Nat) (rest : List Char) :
    splitSign (Nat.toDigits 10 n ++ rest) = (false, Nat.toDigits 10 n ++ rest) := by
  have digits := isDigit_toDigits n
  cases written : Nat.toDigits 10 n with
  | nil => exact absurd written Nat.toDigits_ne_nil
  | cons first others => exact splitSign_digit (digits first (written ▸ List.mem_cons_self)) _

theorem signed?_ofInt (n : Int) : signed? (ofInt n).toList = some ⟨n < 0, n.natAbs⟩ := by
  unfold ofInt ofNat
  split
  next negative =>
    simp only [String.toList_append, Nat.toList_repr, signed?, negative, decide_true]
    simp [splitSign, natural?_toDigits]
  next positive =>
    have unsigned := splitSign_toDigits n.natAbs []
    rw [List.append_nil] at unsigned
    simp only [Nat.toList_repr, signed?, unsigned, positive, decide_false]
    simp [natural?_toDigits]

theorem ofInt_injective : Function.Injective ofInt := by
  intro m n same
  have read := signed?_ofInt m
  rw [same, signed?_ofInt] at read
  rw [← SignMagnitude.toInt_natAbs m, ← SignMagnitude.toInt_natAbs n, Option.some.inj read]

theorem ofInt_ne_empty (n : Int) : ofInt n ≠ "" := by
  intro none
  have read := signed?_ofInt n
  rw [none] at read
  cases read

theorem not_blank_of_mem_ofInt {n : Int} {c : Char} (member : c ∈ (ofInt n).toList) : c ≠ ' ' := by
  rintro rfl
  have digits : ' ' ∈ Nat.toDigits 10 n.natAbs := by
    unfold ofInt ofNat at member
    split at member <;> simpa using member
  exact absurd (isDigit_toDigits _ _ digits) (by decide)

end Decimal

theorem Integer.ofLiteral?_text (n : Integer) : ofLiteral? n.kind n.text = some n := by
  -- The kinds that refuse a minus have no negative numbers to write.
  have signed : n.value < 0 → n.kind.readsMinus = true := by
    intro negative
    have low := Int.lt_of_le_of_lt n.holds.1 negative
    cases kind : n.kind with
    | int | intOf => rfl
    | uint => rfl
    | uintOf w | wordOf w => simp [kind, IntegerKind.min] at low
  unfold ofLiteral? text
  rw [Decimal.signed?_ofInt]
  simp only [Option.bind_eq_bind, Option.bind_some, SignMagnitude.toInt_natAbs]
  rw [if_neg (by simpa using signed)]
  exact ofInt?_eq_some_iff.2 ⟨rfl, rfl⟩

namespace FixedPoint

/-- What `render` writes behind the point: all places, with zeros in front. -/
def fraction (n : Nat) : List Char :=
  List.replicate (places - (Nat.toDigits 10 (n % factor)).length) '0' ++
    Nat.toDigits 10 (n % factor)

private theorem length_fraction (n : Nat) : (fraction n).length = places := by
  have short : (Nat.toDigits 10 (n % factor)).length ≤ places := by
    rw [Nat.length_toDigits_le_iff (by decide) (by decide)]
    exact Nat.mod_lt _ (by decide)
  simp only [fraction, List.length_append, List.length_replicate]
  omega

private theorem isDigit_fraction (n : Nat) : ∀ c ∈ fraction n, c.isDigit = true := by
  intro c member
  rcases List.mem_append.1 member with zero | digit
  · rw [List.eq_of_mem_replicate zero]
    rfl
  · exact Decimal.isDigit_toDigits _ c digit

private theorem ofDigitChars_fraction (n : Nat) :
    Nat.ofDigitChars 10 (fraction n) 0 = n % factor := by
  rw [fraction, Nat.ofDigitChars_append, Nat.ofDigitChars_replicate_zero, Nat.mul_zero,
    Nat.ofDigitChars_ten_toDigits]

private theorem toList_render (negative : Bool) (n : Nat) :
    (render ⟨negative, n⟩).toList =
      (if negative then ['-'] else []) ++ (Nat.toDigits 10 (n / factor) ++ '.' :: fraction n) := by
  cases negative <;> simp [render, Decimal.ofNat, fraction]

private theorem splitSign_render (negative : Bool) (n : Nat) :
    Decimal.splitSign (render ⟨negative, n⟩).toList =
      (negative, Nat.toDigits 10 (n / factor) ++ '.' :: fraction n) := by
  rw [toList_render]
  cases negative with
  | true => rfl
  | false => exact Decimal.splitSign_toDigits _ _

/-- The digits in front of the point and those behind it are told apart by the point. -/
theorem scaled?_render {negative : Bool} {n : Nat} (small : n < Width.w128.count) :
    scaled? (render ⟨negative, n⟩).toList = some (SignMagnitude.normal ⟨negative, n⟩) := by
  have whole := Decimal.ne_point (Decimal.isDigit_toDigits (n / factor))
  have front : (Nat.toDigits 10 (n / factor) ++ '.' :: fraction n).takeWhile (· ≠ '.') =
      Nat.toDigits 10 (n / factor) := by
    rw [List.takeWhile_append_of_pos whole]
    simp
  have back : ((Nat.toDigits 10 (n / factor) ++ '.' :: fraction n).dropWhile (· ≠ '.')).drop 1 =
      fraction n := by
    rw [List.dropWhile_append_of_pos whole]
    simp
  have digits : (Nat.toDigits 10 (n / factor) ++ fraction n).all Char.isDigit = true :=
    List.all_eq_true.2 fun c member => (List.mem_append.1 member).elim
      (Decimal.isDigit_toDigits _ c) (isDigit_fraction n c)
  have value : n / factor * factor + n % factor = n := Nat.div_add_mod' n factor
  simp only [scaled?, splitSign_render, front, back, digits, length_fraction]
  simp only [Nat.toDigits_ne_nil, Nat.lt_irrefl, Bool.not_true, Bool.false_eq_true, or_self,
    if_false, Nat.sub_self, List.replicate_zero, List.append_nil, Nat.ofDigitChars_ten_toDigits,
    ofDigitChars_fraction, value, if_pos small]

theorem ofLiteral?_text (n : FixedPoint) : ofLiteral? n.kind n.text = some n := by
  have small : n.scaled.natAbs < Width.w128.count := by
    obtain ⟨kind, scaled, holds⟩ := n
    cases kind with
    | fix64 | ufix64 =>
      simp only [FixedPointKind.Holds, Width.half, Width.count, Width.bits] at holds ⊢
      omega
  rw [ofLiteral?, text, scaled?_render small]
  simp only [Option.bind_eq_bind, Option.bind_some, SignMagnitude.toInt_normal,
    SignMagnitude.toInt_natAbs]
  exact ofScaled?_eq_some_iff.2 ⟨rfl, rfl⟩

end FixedPoint

namespace Hex

theorem digit?_digit {n : Nat} (small : n < 16) : digit? (digit n) = some n := by
  have all : ∀ n ∈ List.range 16, digit? (digit n) = some n := by decide
  exact all n (List.mem_range.2 small)

private theorem pairs_flatMap_ofByte (position : Nat) (bytes : List UInt8) :
    pairs position (bytes.flatMap ofByte) = .ok bytes := by
  induction bytes generalizing position with
  | nil => rfl
  | cons b rest ih =>
    have small : b.toNat < 256 := b.toNat_lt
    have whole : 16 * (b.toNat / 16) + b.toNat % 16 = b.toNat := by omega
    simp only [List.flatMap_cons, ofByte, List.cons_append, List.nil_append, pairs,
      digit?_digit (show b.toNat / 16 < 16 by omega),
      digit?_digit (show b.toNat % 16 < 16 by omega), ih, whole, UInt8.ofNat_toNat]
    rfl

private theorem length_encode (bytes : List UInt8) :
    (encode bytes).toList.length = 2 * bytes.length := by
  rw [encode, String.toList_ofList]
  induction bytes with
  | nil => rfl
  | cons b rest ih =>
    simp only [List.flatMap_cons, ofByte, List.length_append, List.length_cons, List.length_nil, ih]
    omega

theorem decode_encode (bytes : List UInt8) : decode (encode bytes).toList = .ok bytes := by
  have length := length_encode bytes
  rw [encode, String.toList_ofList] at length ⊢
  rw [decode, if_neg (by omega), pairs_flatMap_ofByte]

theorem encode_injective : Function.Injective encode := by
  intro a b same
  exact Except.ok.inj ((decode_encode a).symm.trans (same ▸ decode_encode b))

theorem encode_eq_empty {bytes : List UInt8} : encode bytes = "" ↔ bytes = [] :=
  encode_injective.eq_iff' rfl

end Hex

namespace Address

theorem length_hex (a : Address) : a.hex.toList.length = 16 := by
  rw [hex, Hex.length_encode, a.length_eq]

theorem ofDigits?_hex (a : Address) : ofDigits? a.hex.toList = some a := by
  have length := a.length_hex
  have written : a.hex.toList ≠ [] := by
    intro none
    simp [none] at length
  rw [ofDigits?, if_neg (by simp [written, length]), length]
  simp only [Nat.sub_self, List.replicate_zero, List.nil_append]
  rw [show a.hex = Hex.encode a.bytes from rfl, Hex.decode_encode]
  exact ofBytes?_eq_some_iff.2 rfl

theorem hex_injective : Function.Injective hex := by
  intro a b same
  exact Option.some.inj ((ofDigits?_hex a).symm.trans (same ▸ ofDigits?_hex b))

end Address

/-- The first part of a path is its domain, whatever slashes there are behind it. -/
theorem Path.text_injective : Function.Injective text := by
  intro p q same
  obtain ⟨domain, identifier⟩ := p
  obtain ⟨domain', identifier'⟩ := q
  have chars := congrArg String.toList same
  simp only [text, String.toList_append] at chars
  cases domain <;> cases domain' <;>
    simp [PathDomain.identifier, String.toList_inj] at chars ⊢ <;> exact chars

end CadenceWire
