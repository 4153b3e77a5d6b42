import CadenceWire.Numeric.Wide
import CadenceWire.Proofs.JsonCdc.Literal

/-!
Integers of at most 256 bits as a sign and a word. However one is built, zero has no minus, so the
sign and the word tell the number. What is asked of them is answered as for the number itself, and
no step stops for want of a result.
-/
namespace CadenceWire

open Decimal (Signed)
open IntegerKind (wideLiteral)

theorem Wide.value_injective : Function.Injective Wide.value := by
  rintro ⟨_, _⟩ ⟨_, _⟩ rfl
  rfl

namespace SignedWord

variable {s t : SignedWord} {n : Int}

def ofMagnitude (m : BitVec 256) : SignedWord := ofParts false m

def ofUnsigned (n : BitVec 128) : SignedWord := ofParts false (n.setWidth 256)

def text (s : SignedWord) : String :=
  (if s.negative then "-" else "") ++ Decimal.ofNat s.magnitude.toNat

/-- The ways to build a sign and a word, and the number that each builds. -/
inductive Built : SignedWord → Int → Prop
  | parts (negative : Bool) (magnitude : BitVec 256) :
      Built (ofParts negative magnitude) (SignMagnitude.toInt ⟨negative, magnitude.toNat⟩)
  | magnitude (m : BitVec 256) : Built (ofMagnitude m) m.toNat
  | literal {digits : List Char} {l : SignMagnitude} {s : SignedWord} (written : Signed digits l)
      (read : wideLiteral digits = some s) : Built s l.toInt
  | signed (n : BitVec 128) : Built (ofSigned n) n.toInt
  | unsigned (n : BitVec 128) : Built (ofUnsigned n) n.toNat

private theorem natAbs_toInt (s : SignedWord) : s.toInt.natAbs = s.magnitude.toNat :=
  SignMagnitude.natAbs_toInt ⟨s.negative, s.magnitude.toNat⟩

private theorem positive_of_zero (zero : s.magnitude = 0) : s.negative = false :=
  Bool.eq_false_iff.2 fun minus => s.normal minus zero

/-- The sign and the word are read off the number. -/
theorem parts_eq_iff : s.negative = t.negative ∧ s.magnitude = t.magnitude ↔
    s.toInt = t.toInt := by
  constructor
  · rintro ⟨sign, word⟩
    rw [toInt, toInt, sign, word]
  · intro same
    have sign : s.negative = t.negative := by
      rw [Bool.eq_iff_iff, ← toInt_neg_iff, ← toInt_neg_iff, same]
    have word : s.magnitude.toNat = t.magnitude.toNat := by
      rw [← natAbs_toInt, ← natAbs_toInt, same]
    exact ⟨sign, BitVec.eq_of_toNat_eq word⟩

private theorem toInt_injective : Function.Injective toInt := by
  intro s t same
  obtain ⟨sign, word⟩ := parts_eq_iff.2 same
  cases s
  cases t
  cases sign
  cases word
  rfl

private theorem toInt_ofMagnitude (m : BitVec 256) : (ofMagnitude m).toInt = m.toNat :=
  toInt_ofParts false m

private theorem toInt_ofUnsigned (n : BitVec 128) : (ofUnsigned n).toInt = n.toNat := by
  have size := n.isLt
  rw [ofUnsigned, toInt_ofParts, BitVec.toNat_setWidth, Nat.mod_eq_of_lt (by omega)]
  rfl

private theorem ofParts_self (s : SignedWord) : ofParts s.negative s.magnitude = s :=
  toInt_injective (toInt_ofParts s.negative s.magnitude)

/-- Built of a literal is what it denotes, if 256 bits hold that. -/
theorem wideLiteral_eq_some_iff {digits : List Char} : wideLiteral digits = some s ↔
    ∃ l, Signed digits l ∧ l.magnitude < 2 ^ 256 ∧ s.toInt = l.toInt := by
  rw [IntegerKind.wideLiteral_eq]
  constructor
  · intro found
    obtain ⟨l, read, found⟩ := Option.bind_eq_some_iff.1 found
    obtain ⟨small, built⟩ := Option.ite_none_right_eq_some.1 found
    have value := toInt_ofSignMagnitude small
    rw [Option.some.inj built] at value
    exact ⟨l, Decimal.signed?_eq_some_iff.1 read, small, value⟩
  · rintro ⟨l, written, small, value⟩
    refine Option.bind_eq_some_iff.2 ⟨l, Decimal.signed?_eq_some_iff.2 written, ?_⟩
    rw [if_pos small, toInt_injective ((toInt_ofSignMagnitude small).trans value.symm)]

theorem Built.toInt_eq (built : Built s n) : s.toInt = n := by
  cases built with
  | parts negative magnitude => exact toInt_ofParts negative magnitude
  | magnitude m => exact toInt_ofMagnitude m
  | signed n => exact toInt_ofSigned n
  | unsigned n => exact toInt_ofUnsigned n
  | literal written read =>
    obtain ⟨l, again, -, value⟩ := wideLiteral_eq_some_iff.1 read
    have same := (Decimal.signed?_eq_some_iff.2 again).symm.trans
      (Decimal.signed?_eq_some_iff.2 written)
    rw [value, Option.some.inj same]

/-- Every sign and word is built of the number that it denotes. -/
theorem built_iff : Built s n ↔ s.toInt = n := by
  refine ⟨Built.toInt_eq, ?_⟩
  rintro rfl
  have built := Built.parts s.negative s.magnitude
  rwa [ofParts_self] at built

private theorem text_eq (s : SignedWord) : s.text = Decimal.ofInt s.toInt := by
  rw [text, Decimal.ofInt, natAbs_toInt]
  by_cases minus : s.negative = true
  · rw [if_pos minus, if_pos (toInt_neg_iff.2 minus)]
  · rw [if_neg minus, if_neg (mt toInt_neg_iff.1 minus), String.empty_append]

private theorem wideLiteral_text (s : SignedWord) : wideLiteral s.text.toList = some s := by
  have read := Decimal.signed?_ofInt s.toInt
  rw [← text_eq] at read
  refine wideLiteral_eq_some_iff.2 ⟨_, Decimal.signed?_eq_some_iff.1 read, ?_, ?_⟩
  · rw [natAbs_toInt]
    exact s.magnitude.isLt
  · exact (SignMagnitude.toInt_natAbs s.toInt).symm

private theorem toNat_toMagnitude_within (s : SignedWord) :
    (fun word => (word.toNat : Int)) <$> s.toMagnitude () =
      limited () (fun n => 0 ≤ n ∧ n < 2 ^ 256) s.toInt := by
  have size := s.magnitude.isLt
  have abs := s.natAbs_toInt
  exact (toNat_toMagnitude () s).trans (limited_congr (by omega))

private theorem toSigned_ofSigned (n : BitVec 128) : (ofSigned n).toSigned () = .ok n :=
  eq_ok_of_limited (toInt_toSigned () _) (fun _ _ => BitVec.eq_of_toInt_eq)
    (toInt_ofSigned n).symm (by rw [toInt_ofSigned]; exact ⟨n.le_toInt, n.toInt_lt⟩)

private theorem toUnsigned_ofUnsigned (n : BitVec 128) : (ofUnsigned n).toUnsigned () = .ok n := by
  have size := n.isLt
  refine eq_ok_of_limited (toNat_toUnsigned () _) (fun _ _ same => ?_) (toInt_ofUnsigned n).symm ?_
  · exact BitVec.eq_of_toNat_eq (Int.ofNat_inj.1 same)
  · rw [toInt_ofUnsigned]
    omega

/-- The number as such. -/
def wide (s : SignedWord) : Wide := ⟨s.toInt, s.natAbs_toInt ▸ s.magnitude.isLt⟩

/-- Whatever is asked of the number is answered as it is for the sign and the word. -/
structure Represents (s : SignedWord) (n : Wide) : Prop where
  isNegative : n.isNegative = s.negative
  magnitude : n.magnitude = s.magnitude.toNat
  text : n.text = s.text
  fitsSigned256 : n.fitsSigned256 = s.fits
  toSigned128? : n.toSigned128? = (s.toSigned ()).toOption.map BitVec.toInt
  toUnsigned128? : n.toUnsigned128? = (s.toUnsigned ()).toOption.map BitVec.toNat
  toUnsigned256? : n.toUnsigned256? = (s.toMagnitude ()).toOption.map BitVec.toNat

private theorem signed128?_of_limited {α : Type} {taken : Except (Stop Unit) α} {denoted : α → Int}
    (same : denoted <$> taken = limited () (fun n => -2 ^ 127 ≤ n ∧ n < 2 ^ 127) n) :
    Width.w128.signed? n = taken.toOption.map denoted :=
  (toOption_of_limited same).symm

/-- A word without a sign, where the limit is that of its width. -/
theorem unsigned?_of_limited {w : Width} {taken : Except (Stop Unit) (BitVec w.bits)}
    (same : (fun word => (word.toNat : Int)) <$> taken =
      limited () (fun n => 0 ≤ n ∧ n < 2 ^ w.bits) n) :
    w.unsigned? n = taken.toOption.map BitVec.toNat := by
  have answer := toOption_of_limited same
  ext k
  rw [Width.unsigned?_eq_some_iff, w.count_eq]
  cases taken with
  | error stop =>
    by_cases inside : 0 ≤ n ∧ n < 2 ^ w.bits
    · rw [if_pos inside] at answer
      cases answer
    · refine iff_of_false (fun ⟨value, small⟩ => inside ?_) nofun
      rw [value]
      exact ⟨Int.natCast_nonneg k, by exact_mod_cast small⟩
  | ok word =>
    obtain ⟨-, value⟩ := Option.ite_none_right_eq_some.1 answer.symm
    have value : n = word.toNat := Option.some.inj value
    have size := word.isLt
    change _ ↔ some word.toNat = some k
    rw [Option.some.injEq, value, Int.ofNat_inj]
    constructor
    · rintro ⟨same, -⟩
      exact same
    · rintro rfl
      exact ⟨rfl, size⟩

private theorem represents_wide (s : SignedWord) : Represents s s.wide where
  isNegative := by
    rw [Bool.eq_iff_iff, ← toInt_neg_iff]
    exact decide_eq_true_iff
  magnitude := s.natAbs_toInt
  text := s.text_eq.symm
  fitsSigned256 := by
    rw [Bool.eq_iff_iff, fits_iff]
    change (Width.w256.signed? s.toInt).isSome = true ↔ _
    unfold Width.signed?
    split
    next inside => exact iff_of_true rfl inside
    next outside => exact iff_of_false (by simp) outside
  toSigned128? := signed128?_of_limited (toInt_toSigned () s)
  toUnsigned128? := @unsigned?_of_limited _ .w128 _ (toNat_toUnsigned () s)
  toUnsigned256? := @unsigned?_of_limited _ .w256 _ (toNat_toMagnitude_within s)

private theorem wide_surjective : Function.Surjective wide := by
  intro n
  have denoted := @toInt_ofSignMagnitude ⟨n.isNegative, n.magnitude⟩ n.bounded
  exact ⟨ofParts n.isNegative (BitVec.ofNat 256 n.magnitude),
    Wide.value_injective (denoted.trans (SignMagnitude.toInt_natAbs n.value))⟩

private theorem ofInt?_toInt (s : SignedWord) : Wide.ofInt? s.toInt = some s.wide :=
  Wide.ofInt?_eq_some_iff.2 rfl

private theorem ofLiteral?_eq (t : String) :
    Wide.ofLiteral? t = (wideLiteral t.toList).map wide := by
  ext n
  rw [Wide.ofLiteral?, Option.bind_eq_bind, Option.bind_eq_some_iff, Option.map_eq_some_iff]
  constructor
  · rintro ⟨l, read, found⟩
    obtain ⟨s, rfl⟩ := wide_surjective n
    have value : s.toInt = l.toInt := Wide.ofInt?_eq_some_iff.1 found
    refine ⟨s, wideLiteral_eq_some_iff.2 ⟨l, Decimal.signed?_eq_some_iff.1 read, ?_, value⟩, rfl⟩
    rw [← l.natAbs_toInt, ← value, natAbs_toInt]
    exact s.magnitude.isLt
  · rintro ⟨s, read, rfl⟩
    obtain ⟨l, written, -, value⟩ := wideLiteral_eq_some_iff.1 read
    refine ⟨l, Decimal.signed?_eq_some_iff.2 written, ?_⟩
    rw [Wide.ofSignMagnitude?, ← value, ofInt?_toInt]

end SignedWord

/-- An integer in the word of its width. A signed one of 256 bits is a sign and a word. -/
inductive WordInteger where
  | signed (w : Width) (narrow : w ≠ .w256) (n : BitVec w.bits)
  | wide (s : SignedWord)
  | unsigned (w : Width) (n : BitVec w.bits)

namespace WordInteger

def toInt : WordInteger → Int
  | signed _ _ n => n.toInt
  | wide s => s.toInt
  | unsigned _ n => n.toNat

/-- The number in two's complement of 128 bits. Words of fewer bits are extended, by their sign if
they have one. -/
def toSigned128 : WordInteger → Except (Stop Unit) (BitVec 128)
  | signed _ _ n => .ok (n.signExtend 128)
  | wide s => s.toSigned ()
  | unsigned .w256 n => (SignedWord.ofMagnitude n).toSigned ()
  | unsigned .w128 n => Word.signed () n
  | unsigned _ n => .ok (n.setWidth 128)

private theorem widest_of_narrow {w : Width} (narrow : w ≠ .w256) :
    IntegerKind.widest true w = .intOf w := by
  cases w with
  | w256 => exact absurd rfl narrow
  | _ => rfl

/-- The number with its sign and its width. -/
def plain : WordInteger → PlainInteger
  | signed w narrow n => ⟨true, w, n.toInt, by
      rw [widest_of_narrow narrow, IntegerKind.holds_iff]
      exact ⟨n.le_toInt, Int.le_sub_one_of_lt n.toInt_lt⟩⟩
  | wide s => ⟨true, .w256, s.toInt, by
      have size := s.magnitude.isLt
      rw [← s.natAbs_toInt] at size
      exact IntegerKind.holds_iff.2 (Nat.le_sub_one_of_lt size)⟩
  | unsigned w n => ⟨false, w, n.toNat, by
      have size : (n.toNat : Int) < 2 ^ w.bits := by exact_mod_cast n.isLt
      exact IntegerKind.holds_iff.2 ⟨Int.natCast_nonneg _, Int.le_sub_one_of_lt size⟩⟩

private theorem plain_surjective : Function.Surjective plain := by
  rintro ⟨signed, w, value, holds⟩
  have within := IntegerKind.holds_iff.1 holds
  cases signed with
  | false =>
    obtain ⟨low, high⟩ := within
    have denoted : ((BitVec.ofInt w.bits value).toNat : Int) = value := by
      rw [BitVec.toNat_ofInt, Int.toNat_of_nonneg (Int.emod_nonneg _ (by positivity)),
        Int.emod_eq_of_lt low (by push_cast; omega)]
    refine ⟨.unsigned w (BitVec.ofInt w.bits value), ?_⟩
    simp only [plain, denoted]
  | true =>
    by_cases wide : w = .w256
    · subst wide
      obtain ⟨s, same⟩ := SignedWord.wide_surjective ⟨value, Nat.lt_of_le_pred (by decide) within⟩
      have denoted : s.toInt = value := congrArg Wide.value same
      refine ⟨.wide s, ?_⟩
      simp only [plain, denoted]
    · rw [widest_of_narrow wide] at within
      obtain ⟨low, high⟩ := within
      have denoted : (BitVec.ofInt w.bits value).toInt = value :=
        BitVec.toInt_ofInt_eq_self (by cases w <;> decide) low (Int.lt_of_le_sub_one high)
      refine ⟨.signed w wide (BitVec.ofInt w.bits value), ?_⟩
      simp only [plain, denoted]

private theorem toInt_toSigned128 (k : WordInteger) : BitVec.toInt <$> k.toSigned128 =
    limited () (fun n => -2 ^ 127 ≤ n ∧ n < 2 ^ 127) k.toInt := by
  cases k with
  | wide s => exact s.toInt_toSigned ()
  | signed w narrow n =>
    have few : w.bits ≤ 128 := by
      cases w with
      | w256 => exact absurd rfl narrow
      | _ => decide
    exact Word.limited_extended (BitVec.toInt_signExtend_of_le few)
  | unsigned w n =>
    cases w with
    | w256 =>
      have taken := (SignedWord.ofMagnitude n).toInt_toSigned ()
      rw [SignedWord.toInt_ofMagnitude n] at taken
      exact taken
    | w128 =>
      refine (Word.toInt_signed () n).trans (limited_congr ?_)
      change (n.toNat : Int) < 2 ^ 127 ↔ -2 ^ 127 ≤ (n.toNat : Int) ∧ (n.toNat : Int) < 2 ^ 127
      omega
    | _ => exact Word.limited_extended (Word.toInt_setWidth_of_lt (by decide) n)

end WordInteger

namespace SignedWord

/-- Integers of at most 256 bits are faithful. What is built has no minus before zero, so it is told
apart by its sign and its word as the numbers are. It is read back from its text, and it is narrowed
to the number that it denotes or refused for its range; the number as such answers the same. An
integer of any width is taken to 128 bits in the same way. -/
theorem built_faithful :
    (∀ s n, Built s n →
      (s.magnitude = 0 → s.negative = false) ∧
      (∀ t m, Built t m → (s.negative = t.negative ∧ s.magnitude = t.magnitude ↔ n = m)) ∧
      wideLiteral s.text.toList = some s ∧
      (s.fits = true ↔ -2 ^ 255 ≤ n ∧ n < 2 ^ 255) ∧
      BitVec.toInt <$> s.toSigned () = limited () (fun n => -2 ^ 127 ≤ n ∧ n < 2 ^ 127) n ∧
      (fun word => (word.toNat : Int)) <$> s.toUnsigned () =
        limited () (fun n => 0 ≤ n ∧ n < 2 ^ 128) n ∧
      (fun word => (word.toNat : Int)) <$> s.toMagnitude () =
        limited () (fun n => 0 ≤ n ∧ n < 2 ^ 256) n ∧
      Wide.ofInt? n = some s.wide ∧ Represents s s.wide) ∧
    (∀ digits s, wideLiteral digits = some s ↔
      ∃ l, Signed digits l ∧ l.magnitude < 2 ^ 256 ∧ Built s l.toInt) ∧
    (∀ t : String, Wide.ofLiteral? t = (wideLiteral t.toList).map wide) ∧
    (∀ n : Wide, ∃ s, Built s n.value ∧ s.wide = n) ∧
    (∀ n : BitVec 128, (ofSigned n).toSigned () = .ok n ∧ (ofUnsigned n).toUnsigned () = .ok n) ∧
    (∀ k : WordInteger,
      BitVec.toInt <$> k.toSigned128 =
        limited () (fun n => -2 ^ 127 ≤ n ∧ n < 2 ^ 127) k.toInt ∧
      k.plain.value = k.toInt ∧
      k.plain.toSigned128? = k.toSigned128.toOption.map BitVec.toInt) ∧
    ∀ n : PlainInteger, ∃ k : WordInteger, k.plain = n := by
  refine ⟨fun s n built => ?_, fun digits s => ?_, ofLiteral?_eq, fun n => ?_, fun n => ?_,
    fun k => ?_, WordInteger.plain_surjective⟩
  · obtain rfl := built.toInt_eq
    refine ⟨positive_of_zero, fun t m other => ?_, s.wideLiteral_text, s.fits_iff,
      s.toInt_toSigned (), s.toNat_toUnsigned (), s.toNat_toMagnitude_within, s.ofInt?_toInt,
      s.represents_wide⟩
    rw [← other.toInt_eq]
    exact parts_eq_iff
  · rw [wideLiteral_eq_some_iff]
    exact exists_congr fun l => and_congr_right fun _ => and_congr_right fun _ => built_iff.symm
  · obtain ⟨s, rfl⟩ := wide_surjective n
    exact ⟨s, built_iff.2 rfl, rfl⟩
  · exact ⟨toSigned_ofSigned n, toUnsigned_ofUnsigned n⟩
  · have taken := k.toInt_toSigned128
    cases k <;> exact ⟨taken, rfl, signed128?_of_limited taken⟩

/-- The least number of 128 bits, and a zero that is built with a minus. -/
theorem built_faithful_least :
    let least := ofSigned (BitVec.intMin 128)
    Built least (-2 ^ 127) ∧ least.toSigned () = .ok (BitVec.intMin 128) ∧
      (fun word => (word.toNat : Int)) <$> least.toUnsigned () = .error (.refused ()) ∧
      least.fits = true ∧
      wideLiteral "-170141183460469231731687303715884105728".toList = some least ∧
      Built (ofParts true 0) 0 ∧ (ofParts true 0).negative = (ofMagnitude 0).negative := by
  intro least
  obtain ⟨faithful, -, -, -, back, -⟩ := built_faithful
  have built : Built least (-2 ^ 127) := .signed (BitVec.intMin 128)
  have zero : Built (ofParts true 0) 0 := .parts true 0
  obtain ⟨-, -, read, fits, -, unsigned, -⟩ := faithful least _ built
  obtain ⟨-, told, -⟩ := faithful (ofParts true 0) _ zero
  have written : least.text = "-170141183460469231731687303715884105728" := by decide
  refine ⟨built, (back (BitVec.intMin 128)).1, unsigned.trans (limited_of_not (by decide)),
    fits.2 (by decide), ?_, zero, ?_⟩
  · rw [← written]
    exact read
  · exact ((told (ofMagnitude 0) 0 (.magnitude 0)).2 rfl).1

end SignedWord

end CadenceWire
