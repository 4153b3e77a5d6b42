import CadenceWire.Json.Writer
import CadenceWire.Proofs.Json.Sequence
import CadenceWire.Proofs.Text.Literal

/-!
Strings of JSON. What a character is written as is read as that character, be it escaped or not.
-/
namespace CadenceWire.Json.Reader

open Writer (escape letter?)

variable {c : Char} {read rest : List Char}

theorem stringRest_bare_cons (noQuote : c ≠ '"') (noEscape : c ≠ '\\') (printed : 0x20 ≤ c.toNat) :
    stringRest read (c :: rest) = stringRest (c :: read) rest := by
  rw [stringRest.eq_def]
  split
  next same => cases same
  next same => exact absurd (List.cons.inj same).1 noQuote
  next same => exact absurd (List.cons.inj same).1 noEscape
  next same => exact absurd (List.cons.inj same).1 noEscape
  next same =>
    cases same
    exact if_neg (Nat.not_lt.2 printed)

private theorem stringRest_letter {letter : Char} (known : unescape? letter = some c) :
    stringRest read ('\\' :: letter :: rest) = stringRest (c :: read) rest := by
  have other : letter ≠ 'u' := by
    rintro rfl
    cases known
  rw [stringRest.eq_def]
  split
  next same => cases same
  next same => cases same
  next same => exact absurd (List.cons.inj (List.cons.inj same).2).1 other
  next same =>
    cases same
    simp only [known]
  next other same => cases same; exact absurd rfl (other _ _ rfl)

/-- A unit that is no surrogate stands for the character of its number. -/
theorem stringRest_unit {a b c d : Char} {code : Nat} (denoted : unit? a b c d = some code)
    (single : code < 0xD800) :
    stringRest read ('\\' :: 'u' :: a :: b :: c :: d :: rest) =
      stringRest (Char.ofNat code :: read) rest := by
  have noLow : isLowSurrogate code = false := by
    simp only [isLowSurrogate, Bool.and_eq_false_iff, decide_eq_false_iff_not]
    omega
  have noHigh : isHighSurrogate code = false := by
    simp only [isHighSurrogate, Bool.and_eq_false_iff, decide_eq_false_iff_not]
    omega
  rw [stringRest.eq_def]
  simp only [denoted, noLow, noHigh, Bool.false_eq_true, if_false]

private theorem unescape?_letter {letter : Char} (known : letter? c = some letter) :
    unescape? letter = some c := by
  unfold letter? at known
  split_ifs at known with same same same same same <;> cases known <;> rw [same] <;> rfl

private theorem unit?_control (control : c.toNat < 0x20) :
    unit? '0' '0' (Hex.digit (c.toNat / 16)) (Hex.digit (c.toNat % 16)) = some c.toNat := by
  have high : c.toNat / 16 < 16 := by omega
  have low : c.toNat % 16 < 16 := Nat.mod_lt _ (by decide)
  have zero : Hex.digit? '0' = some 0 := by decide
  simp only [unit?, zero, Hex.digit?_digit high, Hex.digit?_digit low, Option.bind_eq_bind,
    Option.bind_some, Option.pure_def, Option.some.injEq]
  omega

private theorem stringRest_escape (c : Char) (read rest : List Char) :
    stringRest read (escape c ++ rest) = stringRest (c :: read) rest := by
  unfold escape
  split
  next special =>
    have known : unescape? c = some c := by
      rcases special with rfl | rfl <;> rfl
    exact stringRest_letter known
  next plain =>
    obtain ⟨noQuote, noEscape⟩ := not_or.1 plain
    split
    next control =>
      split
      next letter known => exact stringRest_letter (unescape?_letter known)
      next =>
        have single : c.toNat < 0xD800 := by omega
        refine (stringRest_unit (unit?_control control) single).trans ?_
        rw [Char.ofNat_toNat]
        rfl
    next printed => exact stringRest_bare_cons noQuote noEscape (Nat.le_of_not_lt printed)

private theorem stringRest_text (text read rest : List Char) :
    stringRest read (text.flatMap escape ++ '"' :: rest) =
      some (String.ofList (read.reverse ++ text), rest) := by
  induction text generalizing read with
  | nil => simp [stringRest]
  | cons c text ih =>
    rw [List.flatMap_cons, List.append_assoc, stringRest_escape, ih, List.reverse_cons,
      List.append_assoc]
    rfl

theorem string_text (s : String) (follows : List Char → Prop) :
    Takes string follows (Writer.string s).toList s := by
  intro rest _
  have shown : (Writer.string s).toList ++ rest =
      '"' :: (s.toList.flatMap escape ++ '"' :: rest) := by simp [Writer.string]
  rw [shown, string, stringRest_text]
  simp

end CadenceWire.Json.Reader
