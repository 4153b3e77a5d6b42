import CadenceWire.Proofs.Reading
import CadenceWire.Text.Hex

/-!
Hexadecimal spellings of bytes. The digits are of either case, so bytes have many spellings, and a
text is read if and only if it is one of them.
-/
namespace CadenceWire.Hex

/-- A digit of either case, and its value. -/
inductive Digit : Char → Nat → Prop
  | decimal {c : Char} {d : Nat} (small : d < 10) (code : c.toNat = 48 + d) : Digit c d
  | lower {c : Char} {d : Nat} (small : d < 6) (code : c.toNat = 97 + d) : Digit c (10 + d)
  | upper {c : Char} {d : Nat} (small : d < 6) (code : c.toNat = 65 + d) : Digit c (10 + d)

/-- Two digits for every byte, the high half first. -/
inductive Spelling : List Char → List UInt8 → Prop
  | nil : Spelling [] []
  | cons {high low : Char} {h l : Nat} {b : UInt8} {digits : List Char} {bytes : List UInt8}
      (first : Digit high h) (second : Digit low l) (value : b.toNat = 16 * h + l)
      (rest : Spelling digits bytes) : Spelling (high :: low :: digits) (b :: bytes)

private theorem between_iff {low high c : Char} :
    low ≤ c ∧ c ≤ high ↔ low.toNat ≤ c.toNat ∧ c.toNat ≤ high.toNat := by
  simp only [Char.le_def, UInt32.le_iff_toNat_le]
  rfl

theorem digit?_eq_some_iff {c : Char} {d : Nat} : digit? c = some d ↔ Digit c d := by
  have codes : '0'.toNat = 48 ∧ '9'.toNat = 57 ∧ 'a'.toNat = 97 ∧ 'f'.toNat = 102 ∧
      'A'.toNat = 65 ∧ 'F'.toNat = 70 := by decide
  obtain ⟨zero, nine, a, f, A, F⟩ := codes
  unfold digit?
  simp only [between_iff, zero, nine, a, f, A, F]
  constructor
  · intro found
    split at found
    next inside =>
      cases found
      exact .decimal (by omega) (by omega)
    next =>
      split at found
      next inside =>
        cases found
        rw [show c.toNat - 87 = 10 + (c.toNat - 97) by omega]
        exact .lower (by omega) (by omega)
      next =>
        split at found
        next inside =>
          cases found
          rw [show c.toNat - 55 = 10 + (c.toNat - 65) by omega]
          exact .upper (by omega) (by omega)
        next => cases found
  · intro digit
    cases digit with
    | decimal small code =>
      rw [if_pos (by omega), code, Nat.add_sub_cancel_left]
    | lower small code =>
      rw [if_neg (by omega), if_pos (by omega), code]
      congr 1
      omega
    | upper small code =>
      rw [if_neg (by omega), if_neg (by omega), if_pos (by omega), code]
      congr 1
      omega

theorem Digit.lt {c : Char} {d : Nat} (digit : Digit c d) : d < 16 := by
  cases digit <;> omega

theorem Digit.toNat_ofNat {high low : Char} {h l : Nat} (first : Digit high h)
    (second : Digit low l) : (UInt8.ofNat (16 * h + l)).toNat = 16 * h + l := by
  have small : 16 * h + l < 256 := by
    have := first.lt
    have := second.lt
    omega
  exact UInt8.toNat_ofNat_of_lt' small

theorem Digit.code_bounds {c : Char} {d : Nat} (digit : Digit c d) :
    48 ≤ c.toNat ∧ c.toNat ≤ 102 := by
  cases digit <;> omega

theorem Spelling.exists_digit {digits : List Char} {bytes : List UInt8}
    (spelling : Spelling digits bytes) : ∀ c ∈ digits, ∃ d, Digit c d := by
  induction spelling with
  | nil => exact fun _ none => nomatch none
  | cons first second _ _ ih =>
    exact List.forall_mem_cons.2 ⟨⟨_, first⟩, List.forall_mem_cons.2 ⟨⟨_, second⟩, ih⟩⟩

theorem Spelling.length_eq {digits : List Char} {bytes : List UInt8}
    (spelling : Spelling digits bytes) : digits.length = 2 * bytes.length := by
  induction spelling with
  | nil => rfl
  | cons _ _ _ _ ih =>
    simp only [List.length_cons]
    omega

private theorem pairs_of_spelling {digits : List Char} {bytes : List UInt8}
    (spelling : Spelling digits bytes) (position : Nat) : pairs position digits = .ok bytes := by
  induction spelling generalizing position with
  | nil => rfl
  | cons first second value _ ih =>
    simp only [pairs, digit?_eq_some_iff.2 first, digit?_eq_some_iff.2 second, ih, ← value,
      UInt8.ofNat_toNat]
    rfl

private theorem spelling_of_pairs {digits : List Char} {position : Nat} {bytes : List UInt8}
    (even : digits.length % 2 = 0) (read : pairs position digits = .ok bytes) :
    Spelling digits bytes := by
  fun_induction pairs position digits generalizing bytes with
  | case1 position high low rest h first l second ih =>
    obtain ⟨others, behind, same⟩ := bind_eq_ok.1 read
    obtain rfl := pure_eq_ok.1 same
    have first := digit?_eq_some_iff.1 first
    have second := digit?_eq_some_iff.1 second
    have value := first.toNat_ofNat second
    simp only [List.length_cons] at even
    exact .cons first second value (ih (by omega) behind)
  | case2 | case3 => cases read
  | case4 digits position short =>
    cases read
    match digits with
    | [] => exact .nil
    | [_] => cases even
    | high :: low :: rest => exact (short high low rest rfl).elim

theorem decode_eq_ok {digits : List Char} {bytes : List UInt8} :
    decode digits = .ok bytes ↔ Spelling digits bytes := by
  constructor
  · intro read
    unfold decode at read
    split at read
    next => cases read
    next even => exact spelling_of_pairs (by omega) read
  · intro spelling
    have even := spelling.length_eq
    rw [decode, if_neg (by omega), pairs_of_spelling spelling]

end CadenceWire.Hex
