import CadenceWire.Proofs.Json.Token
import Mathlib.Data.List.Induction

/-!
Runs of digits, and the numbers they denote. A number that is put together digit by digit, with a
limit kept to at every step, stays within it exactly if the whole number does.
-/
namespace CadenceWire.Decimal

/-- One or more ASCII digits, the most significant first. -/
inductive Digits : List Char → Nat → Prop
  | one {c : Char} {d : Nat} (small : d < 10) (code : c.toNat = 48 + d) : Digits [c] d
  | more {front : List Char} {n : Nat} {c : Char} {d : Nat} (before : Digits front n)
      (small : d < 10) (code : c.toNat = 48 + d) : Digits (front ++ [c]) (10 * n + d)

inductive Signed : List Char → SignMagnitude → Prop
  | plain {digits : List Char} {n : Nat} (run : Digits digits n) : Signed digits ⟨false, n⟩
  | plus {digits : List Char} {n : Nat} (run : Digits digits n) : Signed ('+' :: digits) ⟨false, n⟩
  | minus {digits : List Char} {n : Nat} (run : Digits digits n) : Signed ('-' :: digits) ⟨true, n⟩

theorem isDigit_iff {c : Char} : c.isDigit = true ↔ ∃ d < 10, c.toNat = 48 + d := by
  rw [Char.isDigit_iff_toNat]
  constructor
  · rintro ⟨low, high⟩
    change 48 ≤ c.toNat at low
    change c.toNat ≤ 57 at high
    exact ⟨c.toNat - 48, by omega, by omega⟩
  · rintro ⟨d, small, code⟩
    change 48 ≤ c.toNat ∧ c.toNat ≤ 57
    omega

theorem Digits.isDigit {digits : List Char} {n : Nat} (run : Digits digits n) :
    ∀ c ∈ digits, c.isDigit = true := by
  induction run with
  | one small code => simpa using isDigit_iff.2 ⟨_, small, code⟩
  | more before small code ih =>
    intro c member
    rcases List.mem_append.1 member with inside | last
    · exact ih c inside
    · rw [List.mem_singleton.1 last]
      exact isDigit_iff.2 ⟨_, small, code⟩

theorem Digits.ne_nil {digits : List Char} {n : Nat} (run : Digits digits n) : digits ≠ [] := by
  cases run <;> simp

theorem Digits.splitSign {digits : List Char} {n : Nat} (run : Digits digits n)
    (rest : List Char) : splitSign (digits ++ rest) = (false, digits ++ rest) := by
  obtain ⟨c, others, rfl⟩ := List.exists_cons_of_ne_nil run.ne_nil
  exact splitSign_digit (run.isDigit c List.mem_cons_self) (others ++ rest)

theorem Digits.ofDigitChars_eq {digits : List Char} {n : Nat} (run : Digits digits n) :
    Nat.ofDigitChars 10 digits 0 = n := by
  have digit {c : Char} {d : Nat} (code : c.toNat = 48 + d) : c.toNat - '0'.toNat = d := by
    rw [code]
    exact Nat.add_sub_cancel_left 48 d
  induction run with
  | one small code =>
    rw [Nat.ofDigitChars_cons, digit code]
    exact Nat.zero_add _
  | more before small code ih =>
    rw [Nat.ofDigitChars_append, ih, Nat.ofDigitChars_cons, digit code]
    rfl

theorem exists_digits {digits : List Char} (some : digits ≠ [])
    (all : ∀ c ∈ digits, c.isDigit = true) : ∃ n, Digits digits n := by
  induction digits using List.reverseRecOn with
  | nil => exact absurd rfl some
  | append_singleton front c ih =>
    obtain ⟨d, small, code⟩ := isDigit_iff.1 (all c (by simp))
    by_cases alone : front = []
    · rw [alone]
      exact ⟨d, .one small code⟩
    · obtain ⟨n, before⟩ := ih alone fun c member => all c (by simp [member])
      exact ⟨_, .more before small code⟩

private theorem natural?_eq_some_iff {digits : List Char} {n : Nat} :
    natural? digits = some n ↔ Digits digits n := by
  constructor
  · intro found
    unfold natural? at found
    split at found
    next shape =>
      obtain ⟨m, run⟩ := exists_digits shape.1 (List.all_eq_true.1 shape.2)
      rw [run.ofDigitChars_eq] at found
      exact Option.some.inj found ▸ run
    next => cases found
  · intro run
    rw [natural?, if_pos ⟨run.ne_nil, List.all_eq_true.2 run.isDigit⟩, run.ofDigitChars_eq]

theorem signed?_eq_some_iff {text : List Char} {s : SignMagnitude} :
    signed? text = some s ↔ Signed text s := by
  constructor
  · intro found
    unfold signed? splitSign at found
    split at found
    next negative digits shape =>
      obtain ⟨n, read, rfl⟩ := Option.map_eq_some_iff.1 found
      have run := natural?_eq_some_iff.1 read
      split at shape <;> cases shape
      · exact .minus run
      · exact .plus run
      · exact .plain run
  · intro written
    cases written with
    | plus run | minus run =>
      simp only [signed?, splitSign, natural?_eq_some_iff.2 run, Option.map_some]
    | plain run =>
      have unsigned := run.splitSign []
      rw [List.append_nil] at unsigned
      simp only [signed?, unsigned, natural?_eq_some_iff.2 run, Option.map_some]

/-- Digits and nothing else, added to a number in turn. No number on the way breaks the limit. -/
def accumulate? (limit : Nat → Prop) [DecidablePred limit] : Nat → List Char → Option Nat
  | n, [] => some n
  | n, c :: rest =>
    let next := 10 * n + (c.toNat - '0'.toNat)
    if c.isDigit ∧ limit (10 * n) ∧ limit next then accumulate? limit next rest else none

/-- A limit that holds of all smaller numbers need only be asked of the last. -/
theorem accumulate?_eq {limit : Nat → Prop} [DecidablePred limit]
    (closed : ∀ m n, m ≤ n → limit n → limit m) {digits : List Char}
    (all : ∀ c ∈ digits, c.isDigit = true) {start : Nat} (within : limit start) :
    accumulate? limit start digits =
      if limit (Nat.ofDigitChars 10 digits start) then some (Nat.ofDigitChars 10 digits start)
      else none := by
  induction digits generalizing start with
  | nil => exact (if_pos within).symm
  | cons c rest ih =>
    obtain ⟨digit, others⟩ := List.forall_mem_cons.1 all
    have grows := Json.Reader.le_ofDigitChars rest (10 * start + (c.toNat - '0'.toNat))
    rw [Nat.ofDigitChars_cons]
    by_cases fits : limit (10 * start + (c.toNat - '0'.toNat))
    · have shifted := closed _ _ (Nat.le_add_right _ _) fits
      rw [accumulate?, if_pos ⟨digit, shifted, fits⟩]
      exact ih others fits
    · -- The number only grows from here, so the whole one breaks the limit as well.
      have broken := mt (closed _ _ grows) fits
      rw [accumulate?, if_neg (fun inside => fits inside.2.2), if_neg broken]

private theorem accumulate?_foreign {limit : Nat → Prop} [DecidablePred limit] {digits : List Char}
    (foreign : ¬ ∀ c ∈ digits, c.isDigit = true) (start : Nat) :
    accumulate? limit start digits = none := by
  induction digits generalizing start with
  | nil => exact absurd (by simp) foreign
  | cons c rest ih =>
    rw [List.forall_mem_cons] at foreign
    unfold accumulate?
    dsimp only
    split
    next inside => exact ih (fun all => foreign ⟨inside.1, all⟩) _
    next => rfl

theorem accumulate?_natural {limit : Nat → Prop} [DecidablePred limit]
    (closed : ∀ m n, m ≤ n → limit n → limit m) (zero : limit 0) {digits : List Char}
    (some : digits ≠ []) :
    accumulate? limit 0 digits = (natural? digits).filter fun n => limit n := by
  by_cases all : ∀ c ∈ digits, c.isDigit = true
  · obtain ⟨n, run⟩ := exists_digits some all
    rw [accumulate?_eq closed all zero, natural?_eq_some_iff.2 run, run.ofDigitChars_eq]
    simp [Option.filter]
  · have none : natural? digits = none :=
      Option.eq_none_iff_forall_ne_some.2 fun n found => all (natural?_eq_some_iff.1 found).isDigit
    rw [accumulate?_foreign all, none]
    rfl

end CadenceWire.Decimal
