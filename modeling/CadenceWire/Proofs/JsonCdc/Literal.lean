import CadenceWire.Plain.Basic
import CadenceWire.Proofs.JsonCdc.Numeral
import CadenceWire.Proofs.Numeric.Word
import CadenceWire.Proofs.Stored
import CadenceWire.Proofs.Text.Digits

/-!
Literals of integers. A literal is a sign and digits of any number, and what is read is the number
they denote, if it lies within the kind.
-/
namespace CadenceWire

open Decimal (Digits Signed)

namespace IntegerKind

/-- The literals of the kind and the numbers they denote. Signed kinds have literals with a minus,
and those of the others that are of 256 bits have a minus before zeros. -/
inductive Literal (kind : IntegerKind) : List Char → Int → Prop
  | plain {digits : List Char} {n : Nat} (run : Digits digits n) : Literal kind digits n
  | plus {digits : List Char} {n : Nat} (run : Digits digits n) : Literal kind ('+' :: digits) n
  | minus (signed : kind.isSigned = true) {digits : List Char} {n : Nat} (run : Digits digits n) :
      Literal kind ('-' :: digits) (-n)
  | zeros (unsigned : kind.isSigned = false) (wide : kind.width = .w256) (count : Nat) :
      Literal kind ('-' :: List.replicate (count + 1) '0') 0

end IntegerKind

open IntegerKind (Literal)

theorem Decimal.digits_zeros (count : Nat) : Digits (List.replicate (count + 1) '0') 0 := by
  have small : 0 < 10 := by decide
  induction count with
  | zero => exact .one small rfl
  | succ count ih =>
    rw [List.replicate_succ']
    exact .more ih small rfl

theorem Decimal.Digits.eq_zeros {digits : List Char} {n : Nat} (run : Digits digits n)
    (zero : n = 0) : ∃ count, digits = List.replicate (count + 1) '0' := by
  have digit {c : Char} (code : c.toNat = 48 + 0) : c = '0' := Char.toNat_inj.1 code
  induction run with
  | one small code =>
    subst zero
    exact ⟨0, by rw [digit code]; rfl⟩
  | @more front n c d before small code ih =>
    obtain rfl : d = 0 := by omega
    obtain ⟨count, rfl⟩ := ih (by omega)
    exact ⟨count + 1, by rw [digit code, List.replicate_succ' (n := count + 1)]⟩

namespace IntegerKind

private theorem readsMinus_iff {kind : IntegerKind} :
    kind.readsMinus = true ↔ kind.isSigned = true ∨ kind.width = .w256 := by
  cases kind with
  | int | uint | intOf => simp [readsMinus, isSigned, width]
  | uintOf w | wordOf w => cases w <;> simp [readsMinus, isSigned, width]

private theorem min_of_unsigned {kind : IntegerKind} (unsigned : kind.isSigned = false) :
    kind.min = 0 := by
  cases kind with
  | int | intOf => cases unsigned
  | uint | uintOf | wordOf => rfl

end IntegerKind

theorem IntegerKind.Literal.of_minus {kind : IntegerKind} {digits : List Char} {n : Nat}
    (run : Digits digits n) (reads : kind.readsMinus = true) (holds : kind.Holds (-n)) :
    Literal kind ('-' :: digits) (-n) := by
  by_cases signed : kind.isSigned = true
  · exact .minus signed run
  · -- Within a kind without a sign only zero has a minus.
    have unsigned := Bool.eq_false_iff.2 signed
    have zero : n = 0 := by
      have above := holds.1
      rw [min_of_unsigned unsigned] at above
      omega
    obtain ⟨count, rfl⟩ := run.eq_zeros zero
    rw [zero]
    exact .zeros unsigned ((readsMinus_iff.1 reads).resolve_left signed) count

theorem IntegerKind.Literal.exists_signed {kind : IntegerKind} {text : List Char} {n : Int}
    (written : Literal kind text n) :
    ∃ s, Signed text s ∧ (s.negative = true → kind.readsMinus = true) ∧ s.toInt = n := by
  cases written with
  | plain run => exact ⟨_, .plain run, nofun, rfl⟩
  | plus run => exact ⟨_, .plus run, nofun, rfl⟩
  | minus signed run => exact ⟨_, .minus run, fun _ => readsMinus_iff.2 (.inl signed), rfl⟩
  | zeros _ wide count =>
    exact ⟨_, .minus (Decimal.digits_zeros count), fun _ => readsMinus_iff.2 (.inr wide), rfl⟩

theorem Integer.ofLiteral?_eq_some_iff {kind : IntegerKind} {s : String} {n : Integer} :
    ofLiteral? kind s = some n ↔ n.kind = kind ∧ Literal kind s.toList n.value := by
  unfold ofLiteral?
  generalize s.toList = text
  constructor
  · intro found
    obtain ⟨literal, signed, found⟩ := Option.bind_eq_some_iff.1 found
    split at found
    next => cases found
    next taken =>
      obtain ⟨rfl, value⟩ := ofInt?_eq_some_iff.1 found
      refine ⟨rfl, ?_⟩
      rw [value]
      cases Decimal.signed?_eq_some_iff.1 signed with
      | plain run => exact .plain run
      | plus run => exact .plus run
      | @minus digits m run =>
        have holds : n.kind.Holds (-m) := by
          have within := n.holds
          rwa [value] at within
        exact .of_minus run (by simpa using taken) holds
  · rintro ⟨rfl, written⟩
    obtain ⟨literal, signed, taken, value⟩ := written.exists_signed
    refine Option.bind_eq_some_iff.2 ⟨literal, Decimal.signed?_eq_some_iff.2 signed, ?_⟩
    rw [if_neg (by simpa using taken)]
    exact ofInt?_eq_some_iff.2 ⟨rfl, value.symm⟩

section words

variable {ε : Type} (refusal : ε)

namespace IntegerKind

/-- A literal that is put together within the range of the kind. Behind a minus it is counted down
from zero. -/
def narrowLiteral (kind : IntegerKind) (text : List Char) : Option Int :=
  let (negative, digits) := Decimal.splitSign text
  if digits = [] ∨ negative && !kind.isSigned then none
  else if negative then
    (Decimal.accumulate? (fun m => kind.Within (-m)) 0 digits).map fun m : Nat => -(m : Int)
  else (Decimal.accumulate? (fun m => kind.Within m) 0 digits).map fun m : Nat => (m : Int)

/-- A literal of which the digits are put together in a word. -/
def wideLiteral (text : List Char) : Option SignedWord :=
  let (negative, digits) := Decimal.splitSign text
  if digits = [] then none
  else (Decimal.accumulate? (· < 2 ^ 256) 0 digits).map fun m =>
    .ofParts negative (BitVec.ofNat 256 m)

/-- The number of a literal of the kind, read through words. -/
def wordLiteral (kind : IntegerKind) (text : List Char) : Except (Stop ε) Int :=
  let number := if kind.width = .w256 then
      (wideLiteral text).map (kind.ofWord refusal)
    else (narrowLiteral kind text).map .ok
  number.getD (.error (.refused refusal))

private theorem within_zero (kind : IntegerKind) : kind.Within 0 := by
  refine holds_iff.1 ?_
  rcases kind with _ | _ | w | w | w
  case int | uint => decide
  all_goals cases w <;> decide

private theorem within_of_between {kind : IntegerKind} {m n : Int}
    (between : 0 ≤ m ∧ m ≤ n ∨ n ≤ m ∧ m ≤ 0) (within : kind.Within n) : kind.Within m := by
  obtain ⟨low, high⟩ := holds_iff.2 kind.within_zero
  obtain ⟨least, most⟩ := holds_iff.2 within
  exact holds_iff.1 ⟨by omega, by omega⟩

theorem wideLiteral_eq (text : List Char) :
    wideLiteral text = (Decimal.signed? text).bind fun s =>
      if s.magnitude < 2 ^ 256 then some (.ofParts s.negative (BitVec.ofNat 256 s.magnitude))
      else none := by
  have closed (m n : Nat) (less : m ≤ n) (small : n < 2 ^ 256) : m < 2 ^ 256 := by omega
  unfold wideLiteral Decimal.signed?
  obtain ⟨negative, digits⟩ := Decimal.splitSign text
  by_cases empty : digits = []
  · subst empty
    rfl
  · dsimp only
    rw [if_neg empty, Decimal.accumulate?_natural closed (by decide) empty]
    cases Decimal.natural? digits with
    | none => rfl
    | some m =>
      simp only [Option.filter_some, Option.map_some, Option.bind_some, decide_eq_true_eq]
      split <;> rfl

private theorem narrowLiteral_eq (kind : IntegerKind) (text : List Char) :
    kind.narrowLiteral text = (Decimal.signed? text).bind fun s =>
      if s.negative && !kind.isSigned then none
      else if kind.Within s.toInt then some s.toInt else none := by
  have above (m n : Nat) (less : m ≤ n) : kind.Within n → kind.Within m :=
    within_of_between (by omega)
  have below (m n : Nat) (less : m ≤ n) : kind.Within (-n) → kind.Within (-m) :=
    within_of_between (by omega)
  unfold narrowLiteral Decimal.signed?
  obtain ⟨negative, digits⟩ := Decimal.splitSign text
  by_cases empty : digits = []
  · subst empty
    rfl
  · dsimp only
    by_cases refused : (negative && !kind.isSigned) = true
    · rw [if_pos (.inr refused)]
      cases Decimal.natural? digits with
      | none => rfl
      | some m => exact (if_pos refused).symm
    · rw [if_neg (by simp [empty, refused]),
        Decimal.accumulate?_natural below kind.within_zero empty,
        Decimal.accumulate?_natural above kind.within_zero empty]
      cases Decimal.natural? digits with
      | none => cases negative <;> rfl
      | some m =>
        simp only [Option.filter_some, Option.map_some, Option.bind_some, decide_eq_true_eq,
          if_neg refused]
        cases negative with
        | true => by_cases within : kind.Within (-m) <;> simp [SignMagnitude.toInt, within]
        | false => by_cases within : kind.Within m <;> simp [SignMagnitude.toInt, within]

end IntegerKind

theorem IntegerKind.wordLiteral_eq (kind : IntegerKind) (s : String) :
    kind.wordLiteral refusal s.toList =
      ((Integer.ofLiteral? kind s).map fun n => .ok n.value).getD (.error (.refused refusal)) := by
  unfold wordLiteral Integer.ofLiteral?
  rw [wideLiteral_eq, narrowLiteral_eq]
  cases Decimal.signed? s.toList with
  | none => split <;> rfl
  | some literal =>
    simp only [Option.bind_eq_bind, Option.bind_some]
    by_cases wide : kind.width = .w256
    · have taken : ¬ (literal.negative && !kind.readsMinus) = true := by
        simp [readsMinus_iff.2 (.inr wide)]
      rw [if_neg taken, ← Integer.limited_within, if_pos wide]
      by_cases small : literal.magnitude < 2 ^ 256
      · rw [if_pos small, ← SignedWord.toInt_ofSignMagnitude small, ← kind.ofWord_eq]
        rfl
      · have outside : ¬ kind.Within literal.toInt := fun within => small <| by
          have bounded := @NumberKind.natAbs_lt (.integer kind) _ within
          rwa [literal.natAbs_toInt] at bounded
        rw [if_neg small, limited_of_not outside]
        rfl
    · have minus : kind.readsMinus = kind.isSigned :=
        Bool.eq_iff_iff.2 (readsMinus_iff.trans (or_iff_left wide))
      rw [minus, if_neg wide]
      by_cases refused : (literal.negative && !kind.isSigned) = true
      · rw [if_pos refused, if_pos refused]
        rfl
      · rw [if_neg refused, if_neg refused, ← Integer.limited_within]
        by_cases within : kind.Within literal.toInt
        · rw [if_pos within, limited_of within]
          rfl
        · rw [if_neg within, limited_of_not within]
          rfl

end words

namespace JsonCdc

variable {options : Options} {kind : IntegerKind} {payload : List UInt8} {members : Json.Members}
  {s : String}

private theorem decode_of_last? (read : Json.ofBytes? payload = some (.object members))
    (named : members.last? "type" = some (.string kind.name))
    (found : members.last? "value" = some (.string s)) :
    decode options payload = readLiteral (.integer kind) s :=
  decode_number rfl read named found rfl

private theorem exists_integer {n : Int} (written : Literal kind s.toList n)
    (within : kind.Within n) :
    ∃ m : Integer, m.kind = kind ∧ m.value = n ∧ Integer.ofLiteral? kind s = some m :=
  ⟨⟨kind, n, IntegerKind.holds_iff.2 within⟩, rfl, rfl,
    Integer.ofLiteral?_eq_some_iff.2 ⟨rfl, written⟩⟩

private theorem literal_of_ofLiteral? {m : Integer} (read : Integer.ofLiteral? kind s = some m) :
    m.kind = kind ∧ Literal kind s.toList m.value ∧ kind.Within m.value := by
  obtain ⟨rfl, written⟩ := Integer.ofLiteral?_eq_some_iff.1 read
  exact ⟨rfl, written, IntegerKind.holds_iff.1 m.holds⟩

/-- Literals of integers are exact. A payload of the kind with a literal of it, for a number within
the kind, is read as that number, and any other is refused. Put together digit by digit in words,
the number is the same, and no step stops for want of a result. -/
theorem decode_literal (read : Json.ofBytes? payload = some (.object members))
    (named : members.last? "type" = some (.string kind.name))
    (found : members.last? "value" = some (.string s)) :
    (∀ v, decode options payload = .ok v ↔
      ∃ n, Literal kind s.toList n ∧ kind.Within n ∧ v.number? = some (.integer kind, n)) ∧
    ((∀ n, Literal kind s.toList n → ¬ kind.Within n) →
      decode options payload = .error (.invalidNumber kind.name (refused kind s))) ∧
    (fun n => some (.integer kind, n)) <$>
        kind.wordLiteral (.invalidNumber kind.name (refused kind s)) s.toList =
      Value.number? <$> (decode options payload).mapError .refused := by
  rw [decode_of_last? read named found, readLiteral, literal?, kind.wordLiteral_eq]
  cases literal : Integer.ofLiteral? kind s with
  | none =>
    have foreign (n : Int) (written : Literal kind s.toList n) : ¬ kind.Within n := by
      intro within
      obtain ⟨m, -, -, read⟩ := exists_integer written within
      rw [literal] at read
      cases read
    refine ⟨fun v => iff_of_false (by rintro ⟨⟩) ?_, fun _ => rfl, rfl⟩
    rintro ⟨n, written, within, -⟩
    exact foreign n written within
  | some m =>
    obtain ⟨same, written, within⟩ := literal_of_ofLiteral? literal
    refine ⟨fun v => ⟨?_, ?_⟩, fun none => absurd within (none _ written), ?_⟩
    · rintro ⟨⟩
      exact ⟨m.value, written, within, by rw [Value.number?, same]⟩
    · rintro ⟨n, written, within, number⟩
      obtain ⟨m', kind', value', read⟩ := exists_integer written within
      obtain rfl : m = m' := Option.some.inj (literal.symm.trans read)
      rw [Value.eq_integer number kind' value']
      rfl
    · rw [← same]
      rfl

/-- The least number of 128 bits, and the next below it. -/
theorem decode_literal_least :
    let kind : IntegerKind := .intOf .w128
    let payload (literal : String) := typed (.integer kind) ("\"" ++ literal ++ "\"")
    let least := "-00170141183460469231731687303715884105728"
    let less := "-00170141183460469231731687303715884105729"
    (∃ v, decode .strict (payload least) = .ok v ∧ v.number? = some (.integer kind, -2 ^ 127)) ∧
      decode .strict (payload less) = .error (.invalidNumber "Int128" less) := by
  intro kind payload least less
  have parsed (t : String) (bare : Json.Bare t.toList) : Json.ofBytes? (payload t) =
      some (.object [("type", .string kind.name), ("value", .string t)]) := ofBytes?_quoted bare
  have taken : Integer.ofLiteral? kind least = some ⟨kind, -2 ^ 127, by decide⟩ := by decide
  obtain ⟨-, written, within⟩ := literal_of_ofLiteral? taken
  obtain ⟨read, -, -⟩ := @decode_literal .strict kind _ _ _ (parsed least (by decide)) rfl rfl
  obtain ⟨-, refused, -⟩ := @decode_literal .strict kind _ _ _ (parsed less (by decide)) rfl rfl
  have none : Integer.ofLiteral? kind less = none := by decide
  refine ⟨⟨.integer ⟨kind, -2 ^ 127, by decide⟩, ?_, rfl⟩, refused fun n written within => ?_⟩
  · exact (read _).2 ⟨-2 ^ 127, written, within, rfl⟩
  · obtain ⟨m, -, -, taken⟩ := exists_integer written within
    rw [none] at taken
    cases taken

end JsonCdc

end CadenceWire
