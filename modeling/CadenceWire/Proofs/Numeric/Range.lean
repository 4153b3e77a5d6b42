import CadenceWire.Value.Basic
import Mathlib.Algebra.Group.Int.Defs
import Mathlib.Algebra.Group.Nat.Defs

/-!
The ranges of numbers in powers of two.
-/
namespace CadenceWire

theorem Width.count_eq (w : Width) : w.count = 2 ^ w.bits := Nat.one_shiftLeft _

theorem Width.half_eq (w : Width) : w.half = 2 ^ (w.bits - 1) := Nat.one_shiftLeft _

/-- The range of the kind: two's complement for signed numbers of a width. -/
def IntegerKind.Within : IntegerKind → Int → Prop
  | int, n => n.natAbs ≤ 2 ^ 256 - 1
  | uint, n => 0 ≤ n ∧ n ≤ 2 ^ 256 - 1
  | intOf w, n => -2 ^ (w.bits - 1) ≤ n ∧ n ≤ 2 ^ (w.bits - 1) - 1
  | uintOf w, n | wordOf w, n => 0 ≤ n ∧ n ≤ 2 ^ w.bits - 1

def FixedPointKind.Within : FixedPointKind → Int → Prop
  | fix64, n => -2 ^ 63 ≤ n ∧ n ≤ 2 ^ 63 - 1
  | ufix64, n => 0 ≤ n ∧ n ≤ 2 ^ 64 - 1

theorem IntegerKind.holds_iff {kind : IntegerKind} {n : Int} : kind.Holds n ↔ kind.Within n := by
  have widest : (Width.w256.count : Int) = 2 ^ 256 := rfl
  cases kind with
  | int =>
    simp only [Holds, Within, min, max, widest]
    omega
  | uint => exact Iff.rfl
  | intOf w =>
    simp only [Holds, Within, min, max, w.half_eq]
    simp
  | uintOf w | wordOf w =>
    simp only [Holds, Within, min, max, w.count_eq]
    simp

theorem FixedPointKind.holds_iff {kind : FixedPointKind} {n : Int} :
    kind.Holds n ↔ kind.Within n := by
  have half : (Width.w64.half : Int) = 2 ^ 63 := rfl
  have count : (Width.w64.count : Int) = 2 ^ 64 := rfl
  cases kind with
  | fix64 =>
    simp only [Holds, Within, half]
    omega
  | ufix64 =>
    simp only [Holds, Within, count]
    omega

instance (kind : IntegerKind) (n : Int) : Decidable (kind.Within n) :=
  decidable_of_iff (kind.Holds n) IntegerKind.holds_iff

instance (kind : FixedPointKind) (n : Int) : Decidable (kind.Within n) :=
  decidable_of_iff (kind.Holds n) FixedPointKind.holds_iff

inductive NumberKind where
  | integer (kind : IntegerKind)
  | fixedPoint (kind : FixedPointKind)
deriving DecidableEq, Repr

namespace NumberKind

def type : NumberKind → SimpleType
  | integer kind => .integer kind
  | fixedPoint kind => .fixedPoint kind

def Within : NumberKind → Int → Prop
  | integer kind => kind.Within
  | fixedPoint kind => kind.Within

instance (kind : NumberKind) (n : Int) : Decidable (kind.Within n) :=
  match kind with
  | integer kind => inferInstanceAs (Decidable (kind.Within n))
  | fixedPoint kind => inferInstanceAs (Decidable (kind.Within n))

theorem natAbs_lt {kind : NumberKind} {n : Int} (within : kind.Within n) :
    n.natAbs < 2 ^ 256 := by
  rcases kind with (_ | _ | w | w | w) | (_ | _)
  case integer.intOf | integer.uintOf | integer.wordOf =>
    cases w <;> simp only [Within, IntegerKind.Within, Width.bits] at within <;> omega
  all_goals
    simp only [Within, IntegerKind.Within, FixedPointKind.Within] at within
    omega

end NumberKind

/-- The number that the value is, and of which kind. -/
def Value.number? : Value → Option (NumberKind × Int)
  | .integer n => some (.integer n.kind, n.value)
  | .fixedPoint n => some (.fixedPoint n.kind, n.scaled)
  | _ => none

theorem Value.eq_integer {v : Value} {kind : IntegerKind} {n : Int} {m : Integer}
    (number : v.number? = some (.integer kind, n)) (same : m.kind = kind) (value : m.value = n) :
    v = .integer m := by
  cases v with
  | integer k =>
    simp only [Value.number?, Option.some.injEq, Prod.mk.injEq, NumberKind.integer.injEq] at number
    obtain ⟨rfl, rfl⟩ := number
    exact congrArg Value.integer (Integer.eq_of_value same.symm value.symm)
  | _ => cases number

end CadenceWire
