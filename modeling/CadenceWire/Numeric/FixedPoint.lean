import CadenceWire.Numeric.Decimal
import CadenceWire.Numeric.Width

/-!
Fixed-point numbers with eight decimal places, held as the number of hundred-millionths. Text with
more places is refused and never rounded.
-/
namespace CadenceWire

inductive FixedPointKind where
  | fix64
  | ufix64
deriving DecidableEq, Repr

namespace FixedPointKind

def name : FixedPointKind → String
  | fix64 => "Fix64"
  | ufix64 => "UFix64"

def all : List FixedPointKind := [fix64, ufix64]

/-- The scaled number is one of 64 bits, signed or not. -/
def Holds : FixedPointKind → Int → Prop
  | fix64, n => -Width.w64.half ≤ n ∧ n < Width.w64.half
  | ufix64, n => 0 ≤ n ∧ n < Width.w64.count

instance (kind : FixedPointKind) (n : Int) : Decidable (kind.Holds n) := by
  cases kind <;> exact inferInstanceAs (Decidable (_ ∧ _))

end FixedPointKind

/-- A scaled number within the range of its kind. -/
structure FixedPoint where
  kind : FixedPointKind
  scaled : Int
  holds : kind.Holds scaled
deriving DecidableEq

namespace FixedPoint

def places : Nat := 8

def factor : Nat := Nat.pow 10 places

/-- Reads an optional sign, digits and perhaps a point with at most eight places. The answer is
scaled, below two to the power 128, and carries no minus in front of zero. -/
def scaled? (text : List Char) : Option SignMagnitude :=
  let (negative, body) := Decimal.splitSign text
  let whole := body.takeWhile (· ≠ '.')
  let fraction := (body.dropWhile (· ≠ '.')).drop 1
  if whole = [] ∨ places < fraction.length ∨ !(whole ++ fraction).all Char.isDigit then none
  else
    let padded := fraction ++ List.replicate (places - fraction.length) '0'
    let magnitude := Nat.ofDigitChars 10 whole 0 * factor + Nat.ofDigitChars 10 padded 0
    if magnitude < Width.w128.count then some (SignMagnitude.normal ⟨negative, magnitude⟩) else none

/-- Writes a scaled number with all its places. -/
def render (n : SignMagnitude) : String :=
  let fraction := Nat.toDigits 10 (n.magnitude % factor)
  let padded := List.replicate (places - fraction.length) '0' ++ fraction
  (if n.negative then "-" else "") ++ Decimal.ofNat (n.magnitude / factor) ++ "."
    ++ String.ofList padded

def ofScaled? (kind : FixedPointKind) (n : Int) : Option FixedPoint :=
  if h : kind.Holds n then some ⟨kind, n, h⟩ else none

theorem ofScaled?_eq_some_iff {kind : FixedPointKind} {scaled : Int} {n : FixedPoint} :
    ofScaled? kind scaled = some n ↔ n.kind = kind ∧ n.scaled = scaled := by
  unfold ofScaled?
  constructor
  · intro found
    split at found
    · cases found; exact ⟨rfl, rfl⟩
    · cases found
  · rintro ⟨rfl, rfl⟩
    rw [dif_pos n.holds]

theorem eq_of_scaled {m n : FixedPoint} (kind : m.kind = n.kind) (scaled : m.scaled = n.scaled) :
    m = n := by
  have one : ofScaled? n.kind n.scaled = some m := ofScaled?_eq_some_iff.2 ⟨kind, scaled⟩
  have other : ofScaled? n.kind n.scaled = some n := ofScaled?_eq_some_iff.2 ⟨rfl, rfl⟩
  exact Option.some.inj (one.symm.trans other)

def ofLiteral? (kind : FixedPointKind) (text : String) : Option FixedPoint :=
  scaled? text.toList >>= fun n => ofScaled? kind n.toInt

def text (n : FixedPoint) : String := render ⟨n.scaled < 0, n.scaled.natAbs⟩

end FixedPoint

end CadenceWire
