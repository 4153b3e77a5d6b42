import CadenceWire.Numeric.Decimal
import CadenceWire.Numeric.Width

/-!
Integers with a magnitude of at most 256 bits, wide enough for every integer kind. Zero has one
form, so equality is that of the numbers.
-/
namespace CadenceWire

structure Wide where
  value : Int
  bounded : value.natAbs < Width.w256.count
deriving DecidableEq

namespace Wide

def ofInt? (n : Int) : Option Wide := if h : n.natAbs < Width.w256.count then some ⟨n, h⟩ else none

theorem ofInt?_eq_some_iff {value : Int} {n : Wide} : ofInt? value = some n ↔ n.value = value := by
  unfold ofInt?
  constructor
  · intro found
    split at found
    · cases found; rfl
    · cases found
  · rintro rfl
    rw [dif_pos n.bounded]

def ofSignMagnitude? (s : SignMagnitude) : Option Wide := ofInt? s.toInt

/-- Reads decimal digits behind an optional sign. -/
def ofLiteral? (text : String) : Option Wide := Decimal.signed? text.toList >>= ofSignMagnitude?

def isNegative (n : Wide) : Bool := n.value < 0

def magnitude (n : Wide) : Nat := n.value.natAbs

def text (n : Wide) : String := Decimal.ofInt n.value

/-- Whether the number is one of 256 bits in two's complement. -/
def fitsSigned256 (n : Wide) : Bool := (Width.w256.signed? n.value).isSome

/-- The number, if it is one of 128 bits in two's complement. -/
def toSigned128? (n : Wide) : Option Int := Width.w128.signed? n.value

def toUnsigned128? (n : Wide) : Option Nat := Width.w128.unsigned? n.value

def toUnsigned256? (n : Wide) : Option Nat := Width.w256.unsigned? n.value

end Wide

end CadenceWire
