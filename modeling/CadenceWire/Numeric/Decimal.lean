/-!
Decimal text of integers: one or more ASCII digits, perhaps behind a sign. What a text denotes is a
sign and a magnitude of any size, so that a minus in front of zero can still be told.
-/
namespace CadenceWire

/-- A sign and a magnitude; zero may carry a minus. -/
structure SignMagnitude where
  negative : Bool
  magnitude : Nat
deriving DecidableEq, Repr

def SignMagnitude.toInt (s : SignMagnitude) : Int :=
  if s.negative then -s.magnitude else s.magnitude

/-- The same number without a minus in front of zero. -/
def SignMagnitude.normal (s : SignMagnitude) : SignMagnitude :=
  ⟨s.negative && s.magnitude != 0, s.magnitude⟩

namespace Decimal

/-- The number that a non-empty run of digits denotes, leading zeros allowed. -/
def natural? (digits : List Char) : Option Nat :=
  if digits ≠ [] ∧ digits.all Char.isDigit then some (Nat.ofDigitChars 10 digits 0) else none

/-- Takes one sign off the front; no sign means plus. -/
def splitSign : List Char → Bool × List Char
  | '-' :: rest => (true, rest)
  | '+' :: rest => (false, rest)
  | rest => (false, rest)

def signed? (text : List Char) : Option SignMagnitude :=
  let (negative, digits) := splitSign text
  (natural? digits).map (⟨negative, ·⟩)

def ofNat (n : Nat) : String := Nat.repr n

/-- A minus for negative numbers and no sign otherwise. -/
def ofInt (n : Int) : String := if n < 0 then "-" ++ ofNat n.natAbs else ofNat n.natAbs

end Decimal

end CadenceWire
