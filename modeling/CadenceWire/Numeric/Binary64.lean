import CadenceWire.Numeric.Decimal

/-!
Binary64 magnitudes in exact arithmetic: an operation forms the exact quotient and rounds it once,
to nearest with ties to even. Text has the fewest digits that round back to the same magnitude.
-/
namespace CadenceWire

/-- The magnitude `significand * 2 ^ exponent`, with 53 bits unless the exponent is the least. -/
structure Binary64 where
  significand : Nat
  exponent : Int
deriving DecidableEq, Repr

/-- A decimal `digits * 10 ^ exponent`. -/
structure DecimalFloat where
  digits : Nat
  exponent : Int
deriving DecidableEq, Repr

namespace Binary64

def leastExponent : Int := -1074

def greatestExponent : Int := 971

def zero : Binary64 := ⟨0, leastExponent⟩

/-- The quotient rounded to the nearest natural number, ties to even. -/
def roundQuotient (num den : Nat) : Nat :=
  let q := num / den
  let r := 2 * (num % den)
  if r < den ∨ r = den ∧ q % 2 = 0 then q else q + 1

/-- The exponent of the greatest power of two at most `num / den`. -/
def leadingBit (num den : Nat) : Int :=
  let guess : Int := num.log2 - den.log2
  if den <<< guess.toNat ≤ num <<< (-guess).toNat then guess else guess - 1

/-- The magnitude nearest to `num / den`, or nothing beyond the greatest one. -/
def nearest? (num den : Nat) : Option Binary64 :=
  if num = 0 then some zero
  else
    let exponent := max (leadingBit num den - 52) leastExponent
    let m := roundQuotient (num <<< (-exponent).toNat) (den <<< exponent.toNat)
    let rounded : Binary64 := if m = 1 <<< 53 then ⟨1 <<< 52, exponent + 1⟩ else ⟨m, exponent⟩
    if greatestExponent < rounded.exponent then none else some rounded

def numerator (x : Binary64) : Nat := x.significand <<< x.exponent.toNat

def denominator (x : Binary64) : Nat := 1 <<< (-x.exponent).toNat

def ofNat? (n : Nat) : Option Binary64 := nearest? n 1

def mul? (x y : Binary64) : Option Binary64 :=
  nearest? (x.numerator * y.numerator) (x.denominator * y.denominator)

def div? (x y : Binary64) : Option Binary64 :=
  nearest? (x.numerator * y.denominator) (x.denominator * y.numerator)

/-- The largest power of ten that one step multiplies or divides by. -/
def greatestPower : Nat := 308

/-- A significand of at most 64 bits times a power of ten: the significand is rounded first, and a
multiplication or a division by a rounded power of ten is rounded again. Beyond the greatest power
a division takes two steps, after which nothing is left, and a multiplication has no answer. -/
def scale? (significand : Nat) (power : Int) : Option Binary64 := do
  let x ← ofNat? significand
  if significand = 0 then return zero
  let factor? (n : Nat) := ofNat? (Nat.pow 10 n)
  if 0 ≤ power then
    if greatestPower < power.toNat then none else mul? x (← factor? power.toNat)
  else
    let down := (-power).toNat
    if down ≤ greatestPower then div? x (← factor? down)
    else
      let y ← div? x (← factor? greatestPower)
      if down ≤ 2 * greatestPower then div? y (← factor? (down - greatestPower)) else return zero

/-- Orders `digits * 10 ^ exponent` against `m * 2 ^ q`. -/
def compareDecimal (d : DecimalFloat) (m : Nat) (q : Int) : Ordering :=
  compare ((d.digits * Nat.pow 10 d.exponent.toNat) <<< (-q).toNat)
    ((m * Nat.pow 10 (-d.exponent).toNat) <<< q.toNat)

/-- Whether a decimal lies among the reals that round to the magnitude: not beyond half way to
either neighbour, the half way points counting if the significand is even. -/
def roundsHere (x : Binary64) (d : DecimalFloat) : Bool :=
  let narrow := x.significand = 1 <<< 52 ∧ leastExponent < x.exponent
  let low := compareDecimal d (4 * x.significand - if narrow then 1 else 2) (x.exponent - 2)
  let high := compareDecimal d (4 * x.significand + 2) (x.exponent - 2)
  let ends := x.significand % 2 = 0
  (low = .gt ∨ ends ∧ low = .eq) ∧ (high = .lt ∨ ends ∧ high = .eq)

/-- The number of digits before the point, negative by the zeros that follow the point. -/
def pointAfter (x : Binary64) : Int :=
  if x.denominator ≤ x.numerator then (Nat.toDigits 10 (x.numerator / x.denominator)).length
  else
    let reached (zeros : Nat) : Bool := x.denominator ≤ x.numerator * Nat.pow 10 (zeros + 1)
    Int.neg (((List.range 330).find? reached).getD 0)

/-- The two neighbours of the magnitude among the decimals of an exponent: the one that rounds
here, the nearer if both do, and the even one if neither is nearer. -/
def neighbour? (x : Binary64) (exponent : Int) : Option DecimalFloat :=
  let num := x.numerator * Nat.pow 10 (-exponent).toNat
  let den := x.denominator * Nat.pow 10 exponent.toNat
  let below : DecimalFloat := ⟨num / den, exponent⟩
  let above : DecimalFloat := ⟨num / den + 1, exponent⟩
  match x.roundsHere below, x.roundsHere above with
  | true, true => some (if roundQuotient num den = below.digits then below else above)
  | true, false => some below
  | false, true => some above
  | false, false => none

/-- The decimal of fewest digits that rounds here. Seventeen always suffice. -/
def shortest (x : Binary64) : DecimalFloat :=
  let point := x.pointAfter
  ((List.range 17).findSome? fun n : Nat => x.neighbour? (point - (n + 1))).getD
    ⟨x.significand, x.exponent⟩

end Binary64

namespace DecimalFloat

/-- The digits without the zeros at the end, and how many of those there were. -/
def stripped (d : DecimalFloat) : List Char × Int :=
  let digits := (Nat.toDigits 10 d.digits).reverse
  let kept := digits.dropWhile (· = '0')
  (kept.reverse, d.exponent + (digits.length - kept.length))

/-- Leading digits of these exponents, the second excluded, are written without an exponent. -/
def plainFrom : Int := -5
def plainBelow : Int := 16

/-- Plain text keeps at least one place; an exponent always has a sign. -/
def render (d : DecimalFloat) : String :=
  let (digits, exponent) := d.stripped
  let lead := digits.length + exponent - 1
  if plainFrom ≤ lead ∧ lead < plainBelow then
    if 0 ≤ exponent then String.ofList (digits ++ List.replicate exponent.toNat '0') ++ ".0"
    else if 0 ≤ lead then
      String.ofList (digits.take (lead + 1).toNat ++ '.' :: digits.drop (lead + 1).toNat)
    else "0." ++ String.ofList (List.replicate (-lead - 1).toNat '0' ++ digits)
  else
    let places := digits.drop 1
    String.ofList (digits.take 1 ++ if places = [] then [] else '.' :: places) ++ "e"
      ++ (if 0 ≤ lead then "+" else "-") ++ Decimal.ofNat lead.natAbs

end DecimalFloat

def Binary64.text (x : Binary64) : String :=
  if x.significand = 0 then "0.0" else x.shortest.render

end CadenceWire
