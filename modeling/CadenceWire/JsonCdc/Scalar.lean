import CadenceWire.Account
import CadenceWire.JsonCdc.Part
import CadenceWire.Numeric.FixedPoint
import CadenceWire.Numeric.Integer
import CadenceWire.Numeric.Wide

/-!
The parts of JSON-CDC that are single texts: numbers, addresses, and paths with their two texts.
-/
namespace CadenceWire.JsonCdc

/-- Numbers are decimal text; in the older form they may be JSON numbers. -/
def numberText (options : Options) (kind : String) : Json → Except Failure String
  | .string s => .ok s
  | .number n =>
    if options.olderForms then .ok n.text else .error (.unexpectedShape "decimal string" kind)
  | _ => .error (.unexpectedShape "decimal string" kind)

/-- How a failure shows a literal. A signed one of 256 bits that is a number, but out of range, is
shown as that number is written. -/
def refused (kind : IntegerKind) (literal : String) : String :=
  if kind = .intOf .w256 then ((Wide.ofLiteral? literal).map Wide.text).getD literal else literal

def integer (options : Options) (kind : IntegerKind) (json : Json) : Except Failure Integer := do
  let literal ← numberText options kind.name json
  match Integer.ofLiteral? kind literal with
  | some n => return n
  | none => throw (.invalidNumber kind.name (refused kind literal))

def fixedPoint (options : Options) (kind : FixedPointKind) (json : Json) :
    Except Failure FixedPoint := do
  let literal ← numberText options kind.name json
  match FixedPoint.ofLiteral? kind literal with
  | some n => return n
  | none => throw (.invalidNumber kind.name literal)

/-- The digits of an address, which in the older form may lack the `0x`. -/
def addressDigits? (options : Options) : List Char → Option (List Char)
  | '0' :: 'x' :: digits => some digits
  | literal => if options.olderForms then some literal else none

def address (options : Options) (json : Json) : Except Failure Address := do
  let literal ← string "Address" json
  match addressDigits? options literal.toList >>= Address.ofDigits? with
  | some address => return address
  | none => throw (.invalidAddress literal)

def path (json : Json) : Except Failure Path := do
  let ⟨members, _⟩ ← object "Path" json
  let domain ← textMember members "domain" "Path"
  match PathDomain.ofIdentifier? domain with
  | some domain => return ⟨domain, ← textMember members "identifier" "Path"⟩
  | none => throw (.invalidPathDomain domain)

end CadenceWire.JsonCdc
