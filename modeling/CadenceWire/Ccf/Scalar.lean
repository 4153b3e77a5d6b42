import CadenceWire.Cbor.Head
import CadenceWire.Ccf.Part
import CadenceWire.Numeric.FixedPoint
import CadenceWire.Numeric.Integer

/-!
Numbers and paths in CCF.
-/
namespace CadenceWire.Ccf

open Cbor (Item)

/-- How many bytes a number may have that is written as a byte string. -/
def maxNumberBytes : Nat := 32

/-- The number of a byte string, the most significant byte first. -/
def magnitude (kind : String) (item : Item) : Except Failure Nat := do
  let content ← bytes kind item
  if maxNumberBytes < content.length then throw (.integerOutOfRange kind)
  return Cbor.bigEndian content

/-- An integer, which may also be a byte string that stands for itself or counts down from -1. -/
def number (kind : String) : Item → Except Failure Int
  | .integer n => .ok n
  | .tag 2 content => (fun n : Nat => (n : Int)) <$> magnitude kind content
  | .tag 3 content => (fun n : Nat => -1 - (n : Int)) <$> magnitude kind content
  | item => .error (misfit "integer" kind item)

def integer (kind : IntegerKind) (item : Item) : Except Failure Integer := do
  match Integer.ofInt? kind (← number kind.name item) with
  | some n => return n
  | none => throw (.integerOutOfRange kind.name)

def fixedPoint (kind : FixedPointKind) (item : Item) : Except Failure FixedPoint := do
  match FixedPoint.ofScaled? kind (← number kind.name item) with
  | some n => return n
  | none => throw (.integerOutOfRange kind.name)

/-- Any domain may stand in a path, whatever the static type says of it. -/
def path : Item → Except Failure Path
  | .array [domain, identifier] => do
    let code ← unsigned "path domain" domain
    match PathDomain.ofCode? code with
    | some domain => return ⟨domain, ← text "path identifier" identifier⟩
    | none => throw (.invalidPathDomain code)
  | item => .error (miscount 2 "path value" item)

end CadenceWire.Ccf
