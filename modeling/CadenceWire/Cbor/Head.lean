import CadenceWire.Numeric.Decimal
import CadenceWire.Numeric.Width

/-!
Heads of CBOR items: the first byte, which holds a major type and five bits of additional
information, and the argument that follows it. An argument may be wider than its number needs.
-/
namespace CadenceWire.Cbor

/-- Why no item could be read. The place of a malformed one is a number of bytes, which readers
count from the end of the input. -/
inductive Fault where
  | endOfInput
  | malformed (place : Nat)
  | simpleValue (number : Nat)
  | strayBreak
  | tooDeep
deriving DecidableEq, Repr

/-- Takes something off the front of the bytes and gives what is left. -/
abbrev Reader (α : Type) := List UInt8 → Except Fault (α × List UInt8)

/-- How deep items may lie within each other, the outermost lying at zero. -/
def maxDepth : Nat := 256

namespace Fault

/-- The same fault with its place counted from the front of an input of the given size. -/
def fromFront (size : Nat) : Fault → Fault
  | malformed left => malformed (size - left)
  | fault => fault

def text : Fault → String
  | endOfInput =>
    "Io(Error \x7b kind: UnexpectedEof, message: \"failed to fill whole buffer\" \x7d)"
  | malformed place => "Syntax(" ++ Decimal.ofNat place ++ ")"
  | simpleValue number => "unsupported simple value " ++ Decimal.ofNat number
  | strayBreak => "unexpected break"
  | tooDeep => "nesting deeper than " ++ Decimal.ofNat maxDepth

end Fault

/-- What a head announces. A length that is missing is indefinite. -/
inductive Head where
  | unsigned (n : Nat)
  /-- The number `-1 - n`. -/
  | negative (n : Nat)
  | bytes (length : Option Nat)
  | text (length : Option Nat)
  | array (length : Option Nat)
  | map (length : Option Nat)
  | tag (number : Nat)
  | simple (number : Nat)
  | float (encoding : List UInt8)
  | stop
deriving DecidableEq, Repr

/-- The argument of a head: within the first byte, in the bytes behind it, or missing. -/
inductive Argument where
  | immediate (n : Nat)
  | following (bytes : List UInt8)
  | indefinite
deriving DecidableEq, Repr

/-- The number that bytes denote, the most significant first. -/
def bigEndian (bytes : List UInt8) : Nat := bytes.foldl (fun n b => 256 * n + b.toNat) 0

/-- Takes a number of bytes. -/
def take (count : Nat) : Reader (List UInt8) := fun input =>
  if count ≤ input.length then .ok (input.splitAt count) else .error .endOfInput

def Argument.number? : Argument → Option Nat
  | immediate n => some n
  | following bytes => some (bigEndian bytes)
  | indefinite => none

namespace Head

/-- The argument that additional information announces. -/
def argument (information : Nat) : Reader Argument := fun rest => do
  let following (count : Nat) : Except Fault (Argument × List UInt8) := do
    let (argument, rest) ← take count rest
    return (.following argument, rest)
  match information with
  | 24 => following 1
  | 25 => following 2
  | 26 => following 4
  | 27 => following 8
  | 28 | 29 | 30 => throw (.malformed (rest.length + 1))
  | 31 => return (.indefinite, rest)
  | n => return (.immediate n, rest)

/-- Puts a major type and an argument together; integers and tags need a number. -/
def assemble? (major : Nat) (argument : Argument) : Option Head :=
  match major with
  | 0 => argument.number?.map unsigned
  | 1 => argument.number?.map negative
  | 2 => some (bytes argument.number?)
  | 3 => some (text argument.number?)
  | 4 => some (array argument.number?)
  | 5 => some (map argument.number?)
  | 6 => argument.number?.map tag
  | _ =>
    match argument with
    | .immediate n => some (simple n)
    | .following [b] => some (simple b.toNat)
    | .following encoding => some (float encoding)
    | .indefinite => some stop

def read : Reader Head
  | [] => .error .endOfInput
  | first :: rest => do
    let (argument, rest') ← argument (first.toNat % 32) rest
    let some head := assemble? (first.toNat / 32) argument
      | throw (.malformed (rest.length + 1))
    return (head, rest')

/-- The size of the shortest head with a number for an argument. -/
def shortest (n : Nat) : Nat :=
  if n < 24 then 1
  else if n < Width.w8.count then 2
  else if n < Width.w16.count then 3
  else if n < Width.w32.count then 5
  else 9

end Head

end CadenceWire.Cbor
