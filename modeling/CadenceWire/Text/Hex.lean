/-!
Bytes as hexadecimal text: two digits a byte, the high half first. Digits of either case are read;
lower case is written.
-/
namespace CadenceWire.Hex

/-- Why a text is no hexadecimal spelling of bytes. -/
inductive Fault where
  | oddLength
  | notADigit (c : Char) (position : Nat)
deriving DecidableEq, Repr

/-- The value of a digit of either case. -/
def digit? (c : Char) : Option Nat :=
  if '0' ≤ c ∧ c ≤ '9' then some (c.toNat - 48)
  else if 'a' ≤ c ∧ c ≤ 'f' then some (c.toNat - 87)
  else if 'A' ≤ c ∧ c ≤ 'F' then some (c.toNat - 55)
  else none

/-- The lower-case digit of a value below sixteen. -/
def digit (n : Nat) : Char := if n < 10 then Char.ofNat (48 + n) else Char.ofNat (87 + n)

/-- The two digits of a byte. -/
def ofByte (b : UInt8) : List Char := [digit (b.toNat / 16), digit (b.toNat % 16)]

def encode (bytes : List UInt8) : String := String.ofList (bytes.flatMap ofByte)

/-- Reads the digits from a position on, two by two. -/
def pairs (position : Nat) : List Char → Except Fault (List UInt8)
  | high :: low :: rest => do
    let some h := digit? high | throw (.notADigit high position)
    let some l := digit? low | throw (.notADigit low (position + 1))
    return UInt8.ofNat (16 * h + l) :: (← pairs (position + 2) rest)
  | _ => .ok []

/-- The length is looked at before any digit. -/
def decode (digits : List Char) : Except Fault (List UInt8) :=
  if digits.length % 2 = 1 then .error .oddLength else pairs 0 digits

end CadenceWire.Hex
