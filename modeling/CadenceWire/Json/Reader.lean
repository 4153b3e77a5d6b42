import CadenceWire.Json.Basic
import CadenceWire.Text.Hex
import CadenceWire.Text.Utf8

/-!
Reading JSON text: the strict grammar, with nothing but blanks around the value. A text is refused
as a whole, for its form, for arrays and objects open more than 127 deep, or for a number beyond the
doubles.
-/
namespace CadenceWire.Json

/-- Takes something off the front of a text and gives what is left. -/
abbrev Reader (α : Type) := List Char → Option (α × List Char)

namespace Reader

def isBlank (c : Char) : Bool := c = ' ' || c = '\t' || c = '\n' || c = '\r'

def skipBlanks (text : List Char) : List Char := text.dropWhile isBlank

/-- The character a one-letter escape stands for. -/
def unescape? : Char → Option Char
  | '"' => some '"'
  | '\\' => some '\\'
  | '/' => some '/'
  | 'b' => some '\x08'
  | 'f' => some '\x0c'
  | 'n' => some '\n'
  | 'r' => some '\r'
  | 't' => some '\t'
  | _ => none

/-- The 16-bit unit that four hexadecimal digits denote. -/
def unit? (a b c d : Char) : Option Nat := do
  let high := 16 * (← Hex.digit? a) + (← Hex.digit? b)
  let low := 16 * (← Hex.digit? c) + (← Hex.digit? d)
  return 256 * high + low

def isHighSurrogate (unit : Nat) : Bool := 0xD800 ≤ unit && unit < 0xDC00

def isLowSurrogate (unit : Nat) : Bool := 0xDC00 ≤ unit && unit < 0xE000

/-- The rest of a string behind its opening quote. A character beyond the basic plane is escaped by
two units, neither of which may stand alone. The characters read so far are in reverse. -/
def stringRest (read : List Char) : Reader String
  | [] => none
  | '"' :: rest => some (String.ofList read.reverse, rest)
  | '\\' :: 'u' :: a :: b :: c :: d :: rest =>
    match unit? a b c d with
    | none => none
    | some high =>
      if isLowSurrogate high then none
      else if isHighSurrogate high then
        match rest with
        | '\\' :: 'u' :: a' :: b' :: c' :: d' :: rest' =>
          match unit? a' b' c' d' with
          | none => none
          | some low =>
            if isLowSurrogate low then
              let code := 0x10000 + (high - 0xD800) * 0x400 + (low - 0xDC00)
              stringRest (Char.ofNat code :: read) rest'
            else none
        | _ => none
      else stringRest (Char.ofNat high :: read) rest
  | '\\' :: c :: rest =>
    match unescape? c with
    | none => none
    | some c' => stringRest (c' :: read) rest
  | c :: rest => if c.toNat < 0x20 then none else stringRest (c :: read) rest

def string : Reader String
  | '"' :: rest => stringRest [] rest
  | _ => none

/-- The digits at the front. -/
def digits (text : List Char) : List Char × List Char := text.span Char.isDigit

/-- Adds digits to a significand as long as it fits 64 bits; the digits left over come second. -/
def fillSignificand (significand : Nat) : List Char → Nat × List Char
  | [] => (significand, [])
  | c :: rest =>
    let next := 10 * significand + (c.toNat - 48)
    if next < Width.w64.count then fillSignificand next rest else (significand, c :: rest)

/-- An integer that 64 bits hold stays one, but for a zero with a minus. Any other number is a
double: further digits of the whole part count as zeros, further places are dropped. -/
def numberOf? (negative : Bool) (whole fraction : List Char) (exponent : Option Int) :
    Option Number :=
  let (significand, further) := fillSignificand 0 whole
  let fits := further = [] ∧ (!negative ∨ 0 < significand ∧ significand ≤ Width.w64.half)
  if fits ∧ fraction = [] ∧ exponent = none then
    some (.integer (if negative then -significand else significand))
  else
    let (filled, dropped) := fillSignificand significand fraction
    let places : Int := (fraction.length - dropped.length : Nat)
    (Binary64.scale? filled (further.length - places + exponent.getD 0)).map (.double negative)

/-- The places behind a point, of which there is at least one. -/
def fraction : Reader (List Char)
  | '.' :: rest =>
    match digits rest with
    | ([], _) => none
    | read => some read
  | rest => some ([], rest)

def exponent : Reader (Option Int)
  | 'e' :: rest | 'E' :: rest =>
    let (negative, unsigned) := Decimal.splitSign rest
    match digits unsigned with
    | ([], _) => none
    | (read, left) =>
      let n := Nat.ofDigitChars 10 read 0
      some (some (if negative then -n else n), left)
  | rest => some (none, rest)

/-- The whole part has no zero in front of further digits. -/
def whole (text : List Char) : Option (List Char × List Char) :=
  match digits text with
  | ([], _) => none
  | ('0' :: _ :: _, _) => none
  | read => some read

def number (text : List Char) : Option (Number × List Char) := do
  let (negative, unsigned) := match text with
    | '-' :: rest => (true, rest)
    | rest => (false, rest)
  let (wholeDigits, rest) ← whole unsigned
  let (places, rest) ← fraction rest
  let (power, rest) ← exponent rest
  let n ← numberOf? negative wholeDigits places power
  return (n, rest)

/-- A value that holds no others. -/
def scalar : Reader Json
  | 'n' :: 'u' :: 'l' :: 'l' :: rest => some (.null, rest)
  | 't' :: 'r' :: 'u' :: 'e' :: rest => some (.bool true, rest)
  | 'f' :: 'a' :: 'l' :: 's' :: 'e' :: rest => some (.bool false, rest)
  | '"' :: rest => (stringRest [] rest).map fun (s, rest) => (.string s, rest)
  | rest => (number rest).map fun (n, rest) => (.number n, rest)

/-- One or more items with commas between, up to the closing bracket. No text has more items than
characters, which bounds the repetition. -/
def separated {α : Type} (item : Reader α) (close : Char) : Nat → Reader (List α)
  | 0, _ => none
  | bound + 1, text => do
    let (first, rest) ← item text
    match skipBlanks rest with
    | ',' :: rest => do
      let (others, rest) ← separated item close bound rest
      return (first :: others, rest)
    | c :: rest => if c = close then some ([first], rest) else none
    | [] => none

/-- What stands behind an opening bracket. -/
def bracketed {α : Type} (item : Reader α) (close : Char) (text : List Char) :
    Option (List α × List Char) :=
  match skipBlanks text with
  | [] => none
  | c :: rest => if c = close then some ([], rest) else separated item close text.length (c :: rest)

def member (value : Reader Json) (text : List Char) : Option ((String × Json) × List Char) := do
  let (name, rest) ← string (skipBlanks text)
  match skipBlanks rest with
  | ':' :: rest => do
    let (found, rest) ← value rest
    return ((name, found), rest)
  | _ => none

/-- A value within which arrays and objects may be open to the given depth. -/
def value : Nat → Reader Json
  | 0, text => scalar (skipBlanks text)
  | depth + 1, text =>
    match skipBlanks text with
    | '[' :: rest =>
      (bracketed (value depth) ']' rest).map fun (items, rest) => (.array items, rest)
    | '\x7b' :: rest =>
      (bracketed (member (value depth)) '\x7d' rest).map fun (members, rest) =>
        (.object members, rest)
    | text => scalar text

end Reader

/-- How many arrays and objects may be open at once. -/
def maxDepth : Nat := 127

def ofText? (text : List Char) : Option Json := do
  let (root, rest) ← Reader.value maxDepth text
  if Reader.skipBlanks rest = [] then some root else none

/-- Reads bytes as text first: outside strings no byte beyond ASCII has a place anyway. -/
def ofBytes? (bytes : List UInt8) : Option Json := Utf8.decode? bytes >>= fun s => ofText? s.toList

end CadenceWire.Json
