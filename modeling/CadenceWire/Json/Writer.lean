import CadenceWire.Json.Basic
import CadenceWire.Text.Hex

/-!
Writing JSON text, on one line without blanks or over several lines with an indent of two spaces.
Only the quote, the backslash and the controls are escaped.
-/
namespace CadenceWire.Json

namespace Writer

/-- The letter of a control that has one. -/
def letter? (c : Char) : Option Char :=
  if c = '\x08' then some 'b'
  else if c = '\x0c' then some 'f'
  else if c = '\n' then some 'n'
  else if c = '\r' then some 'r'
  else if c = '\t' then some 't'
  else none

def escape (c : Char) : List Char :=
  if c = '"' ∨ c = '\\' then ['\\', c]
  else if c.toNat < 0x20 then
    match letter? c with
    | some l => ['\\', l]
    | none => ['\\', 'u', '0', '0', Hex.digit (c.toNat / 16), Hex.digit (c.toNat % 16)]
  else [c]

def string (s : String) : String := String.ofList ('"' :: s.toList.flatMap escape ++ ['"'])

/-- How the parts of an array or object are set: what follows the opening bracket, what stands
between two parts, what precedes the closing bracket, and what follows a name. -/
structure Style where
  opening : Nat → String
  between : Nat → String
  closing : Nat → String
  naming : String

def Style.compact : Style := ⟨fun _ => "", fun _ => ",", fun _ => "", ":"⟩

def lineBreak (level : Nat) : String := "\n" ++ String.ofList (List.replicate (2 * level) ' ')

def Style.pretty : Style :=
  ⟨fun level => lineBreak (level + 1), fun level => "," ++ lineBreak (level + 1), lineBreak, ": "⟩

/-- The parts between brackets; without parts the brackets stand together. -/
def brackets (style : Style) (level : Nat) (opening closing : String) : List String → String
  | [] => opening ++ closing
  | parts => opening ++ style.opening level ++ (style.between level).intercalate parts
      ++ style.closing level ++ closing

mutual

/-- The text of a value inside the given number of arrays and objects. -/
def value (style : Style) (level : Nat) : Json → String
  | .null => "null"
  | .bool b => if b then "true" else "false"
  | .number n => n.text
  | .string s => string s
  | .array items => brackets style level "[" "]" (values style (level + 1) items)
  | .object members => brackets style level "\x7b" "\x7d" (named style (level + 1) members)

def values (style : Style) (level : Nat) : List Json → List String
  | [] => []
  | item :: rest => value style level item :: values style level rest

def named (style : Style) (level : Nat) : List (String × Json) → List String
  | [] => []
  | (name, item) :: rest =>
    (string name ++ style.naming ++ value style level item) :: named style level rest

end

end Writer

def compact (j : Json) : String := Writer.value .compact 0 j

def pretty (j : Json) : String := Writer.value .pretty 0 j

end CadenceWire.Json
