import CadenceWire.Text.Hex
import CadenceWire.Text.Unprintable

/-!
Quoted text, for messages and displays: the quote and the backslash get a backslash, four controls
have a letter, every other unprintable character is written by its code point, and all else stands
for itself.
-/
namespace CadenceWire.Quoted

/-- The digits of a code point, in lower case and without padding. -/
def codePoint (c : Char) : List Char := '\\' :: 'u' :: '\x7b' :: Nat.toDigits 16 c.toNat ++ ['\x7d']

/-- One character inside quotes of the given kind; the other kind of quote stands for itself. -/
def escape (quote : Char) (c : Char) : List Char :=
  if c = '\x00' then ['\\', '0']
  else if c = '\t' then ['\\', 't']
  else if c = '\r' then ['\\', 'r']
  else if c = '\n' then ['\\', 'n']
  else if c = '\\' ∨ c = quote then ['\\', c]
  else if isUnprintable c then codePoint c
  else [c]

/-- A text between double quotes. -/
def text (s : String) : String := String.ofList ('"' :: s.toList.flatMap (escape '"') ++ ['"'])

/-- A character between single quotes. -/
def char (c : Char) : String := String.ofList ('\'' :: escape '\'' c ++ ['\''])

end CadenceWire.Quoted
