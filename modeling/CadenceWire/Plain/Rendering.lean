import CadenceWire.Json.Writer
import CadenceWire.Plain.Basic

/-!
Plain values as JSON. Integers of 256 bits are written as text, since few readers take such numbers.
-/
namespace CadenceWire

def PlainInteger.json (n : PlainInteger) : Json :=
  match n.width with
  | .w256 => .string n.text
  | _ => .number (.integer n.value)

mutual

def Plain.json : Plain → Json
  | .absent => .null
  | .bool b => .bool b
  | .text s => .string s
  | .bytes content => .string ("0x" ++ Hex.encode content)
  | .integer n => n.json
  | .list items => .array (Plain.jsonItems items)
  | .map entries => .object (Plain.jsonEntries entries)

def Plain.jsonItems : List Plain → List Json
  | [] => []
  | item :: rest => item.json :: Plain.jsonItems rest

def Plain.jsonEntries : List (String × Plain) → List (String × Json)
  | [] => []
  | (key, value) :: rest => (key, value.json) :: Plain.jsonEntries rest

end

end CadenceWire
