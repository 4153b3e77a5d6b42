import CadenceWire.StaticType.Identifier
import CadenceWire.Text.Quoted
import CadenceWire.Value.Basic

/-!
Values as text, much as the language writes them. A present optional shows only its content.
-/
namespace CadenceWire

/-- The type behind the name, if it is known. -/
def Capability.text (c : Capability) : String :=
  let borrowed := match c.borrowType with
    | some type => "<" ++ type.id ++ ">"
    | none => ""
  let target := match c.path with
    | some path => "path: " ++ path.text
    | none => "id: " ++ Decimal.ofNat c.id.toNat
  "Capability" ++ borrowed ++ "(address: " ++ c.address.text ++ ", " ++ target ++ ")"

def Value.rangeText (start stop step : String) : String :=
  "InclusiveRange(start: " ++ start ++ ", end: " ++ stop ++ ", step: " ++ step ++ ")"

mutual

def Value.text : Value → String
  | .void => "()"
  | .nil => "nil"
  | .present content => content.text
  | .bool b => if b then "true" else "false"
  | .string s | .character s => Quoted.text s
  | .bytes payload => "0x" ++ Hex.encode payload
  | .address owner => owner.text
  | .integer n => n.text
  | .fixedPoint n => n.text
  | .array elements => "[" ++ ", ".intercalate (Value.elementTexts elements) ++ "]"
  | .dictionary entries => "\x7b" ++ ", ".intercalate (Value.entryTexts entries) ++ "\x7d"
  | .composite declared fields =>
    declared.id ++ "(" ++ ", ".intercalate (Value.fieldTexts fields) ++ ")"
  | .path p => p.text
  | .capability c => c.text
  | .type (some known) => "Type<" ++ known.id ++ ">()"
  | .type none => "Type()"
  | .function signature => "Function<" ++ signature.id ++ ">()"
  | .range start stop step => Value.rangeText start.text stop.text step.text

def Value.elementTexts : List Value → List String
  | [] => []
  | element :: rest => element.text :: Value.elementTexts rest

def Value.entryTexts : List (Value × Value) → List String
  | [] => []
  | (key, value) :: rest => (key.text ++ ": " ++ value.text) :: Value.entryTexts rest

def Value.fieldTexts : List (Field × Value) → List String
  | [] => []
  | (field, value) :: rest => (field.name ++ ": " ++ value.text) :: Value.fieldTexts rest

end

end CadenceWire
