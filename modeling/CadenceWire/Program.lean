import CadenceWire.Payload
import CadenceWire.Plain.Rendering
import CadenceWire.Outline

/-!
What the program prints for what it reads.
-/
namespace CadenceWire

open JsonCdc (Options)

inductive Command where
  /-- The plain value as JSON. -/
  | value
  /-- The fields of a composite as JSON. -/
  | event
  /-- The value as an outline. -/
  | inspect (limits : OutlineLimits)
deriving DecidableEq, Repr

structure Invocation where
  command : Command
  /-- The payload is given as hexadecimal text. -/
  hex : Bool
  format : Format
  strict : Bool
  /-- JSON is set over several lines. -/
  pretty : Bool
deriving DecidableEq, Repr

structure Outcome where
  exitCode : UInt8
  output : String
  messages : String
deriving DecidableEq, Repr

namespace Invocation

def isBlank (b : UInt8) : Bool := b = 0x20 || b = 0x09 || b = 0x0A || b = 0x0C || b = 0x0D

def trim (text : List UInt8) : List UInt8 :=
  ((text.dropWhile isBlank).reverse.dropWhile isBlank).reverse

/-- The hexadecimal digits of a text, which may have blanks around it and `0x` in front. -/
def hexDigits (text : List UInt8) : List Char :=
  match (trim text).map fun b => Char.ofNat b.toNat with
  | '0' :: 'x' :: digits | '0' :: 'X' :: digits => digits
  | digits => digits

def payload (i : Invocation) (input : List UInt8) : Except Failure (List UInt8) :=
  if i.hex then (Hex.decode (hexDigits input)).mapError .hex else .ok input

def options (i : Invocation) : Options := if i.strict then .strict else .lenient

def line (s : String) : String := s ++ "\n"

def json (i : Invocation) (document : Json) : String :=
  line (if i.pretty then document.pretty else document.compact)

/-- What is printed of a value. -/
def report (i : Invocation) (value : Value) : Except Failure String := do
  match i.command with
  | .value => return i.json (← value.toPlain).json
  | .event => return i.json (Plain.map (← value.eventFields)).json
  | .inspect limits => return String.join ((value.outline limits 0 0).map line)

/-- What comes of an input, or of the reason why there is none. -/
def result (i : Invocation) (input : Except String (List UInt8)) : Except Failure String := do
  let payload ← i.payload (← input.mapError .input)
  i.report (← i.format.decode i.options payload)

def run (i : Invocation) (input : Except String (List UInt8)) : Outcome :=
  match i.result input with
  | .ok output => ⟨0, output, ""⟩
  | .error failure => ⟨1, "", line ("error: " ++ failure.text)⟩

end Invocation

end CadenceWire
