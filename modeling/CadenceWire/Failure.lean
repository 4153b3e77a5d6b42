import CadenceWire.Ccf.Failure
import CadenceWire.JsonCdc.Failure
import CadenceWire.Plain.Narrowing
import CadenceWire.Plain.OfValue

/-!
Everything that can keep a payload from its result.
-/
namespace CadenceWire

inductive Failure where
  | json (cause : JsonCdc.Failure)
  | ccf (cause : Ccf.Failure)
  /-- The payload is in neither format. -/
  | neither (json : JsonCdc.Failure) (ccf : Ccf.Failure)
  | dictionaryKey (cause : KeyFault)
  | mismatch (cause : Mismatch)
  /-- The payload could not be had at all. -/
  | input (reason : String)
  | hex (cause : Hex.Fault)
deriving DecidableEq

def Hex.Fault.text : Hex.Fault → String
  | oddLength => "Odd number of digits"
  | notADigit c position =>
    "Invalid character " ++ Quoted.char c ++ " at position " ++ Decimal.ofNat position

def Failure.text : Failure → String
  | json cause => cause.text
  | ccf cause => cause.text
  | neither first second => first.text ++ "; ccf fallback: " ++ second.text
  | dictionaryKey cause => "invalid dictionary key: " ++ cause.text
  | mismatch cause =>
    "narrowing mismatch: expected " ++ cause.expected ++ ", got " ++ cause.got
  | input reason => "io: " ++ reason
  | hex cause => "hex input: " ++ cause.text

end CadenceWire
