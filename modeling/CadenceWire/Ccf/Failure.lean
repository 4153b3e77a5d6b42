import CadenceWire.Cbor.Head
import CadenceWire.Text.Hex

/-!
Why a CCF payload holds no value.
-/
namespace CadenceWire.Ccf

inductive Failure where
  | malformed (fault : Cbor.Fault)
  | trailingBytes (leftover : Nat)
  | unexpectedItem (expected context got : String)
  | unexpectedTag (tag : Nat) (context : String)
  | arityMismatch (context expected : String) (got : Nat)
  | unknownSimpleType (code : Nat)
  | unknownTypeReference (id : List UInt8)
  | duplicateTypeDefinition (id : List UInt8)
  /-- A composite is of a type that the message does not lay out. -/
  | missingLayout (id : String)
  | integerOutOfRange (kind : String)
  | invalidAddress (length : Nat)
  | invalidPathDomain (code : Nat)
  | unsupportedType (id : String)
deriving DecidableEq, Repr

def Failure.text (failure : Failure) : String :=
  "ccf: " ++ match failure with
    | malformed fault => "malformed cbor: " ++ fault.text
    | trailingBytes leftover => Decimal.ofNat leftover ++ " trailing bytes after message"
    | unexpectedItem expected context got =>
      "expected " ++ expected ++ " for " ++ context ++ ", got " ++ got
    | unexpectedTag tag context => "unexpected tag " ++ Decimal.ofNat tag ++ " for " ++ context
    | arityMismatch context expected got =>
      context ++ " expects " ++ expected ++ " elements, got " ++ Decimal.ofNat got
    | unknownSimpleType code => "unknown simple type id " ++ Decimal.ofNat code
    | unknownTypeReference id => "unresolved type reference 0x" ++ Hex.encode id
    | duplicateTypeDefinition id => "duplicate type definition 0x" ++ Hex.encode id
    | missingLayout id => "no definition for composite type " ++ id
    | integerOutOfRange kind => "integer out of range for " ++ kind
    | invalidAddress length => "address must be 8 bytes, got " ++ Decimal.ofNat length
    | invalidPathDomain code => "invalid path domain " ++ Decimal.ofNat code
    | unsupportedType id => "values of type " ++ id ++ " are not supported"

end CadenceWire.Ccf
