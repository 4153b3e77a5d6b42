import CadenceWire.Text.Quoted

/-!
Why a JSON-CDC payload holds no value.
-/
namespace CadenceWire.JsonCdc

inductive Failure where
  /-- The payload is not a JSON document. -/
  | malformed
  | unexpectedShape (expected context : String)
  | missingField (field context : String)
  | unknownValueKind (kind : String)
  | unknownTypeKind (kind : String)
  /-- A type was given by its identifier alone, and no type of that identifier came before. -/
  | unknownTypeReference (id : String)
  | invalidNumber (kind literal : String)
  | invalidAddress (literal : String)
  | invalidPathDomain (domain : String)
  /-- The type of a function is no function type. -/
  | expectedFunctionType (got : String)
deriving DecidableEq, Repr

def Failure.text (failure : Failure) : String :=
  "json-cdc: " ++ match failure with
    | malformed => "malformed json"
    | unexpectedShape expected context => "expected " ++ expected ++ " for " ++ context
    | missingField field context => "missing field " ++ Quoted.text field ++ " in " ++ context
    | unknownValueKind kind => "unknown value type " ++ Quoted.text kind
    | unknownTypeKind kind => "unknown static type kind " ++ Quoted.text kind
    | unknownTypeReference id => "unresolved type reference " ++ Quoted.text id
    | invalidNumber kind literal => "invalid " ++ kind ++ " literal " ++ Quoted.text literal
    | invalidAddress literal => "invalid address " ++ Quoted.text literal
    | invalidPathDomain domain => "invalid path domain " ++ Quoted.text domain
    | expectedFunctionType got => "expected function type, got " ++ got

end CadenceWire.JsonCdc
