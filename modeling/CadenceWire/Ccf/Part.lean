import CadenceWire.Account
import CadenceWire.Cbor.Item
import CadenceWire.Ccf.Failure

/-!
What is asked of single items, and how a misfit is reported.
-/
namespace CadenceWire.Ccf

open Cbor (Item)

def misfit (expected context : String) (item : Item) : Failure :=
  .unexpectedItem expected context item.shape

/-- An item that should be an array of a certain number of items, and is not. -/
def miscount (count : Nat) (context : String) : Item → Failure
  | .array items => .arityMismatch context (Decimal.ofNat count) items.length
  | item => misfit "array" context item

def notTagged (context : String) (item : Item) : Failure := misfit "tagged item" context item

def array (context : String) : Item → Except Failure (List Item)
  | .array items => .ok items
  | item => .error (misfit "array" context item)

def bytes (context : String) : Item → Except Failure (List UInt8)
  | .bytes bytes => .ok bytes
  | item => .error (misfit "byte string" context item)

def text (context : String) : Item → Except Failure String
  | .text s => .ok s
  | item => .error (misfit "text string" context item)

/-- A natural number of 64 bits. -/
def unsigned (context : String) : Item → Except Failure Nat
  | .integer n =>
    match Width.w64.unsigned? n with
    | some natural => .ok natural
    | none => .error (misfit "unsigned integer" context (.integer n))
  | item => .error (misfit "unsigned integer" context item)

def address (item : Item) : Except Failure Address := do
  let content ← bytes "Address" item
  match Address.ofBytes? content with
  | some address => return address
  | none => throw (.invalidAddress content.length)

end CadenceWire.Ccf
