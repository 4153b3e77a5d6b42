/-!
CBOR data items.
-/
namespace CadenceWire.Cbor

inductive Item where
  | integer (n : Int)
  | bytes (bytes : List UInt8)
  | text (s : String)
  | bool (b : Bool)
  | null
  /-- A binary floating-point number, held as the two, four or eight bytes of it. -/
  | float (encoding : List UInt8)
  | tag (number : Nat) (content : Item)
  | array (items : List Item)
  | map (entries : List (Item × Item))

/-- What messages call an item. -/
def Item.shape : Item → String
  | integer _ => "integer"
  | bytes _ => "byte string"
  | text _ => "text string"
  | bool _ => "bool"
  | null => "null"
  | float _ => "float"
  | tag .. => "tagged item"
  | array _ => "array"
  | map _ => "map"

end CadenceWire.Cbor
