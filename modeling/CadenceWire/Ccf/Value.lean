import CadenceWire.Cbor.Reader
import CadenceWire.Ccf.Definitions
import CadenceWire.Ccf.Scalar
import CadenceWire.Ccf.TypeValue
import CadenceWire.StaticType.Identifier
import CadenceWire.Value.Basic

/-!
Values in CCF. A static type says how an item is to be read; where that type leaves open what the
value is, the item brings a type of its own.
-/
namespace CadenceWire.Ccf

open Cbor (Item)

/-- A function may do without the tag of function types. -/
def functionValue : Item → Reading Value
  | .tag 193 body => .function <$> functionType body
  | item => .function <$> functionType item

def capability (borrowType : Option StaticType) : Item → Except Failure Value
  | .array [holder, id] => do
    let address ← address holder
    let id ← unsigned "capability id" id
    return .capability ⟨UInt64.ofNat id, address, borrowType, none⟩
  | item => .error (miscount 2 "capability value" item)

/-- Values of simple types, all but the abstract ones. -/
def simpleValue (type : SimpleType) (item : Item) : Reading Value :=
  match type with
  | .void =>
    match item with
    | .null => return .void
    | _ => throw (misfit "null" "Void" item)
  | .bool =>
    match item with
    | .bool b => return .bool b
    | _ => throw (misfit "bool" "Bool" item)
  | .string => return .string (← text "String" item)
  | .character => return .character (← text "Character" item)
  | .bytes => return .bytes (← bytes "Bytes" item)
  | .address => return .address (← address item)
  | .integer kind => return .integer (← integer kind item)
  | .fixedPoint kind => return .fixedPoint (← fixedPoint kind item)
  | .path _ => return .path (← path item)
  | .metaType => return .type (← typeValue item)
  | .function => functionValue item
  | .abstract _ | .resident _ => throw (.unsupportedType type.id)

/-- Reads an item through the layers of its type that add nothing to it: an optional that is there
is written as its content, and a reference as what it refers to. -/
def throughLayers (item : Item) (read : StaticType → Reading Value) : StaticType → Reading Value
  | .optional content =>
    match item with
    | .null => return .nil
    | _ => .present <$> throughLayers item read content
  | .reference _ referenced => throughLayers item read referenced
  | type => read type

/-- Whether the values of a type bring types of their own. -/
def isOpen : StaticType → Bool
  | .simple type => type.isAbstract
  | .nominal type => type.kind.isInterface
  | .intersection _ | .restricted _ _ => true
  | _ => false

mutual

def value (definitions : Definitions) (type : StaticType) (item : Item) : Reading Value :=
  let read : StaticType → Reading Value := fun type =>
    if isOpen type then
      match item with
      | .tag 130 body => typeAndValue definitions body
      | .tag number _ => throw (.unexpectedTag number "abstract-typed value")
      | _ => throw (notTagged "abstract-typed value" item)
    else
      match type with
      | .simple type => simpleValue type item
      | .variableArray element =>
        match item with
        | .array items => .array <$> values definitions element items
        | _ => throw (misfit "array" "array value" item)
      | .constantArray size element =>
        match item with
        | .array items =>
          if items.length = size.toNat then .array <$> values definitions element items
          else throw (miscount size.toNat "constant-sized array value" item)
        | _ => throw (misfit "array" "array value" item)
      | .dictionary key value =>
        match item with
        | .array items =>
          if items.length % 2 = 0 then .dictionary <$> entries definitions key value items
          else throw (.arityMismatch "dictionary value" "an even count" items.length)
        | _ => throw (misfit "array" "dictionary value" item)
      | .capability => capability none item
      | .capabilityOf borrowed => capability (some borrowed) item
      | .inclusiveRange element =>
        match item with
        | .array items => range definitions element items
        | _ => throw (misfit "array" "inclusive range value" item)
      | .nominal declared =>
        match definitions.layout? declared.id with
        | none => throw (.missingLayout declared.id)
        | some layout =>
          match item with
          | .array items =>
            if items.length = layout.fields.length then
              .composite layout.type <$> fields definitions layout.fields items
            else throw (miscount layout.fields.length "composite value" item)
          | _ => throw (misfit "array" "composite value" item)
      | .function _ => functionValue item
      | _ => throw (.unsupportedType type.id)
  throughLayers item read type

def values (definitions : Definitions) (element : StaticType) : List Item → Reading (List Value)
  | [] => return []
  | item :: rest => do
    let first ← value definitions element item
    return first :: (← values definitions element rest)

/-- The items of a dictionary are its keys and values in turn. -/
def entries (definitions : Definitions) (keyType valueType : StaticType) :
    List Item → Reading (List (Value × Value))
  | key :: item :: rest => do
    let key ← value definitions keyType key
    let item ← value definitions valueType item
    return (key, item) :: (← entries definitions keyType valueType rest)
  | _ => return []

def fields (definitions : Definitions) :
    List (String × StaticType) → List Item → Reading (List (Field × Value))
  | (name, type) :: layout, item :: rest => do
    let first ← value definitions type item
    return (⟨name, some type⟩, first) :: (← fields definitions layout rest)
  | _, _ => return []

def range (definitions : Definitions) (element : StaticType) : List Item → Reading Value
  | [start, stop, step] => do
    let start ← value definitions element start
    let stop ← value definitions element stop
    return .range start stop (← value definitions element step)
  | items => throw (miscount 3 "inclusive range value" (.array items))

/-- A type and an item that is to be read by it. -/
def typeAndValue (definitions : Definitions) : Item → Reading Value
  | .array [type, item] => do
    let type ← inlineType definitions.table type
    value definitions type item
  | item => throw (miscount 2 "type and value" item)

end

/-- A message brings a value along with its type, perhaps after the types that it defines. -/
def message : Item → Except Failure Value
  | .tag 129 (.array [definitions, item]) => do
    let definitions ← Definitions.read definitions
    (typeAndValue definitions item).run' []
  | .tag 129 body => .error (miscount 2 "typedef-and-value message" body)
  | .tag 130 item => (typeAndValue .empty item).run' []
  | .tag number _ => .error (.unexpectedTag number "message")
  | item => .error (notTagged "message" item)

/-- The value of a payload, which is a single item and nothing more. -/
def decode (payload : List UInt8) : Except Failure Value := do
  let (item, rest) ← (Cbor.read payload).mapError .malformed
  if rest ≠ [] then throw (.trailingBytes rest.length)
  message item

end CadenceWire.Ccf
