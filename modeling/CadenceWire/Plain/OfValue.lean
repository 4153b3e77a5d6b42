import CadenceWire.Plain.Basic
import CadenceWire.Plain.TextMap
import CadenceWire.Value.Display

/-!
Values made plain. Kinds that have no plain form of their own become text.
-/
namespace CadenceWire

/-- Why a dictionary has no plain form: one of its keys is of no use. -/
inductive KeyFault where
  | noText (kind : String)
  | empty
  | repeated (key : String)
deriving DecidableEq, Repr

def KeyFault.text : KeyFault → String
  | noText kind => kind ++ " key has no text form"
  | empty => "key converted to an empty string"
  | repeated key => "key " ++ Quoted.text key ++ " occurs more than once after conversion"

namespace Plain

/-- The text a plain value is as the key of a map. -/
def key : Plain → Except KeyFault String
  | text s => nonEmpty s
  | integer n => nonEmpty n.text
  | bool b => nonEmpty (if b then "true" else "false")
  | bytes content => nonEmpty (Hex.encode content)
  | other => .error (.noText other.kindName)
where
  nonEmpty (s : String) : Except KeyFault String := if s = "" then .error .empty else .ok s

/-- Adds a pair in front of others, unless its value is absent. -/
def present (name : String) (value : Plain) (others : List (String × Plain)) :
    List (String × Plain) :=
  if value.isAbsent then others else (name, value) :: others

end Plain

mutual

/-- Structs and resources become maps, and so do dictionaries; what is absent is left out of them.
Other composites become text as a whole. -/
def Value.plain : Value → Except KeyFault Plain
  | .nil => .ok .absent
  | .present content => content.plain
  | .bool b => .ok (.bool b)
  | .string s | .character s => .ok (.text s)
  | .bytes content => .ok (.bytes content)
  | .address owner => .ok (.text owner.hex)
  | .integer n => .ok (.integer (.ofInteger n))
  | .fixedPoint n => .ok (.integer (.ofFixedPoint n))
  | .array elements => do return .list (← Value.plainElements elements)
  | .dictionary entries => do return .map (TextMap.ofList (← Value.plainEntries [] entries))
  | .composite declared fields =>
    match declared.kind with
    | .struct | .resource => do return .map (TextMap.ofList (← Value.plainFields fields))
    | _ => .ok (.text (Value.composite declared fields).text)
  | .type none => .ok (.text "")
  | .type (some known) => .ok (.text known.id)
  | .function signature => .ok (.text signature.id)
  | .void => .ok (.text Value.void.text)
  | .path p => .ok (.text p.text)
  | .capability c => .ok (.text c.text)
  | .range start stop step => .ok (.text (Value.range start stop step).text)

def Value.plainElements : List Value → Except KeyFault (List Plain)
  | [] => .ok []
  | element :: rest => do
    let first ← element.plain
    return first :: (← Value.plainElements rest)

/-- The entries of which the value is there. A key is taken as soon as it is seen, whatever becomes
of its value. -/
def Value.plainEntries (taken : List String) :
    List (Value × Value) → Except KeyFault (List (String × Plain))
  | [] => .ok []
  | (key, value) :: rest => do
    let key ← (← key.plain).key
    if key ∈ taken then throw (.repeated key)
    let value ← value.plain
    return Plain.present key value (← Value.plainEntries (key :: taken) rest)

def Value.plainFields : List (Field × Value) → Except KeyFault (List (String × Plain))
  | [] => .ok []
  | (field, value) :: rest => do
    let value ← value.plain
    return Plain.present field.name value (← Value.plainFields rest)

end

end CadenceWire
