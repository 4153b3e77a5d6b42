import CadenceWire.Json.Basic
import CadenceWire.JsonCdc.Failure

/-!
Taking a JSON tree apart. Every part comes with the fact that it is smaller than the whole, so that
readers of trees can recur on it.
-/
namespace CadenceWire.JsonCdc

/-- What a payload may hold beyond the format as it is written today. -/
structure Options where
  /-- Older forms: numbers in place of decimal text, addresses without `0x`, capabilities of paths,
  restricted types, and references that are merely authorized or not. -/
  olderForms : Bool
  /-- Types given by an identifier that no earlier type has. -/
  unresolvedTypes : Bool
deriving DecidableEq, Repr

namespace Options

def strict : Options := ⟨false, false⟩

def lenient : Options := ⟨true, true⟩

end Options

/-- Something smaller than the parts it came from. -/
abbrev Part (α : Type) [SizeOf α] {β : Type} [SizeOf β] (whole : β) :=
  { part : α // sizeOf part < sizeOf whole }

def object (context : String) : (json : Json) → Except Failure (Part Json.Members json)
  | .object members => .ok ⟨members, by simp⟩
  | _ => .error (.unexpectedShape "object" context)

def array (context : String) : (json : Json) → Except Failure (Part (List Json) json)
  | .array items => .ok ⟨items, by simp⟩
  | _ => .error (.unexpectedShape "array" context)

def string (context : String) (json : Json) : Except Failure String :=
  match json.text? with
  | some s => .ok s
  | none => .error (.unexpectedShape "string" context)

def member (members : Json.Members) (name context : String) :
    Except Failure (Part Json members) :=
  match members.part? name with
  | some part => .ok part
  | none => .error (.missingField name context)

/-- A member that is text, which the failure calls by its name. -/
def textMember (members : Json.Members) (name context : String) : Except Failure String := do
  string name (← member members name context).val

/-- A member that says something: it is there, and is neither null nor an empty text. -/
def stated? (members : Json.Members) (name : String) : Option (Part Json members) :=
  match members.part? name with
  | none | some ⟨.null, _⟩ => none
  | some part => if part.val.text? = some "" then none else some part

/-- The items of a member, if it is an array. -/
def items? (members : Json.Members) (name : String) : Option (Part (List Json) members) :=
  match members.part? name with
  | some ⟨.array items, smaller⟩ => some ⟨items, by simp at smaller; omega⟩
  | _ => none

/-- The text of a member, and no text if the member is missing or something else. -/
def textOrNone (members : Json.Members) (name : String) : String :=
  ((members.last? name).bind Json.text?).getD ""

end CadenceWire.JsonCdc
