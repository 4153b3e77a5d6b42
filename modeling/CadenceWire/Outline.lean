import CadenceWire.Value.Display

/-!
Values as indented lines, one for every leaf. Long containers and texts are cut, and containers
beyond a depth are only summed up.
-/
namespace CadenceWire

structure OutlineLimits where
  /-- How many parts of a container are shown. -/
  items : Nat
  /-- How many characters of a text are shown. -/
  textLength : Nat
  /-- How deep containers are opened. -/
  depth : Nat
deriving DecidableEq, Repr

def OutlineLimits.standard : OutlineLimits := ⟨32, 200, 8⟩

namespace Outline

def indented (indent : Nat) (line : String) : String :=
  String.ofList (List.replicate indent ' ') ++ line

def shortened (limit : Nat) (s : String) : String :=
  if s.length ≤ limit then s else String.ofList (s.toList.take limit) ++ "..."

/-- Tells how many parts of a container are not shown, if any. -/
def remainder (limits : OutlineLimits) (indent count : Nat) (what : String) : List String :=
  if limits.items < count then
    [indented indent ("... " ++ Decimal.ofNat (count - limits.items) ++ " more" ++ what)]
  else []

/-- Whether a field gets lines of its own rather than one line behind its name. -/
def isOpened : Value → Bool
  | .composite .. | .array _ | .dictionary _ | .present _ => true
  | _ => false

end Outline

open Outline

mutual

/-- The lines of a value that lies at the given depth. -/
def Value.outline (limits : OutlineLimits) (indent depth : Nat) : Value → List String
  | .present content =>
    indented indent "Optional" :: content.outline limits (indent + 2) (depth + 1)
  | .string s => [indented indent ("String: " ++ Quoted.text (shortened limits.textLength s))]
  | .character s => [indented indent ("Character: " ++ Quoted.text (shortened limits.textLength s))]
  | .array elements =>
    let count := elements.length
    if limits.depth ≤ depth then
      [indented indent ("Array[... " ++ Decimal.ofNat count ++ " items]")]
    else
      indented indent ("Array[" ++ Decimal.ofNat count ++ "]")
        :: Value.outlineElements limits (indent + 2) (depth + 1) limits.items elements
        ++ remainder limits (indent + 2) count ""
  | .dictionary entries =>
    let count := entries.length
    if limits.depth ≤ depth then
      [indented indent ("Dictionary\x7b... " ++ Decimal.ofNat count ++ " pairs\x7d")]
    else
      indented indent ("Dictionary\x7b" ++ Decimal.ofNat count ++ "\x7d")
        :: Value.outlineEntries limits (indent + 2) (depth + 1) limits.items entries
        ++ remainder limits (indent + 2) count " pairs"
  | .composite declared fields =>
    let title := declared.kind.name ++ " " ++ declared.id ++ " \x7b"
    if limits.depth ≤ depth then [indented indent (title ++ " ... \x7d")]
    else
      indented indent title
        :: Value.outlineFields limits (indent + 2) (depth + 1) limits.items fields
        ++ remainder limits (indent + 2) fields.length " fields"
        ++ [indented indent "\x7d"]
  | other => [indented indent (other.kind.name ++ ": " ++ other.text)]

/-- The lines of the first elements, up to a number of them. -/
def Value.outlineElements (limits : OutlineLimits) (indent depth : Nat) :
    (count : Nat) → List Value → List String
  | count + 1, element :: rest =>
    element.outline limits indent depth ++ Value.outlineElements limits indent depth count rest
  | _, _ => []

def Value.outlineEntries (limits : OutlineLimits) (indent depth : Nat) :
    (count : Nat) → List (Value × Value) → List String
  | count + 1, (key, value) :: rest =>
    indented indent "key:" :: key.outline limits (indent + 2) depth
      ++ indented indent "value:" :: value.outline limits (indent + 2) depth
      ++ Value.outlineEntries limits indent depth count rest
  | _, _ => []

def Value.outlineFields (limits : OutlineLimits) (indent depth : Nat) :
    (count : Nat) → List (Field × Value) → List String
  | count + 1, (field, value) :: rest =>
    (if isOpened value then
      indented indent (field.name ++ " =") :: value.outline limits (indent + 2) depth
    else [indented indent (field.name ++ " = " ++ " ".intercalate (value.outline limits 0 depth))])
      ++ Value.outlineFields limits indent depth count rest
  | _, _ => []

end

end CadenceWire
