import CadenceWire.Numeric.Binary64
import CadenceWire.Numeric.Width

/-!
JSON documents as trees. An object keeps its members as they were written; of several members with
one name the last is meant.
-/
namespace CadenceWire

/-- A number: an integer, or a binary64 magnitude with a sign, which zero keeps. -/
inductive Json.Number where
  | integer (n : Int)
  | double (negative : Bool) (magnitude : Binary64)
deriving DecidableEq, Repr

def Json.Number.text : Json.Number → String
  | integer n => Decimal.ofInt n
  | double negative magnitude => (if negative then "-" else "") ++ magnitude.text

inductive Json where
  | null
  | bool (b : Bool)
  | number (n : Json.Number)
  | string (s : String)
  | array (items : List Json)
  | object (members : List (String × Json))

namespace Json

abbrev Members := List (String × Json)

/-- The last member of a name. -/
def Members.last? : Members → String → Option Json
  | [], _ => none
  | (key, value) :: rest, name =>
    match last? rest name with
    | some found => some found
    | none => if key = name then some value else none

theorem Members.sizeOf_last? {members : Members} {name : String} {found : Json}
    (h : members.last? name = some found) : sizeOf found < sizeOf members := by
  induction members with
  | nil => simp [last?] at h
  | cons member rest ih =>
    obtain ⟨key, value⟩ := member
    simp only [last?] at h
    simp only [List.cons.sizeOf_spec, Prod.mk.sizeOf_spec]
    split at h
    · next deeper eq => cases h; have := ih eq; omega
    · split at h
      · cases h; omega
      · cases h

/-- The last member of a name, known to be smaller than the members together. -/
def Members.part? (members : Members) (name : String) :
    Option { value : Json // sizeOf value < sizeOf members } :=
  match h : members.last? name with
  | some value => some ⟨value, sizeOf_last? h⟩
  | none => none

theorem Members.map_part? (members : Members) (name : String) :
    (members.part? name).map Subtype.val = members.last? name := by
  unfold part?
  split <;> simp [*]

def Members.has (members : Members) (name : String) : Bool := (members.last? name).isSome

def text? : Json → Option String
  | string s => some s
  | _ => none

def bool? : Json → Option Bool
  | bool b => some b
  | _ => none

def items? : Json → Option (List Json)
  | array items => some items
  | _ => none

/-- The number as an unsigned one of 64 bits; a double is never taken for one. -/
def unsigned64? : Json → Option UInt64
  | number (.integer n) => (Width.w64.unsigned? n).map UInt64.ofNat
  | _ => none

end Json

end CadenceWire
