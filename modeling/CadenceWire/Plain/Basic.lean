import CadenceWire.Numeric.FixedPoint
import CadenceWire.Numeric.Integer

/-!
Plain values: what is left of a value when its static type is forgotten, but for the sign and the
width of integers.
-/
namespace CadenceWire

/-- The widest of the kinds of a sign and a width. -/
def IntegerKind.widest : (signed : Bool) → Width → IntegerKind
  | false, width => .uintOf width
  | true, .w256 => .int
  | true, width => .intOf width

def IntegerKind.isSigned : IntegerKind → Bool
  | int | intOf _ => true
  | uint | uintOf _ | wordOf _ => false

/-- The width of a kind, where kinds without one count as the widest. -/
def IntegerKind.width : IntegerKind → Width
  | int | uint => .w256
  | intOf w | uintOf w | wordOf w => w

theorem IntegerKind.Holds.widest {kind : IntegerKind} {n : Int} (h : kind.Holds n) :
    (IntegerKind.widest kind.isSigned kind.width).Holds n := by
  cases kind with
  | int | uint | uintOf w | wordOf w => exact h
  | intOf w =>
    cases w with
    | w256 =>
      have narrower := Width.half_lt_count .w256
      simp only [IntegerKind.Holds, IntegerKind.min, IntegerKind.max, IntegerKind.widest,
        IntegerKind.isSigned, IntegerKind.width] at h ⊢
      omega
    | _ => exact h

/-- An integer that keeps no more of its kind than the sign and the width. -/
structure PlainInteger where
  signed : Bool
  width : Width
  value : Int
  holds : (IntegerKind.widest signed width).Holds value
deriving DecidableEq

namespace PlainInteger

def ofInteger (n : Integer) : PlainInteger :=
  ⟨n.kind.isSigned, n.kind.width, n.value, n.holds.widest⟩

/-- The scaled number, of 64 bits. -/
def ofFixedPoint (n : FixedPoint) : PlainInteger where
  signed := n.kind = .fix64
  width := .w64
  value := n.scaled
  holds := by
    obtain ⟨kind, scaled, holds⟩ := n
    cases kind <;>
      simp only [FixedPointKind.Holds, IntegerKind.Holds, IntegerKind.min, IntegerKind.max,
        IntegerKind.widest, reduceCtorEq, decide_true, decide_false] at holds ⊢ <;>
      omega

def text (n : PlainInteger) : String := Decimal.ofInt n.value

/-- The number, if it is one of 128 bits in two's complement. -/
def toSigned128? (n : PlainInteger) : Option Int := Width.w128.signed? n.value

end PlainInteger

inductive Plain where
  /-- What a missing optional becomes. -/
  | absent
  | bool (b : Bool)
  | text (s : String)
  | bytes (bytes : List UInt8)
  | integer (n : PlainInteger)
  | list (items : List Plain)
  /-- Keys in strictly increasing order. -/
  | map (entries : List (String × Plain))

namespace Plain

def kindName : Plain → String
  | absent => "absent"
  | bool _ => "bool"
  | text _ => "string"
  | bytes _ => "bytes"
  | integer _ => "integer"
  | list _ => "list"
  | map _ => "map"

def isAbsent : Plain → Bool
  | absent => true
  | _ => false

/-- What a map holds under a key; anything else holds nothing. -/
def get? : Plain → String → Option Plain
  | map entries, key => entries.lookup key
  | _, _ => none

/-- The item of a list at a place. -/
def item? : Plain → Nat → Option Plain
  | list items, place => items[place]?
  | _, _ => none

mutual

def same : Plain → Plain → Bool
  | absent, absent => true
  | bool b, bool c => b = c
  | text s, text t => s = t
  | bytes b, bytes c => b = c
  | integer m, integer n => m = n
  | list vs, list ws => sameItems vs ws
  | map vs, map ws => sameEntries vs ws
  | _, _ => false

def sameItems : List Plain → List Plain → Bool
  | [], [] => true
  | v :: vs, w :: ws => v.same w && sameItems vs ws
  | _, _ => false

def sameEntries : List (String × Plain) → List (String × Plain) → Bool
  | [], [] => true
  | (k, v) :: vs, (l, w) :: ws => k = l && v.same w && sameEntries vs ws
  | _, _ => false

end

end Plain

end CadenceWire
