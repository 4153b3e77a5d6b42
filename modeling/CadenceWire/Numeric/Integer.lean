import CadenceWire.Numeric.Decimal
import CadenceWire.Numeric.Width

/-!
Integers of the language: a kind, which fixes the range, and a value within it. The kinds without a
width hold what fits a sign and 256 bits.
-/
namespace CadenceWire

inductive IntegerKind where
  | int
  | uint
  | intOf (width : Width)
  | uintOf (width : Width)
  | wordOf (width : Width)
deriving DecidableEq, Repr

namespace IntegerKind

def name : IntegerKind → String
  | int => "Int"
  | uint => "UInt"
  | intOf w => "Int" ++ w.text
  | uintOf w => "UInt" ++ w.text
  | wordOf w => "Word" ++ w.text

def all : List IntegerKind :=
  [int, uint] ++ Width.all.map intOf ++ Width.all.map uintOf ++ Width.all.map wordOf

def min : IntegerKind → Int
  | int => 1 - Width.w256.count
  | intOf w => -w.half
  | uint | uintOf _ | wordOf _ => 0

def max : IntegerKind → Int
  | int | uint => Width.w256.count - 1
  | intOf w => w.half - 1
  | uintOf w | wordOf w => w.count - 1

def Holds (kind : IntegerKind) (n : Int) : Prop := kind.min ≤ n ∧ n ≤ kind.max

instance (kind : IntegerKind) (n : Int) : Decidable (kind.Holds n) :=
  inferInstanceAs (Decidable (_ ∧ _))

/-- Whether a literal may carry a minus. The unsigned kinds of 256 bits take one before a zero. -/
def readsMinus : IntegerKind → Bool
  | int | intOf _ | uint | uintOf .w256 | wordOf .w256 => true
  | uintOf _ | wordOf _ => false

end IntegerKind

/-- A number within the range of its kind. -/
structure Integer where
  kind : IntegerKind
  value : Int
  holds : kind.Holds value
deriving DecidableEq

namespace Integer

/-- The number as an integer of the kind, if it is in range. -/
def ofInt? (kind : IntegerKind) (n : Int) : Option Integer :=
  if h : kind.Holds n then some ⟨kind, n, h⟩ else none

theorem ofInt?_eq_some_iff {kind : IntegerKind} {value : Int} {n : Integer} :
    ofInt? kind value = some n ↔ n.kind = kind ∧ n.value = value := by
  unfold ofInt?
  constructor
  · intro found
    split at found
    · cases found; exact ⟨rfl, rfl⟩
    · cases found
  · rintro ⟨rfl, rfl⟩
    rw [dif_pos n.holds]

theorem eq_of_value {m n : Integer} (kind : m.kind = n.kind) (value : m.value = n.value) :
    m = n := by
  have one : ofInt? n.kind n.value = some m := ofInt?_eq_some_iff.2 ⟨kind, value⟩
  have other : ofInt? n.kind n.value = some n := ofInt?_eq_some_iff.2 ⟨rfl, rfl⟩
  exact Option.some.inj (one.symm.trans other)

/-- Reads a decimal literal of the kind. -/
def ofLiteral? (kind : IntegerKind) (text : String) : Option Integer := do
  let literal ← Decimal.signed? text.toList
  if literal.negative && !kind.readsMinus then none else ofInt? kind literal.toInt

def text (n : Integer) : String := Decimal.ofInt n.value

end Integer

end CadenceWire
