/-!
Widths of numbers in bits.
-/
namespace CadenceWire

inductive Width where
  | w8 | w16 | w32 | w64 | w128 | w256
deriving DecidableEq, Repr

namespace Width

def bits : Width → Nat
  | w8 => 8 | w16 => 16 | w32 => 32 | w64 => 64 | w128 => 128 | w256 => 256

def text : Width → String
  | w8 => "8" | w16 => "16" | w32 => "32" | w64 => "64" | w128 => "128" | w256 => "256"

/-- How many numbers a width has. -/
def count (w : Width) : Nat := 1 <<< w.bits

/-- How many of them are below zero if they are signed. -/
def half (w : Width) : Nat := 1 <<< (w.bits - 1)

theorem half_lt_count (w : Width) : w.half < w.count := by
  cases w <;> decide

/-- The number, if it is one of the width in two's complement. -/
def signed? (w : Width) (n : Int) : Option Int := if -w.half ≤ n ∧ n < w.half then some n else none

/-- The number, if it is one of the width without a sign. -/
def unsigned? (w : Width) (n : Int) : Option Nat :=
  if 0 ≤ n ∧ n < w.count then some n.toNat else none

theorem unsigned?_eq_some_iff {w : Width} {n : Int} {natural : Nat} :
    w.unsigned? n = some natural ↔ n = natural ∧ natural < w.count := by
  unfold unsigned?
  split
  next inside =>
    simp only [Option.some.injEq]
    omega
  next outside =>
    simp only [reduceCtorEq, false_iff]
    omega

def all : List Width := [w8, w16, w32, w64, w128, w256]

end Width

end CadenceWire
