import CadenceWire.Value.Basic
import Mathlib.Data.List.Chain

/-!
How deep values lie within each other. Whatever goes through a value part by part goes no deeper.
-/
namespace CadenceWire.Value

mutual

/-- How many containers lie within each other in the value, counting each optional as so many. -/
def nesting (layer : Nat) : Value → Nat
  | nil => layer
  | present content => content.nesting layer + layer
  | array elements => nestingOf layer elements + 1
  | dictionary entries => nestingOfEntries layer entries + 1
  | composite _ fields => nestingOfFields layer fields + 1
  | range start stop step =>
    max (start.nesting layer) (max (stop.nesting layer) (step.nesting layer)) + 1
  | void | bool _ | string _ | character _ | bytes _ | address _ | integer _ | fixedPoint _ | path _
  | capability _ | type _ | function _ => 0

def nestingOf (layer : Nat) : List Value → Nat
  | [] => 0
  | v :: rest => max (v.nesting layer) (nestingOf layer rest)

def nestingOfEntries (layer : Nat) : List (Value × Value) → Nat
  | [] => 0
  | (key, item) :: rest =>
    max (max (key.nesting layer) (item.nesting layer)) (nestingOfEntries layer rest)

def nestingOfFields (layer : Nat) : List (Field × Value) → Nat
  | [] => 0
  | (_, v) :: rest => max (v.nesting layer) (nestingOfFields layer rest)

end

/-- The values that a value is directly made of. -/
def parts : Value → List Value
  | present content => [content]
  | array elements => elements
  | dictionary entries => entries.flatMap fun entry => [entry.1, entry.2]
  | composite _ fields => fields.map Prod.snd
  | range start stop step => [start, stop, step]
  | _ => []

theorem key_mem_parts {entries : List (Value × Value)} {entry : Value × Value}
    (member : entry ∈ entries) : entry.1 ∈ (dictionary entries).parts :=
  List.mem_flatMap.2 ⟨entry, member, List.mem_cons_self⟩

theorem item_mem_parts {entries : List (Value × Value)} {entry : Value × Value}
    (member : entry ∈ entries) : entry.2 ∈ (dictionary entries).parts :=
  List.mem_flatMap.2 ⟨entry, member, List.mem_cons_of_mem _ List.mem_cons_self⟩

variable {layer : Nat}

private theorem nesting_le_nestingOf {elements : List Value} {v : Value} (member : v ∈ elements) :
    v.nesting layer ≤ nestingOf layer elements := by
  induction elements with
  | nil => cases member
  | cons first rest ih =>
    rw [nestingOf]
    rcases List.mem_cons.1 member with rfl | inside
    · exact Nat.le_max_left _ _
    · exact Nat.le_trans (ih inside) (Nat.le_max_right _ _)

private theorem nesting_le_nestingOfEntries {entries : List (Value × Value)} {entry : Value × Value}
    (member : entry ∈ entries) :
    max (entry.1.nesting layer) (entry.2.nesting layer) ≤ nestingOfEntries layer entries := by
  induction entries with
  | nil => cases member
  | cons first rest ih =>
    rw [nestingOfEntries]
    rcases List.mem_cons.1 member with rfl | inside
    · exact Nat.le_max_left _ _
    · exact Nat.le_trans (ih inside) (Nat.le_max_right _ _)

private theorem nesting_le_nestingOfFields {fields : List (Field × Value)} {field : Field × Value}
    (member : field ∈ fields) : field.2.nesting layer ≤ nestingOfFields layer fields := by
  induction fields with
  | nil => cases member
  | cons first rest ih =>
    rw [nestingOfFields]
    rcases List.mem_cons.1 member with rfl | inside
    · exact Nat.le_max_left _ _
    · exact Nat.le_trans (ih inside) (Nat.le_max_right _ _)

private theorem nesting_lt_of_mem_parts {v part : Value} (member : part ∈ v.parts) :
    part.nesting 1 < v.nesting 1 := by
  cases v with
  | present content =>
    obtain rfl := List.mem_singleton.1 member
    exact Nat.lt_succ_self _
  | array elements => exact Nat.lt_succ_of_le (nesting_le_nestingOf member)
  | dictionary entries =>
    obtain ⟨entry, listed, inside⟩ := List.mem_flatMap.1 member
    have within : max (entry.1.nesting 1) (entry.2.nesting 1) ≤ nestingOfEntries 1 entries :=
      nesting_le_nestingOfEntries listed
    rw [nesting]
    rcases List.mem_pair.1 inside with rfl | rfl <;> omega
  | composite declared fields =>
    obtain ⟨field, listed, rfl⟩ := List.mem_map.1 member
    exact Nat.lt_succ_of_le (nesting_le_nestingOfFields listed)
  | range start stop step =>
    rw [nesting]
    simp only [parts, List.mem_cons, List.not_mem_nil, or_false] at member
    rcases member with rfl | rfl | rfl <;> omega
  | _ => cases member

/-- What holds of a value whenever it holds of its parts holds of every value. -/
@[elab_as_elim]
theorem parts_induction {p : Value → Prop} (whole : ∀ v, (∀ part ∈ v.parts, p part) → p v)
    (v : Value) : p v := by
  induction depth : v.nesting 1 using Nat.strong_induction_on generalizing v with | _ n ih =>
  subst depth
  exact whole v fun part member => ih _ (nesting_lt_of_mem_parts member) part rfl

/-- A way down from a value is as long as the value is deep at most. -/
theorem length_le_nesting {v : Value} {below : List Value}
    (down : List.IsChain (fun whole part => part ∈ whole.parts) (v :: below)) :
    below.length ≤ v.nesting 1 := by
  induction below generalizing v with
  | nil => exact Nat.zero_le _
  | cons part below ih =>
    obtain ⟨member, rest⟩ := List.isChain_cons_cons.1 down
    exact Nat.lt_of_le_of_lt (ih rest) (nesting_lt_of_mem_parts member)

end CadenceWire.Value
