import CadenceWire.Proofs.StaticType.Every
import CadenceWire.Value.Basic

/-!
Properties that a value has at every depth, and properties of the types it holds.
-/
namespace CadenceWire.Value

mutual

/-- The property holds of the value and of every value within it. -/
def Every (p : Value → Prop) : Value → Prop
  | present content => p (present content) ∧ content.Every p
  | array elements => p (array elements) ∧ EveryOf p elements
  | dictionary entries => p (dictionary entries) ∧ EveryEntry p entries
  | composite declared fields => p (composite declared fields) ∧ EveryField p fields
  | range start stop step => p (range start stop step) ∧ start.Every p ∧ stop.Every p ∧ step.Every p
  | void => p void
  | nil => p nil
  | bool b => p (bool b)
  | string s => p (string s)
  | character s => p (character s)
  | bytes content => p (bytes content)
  | address owner => p (address owner)
  | integer n => p (integer n)
  | fixedPoint n => p (fixedPoint n)
  | path place => p (path place)
  | capability held => p (capability held)
  | type known => p (type known)
  | function signature => p (function signature)

def EveryOf (p : Value → Prop) : List Value → Prop
  | [] => True
  | v :: rest => v.Every p ∧ EveryOf p rest

def EveryEntry (p : Value → Prop) : List (Value × Value) → Prop
  | [] => True
  | (key, item) :: rest => key.Every p ∧ item.Every p ∧ EveryEntry p rest

def EveryField (p : Value → Prop) : List (Field × Value) → Prop
  | [] => True
  | (_, v) :: rest => v.Every p ∧ EveryField p rest

end

variable {p : Value → Prop}

theorem everyOf_iff {elements : List Value} : EveryOf p elements ↔ ∀ v ∈ elements, v.Every p := by
  induction elements with
  | nil => simp [EveryOf]
  | cons v rest ih => simp [EveryOf, ih]

theorem everyEntry_iff {entries : List (Value × Value)} :
    EveryEntry p entries ↔ ∀ entry ∈ entries, entry.1.Every p ∧ entry.2.Every p := by
  induction entries with
  | nil => simp [EveryEntry]
  | cons entry rest ih => simp [EveryEntry, ih, and_assoc]

theorem everyField_iff {fields : List (Field × Value)} :
    EveryField p fields ↔ ∀ field ∈ fields, field.2.Every p := by
  induction fields with
  | nil => simp [EveryField]
  | cons field rest ih => simp [EveryField, ih]

section implication

variable {q : Value → Prop}

mutual

theorem Every.imp (implied : ∀ v, p v → q v) {v : Value} (every : v.Every p) : v.Every q := by
  match v with
  | void | nil | bool _ | string _ | character _ | bytes _ | address _ | integer _ | fixedPoint _
  | path _ | capability _ | type _ | function _ => exact implied _ every
  | present _ => exact ⟨implied _ every.1, every.2.imp implied⟩
  | array _ => exact ⟨implied _ every.1, EveryOf.imp implied every.2⟩
  | dictionary _ => exact ⟨implied _ every.1, EveryEntry.imp implied every.2⟩
  | composite _ _ => exact ⟨implied _ every.1, EveryField.imp implied every.2⟩
  | range _ _ _ =>
    exact ⟨implied _ every.1, every.2.1.imp implied, every.2.2.1.imp implied,
      every.2.2.2.imp implied⟩

theorem EveryOf.imp (implied : ∀ v, p v → q v) {elements : List Value}
    (every : EveryOf p elements) : EveryOf q elements := by
  match elements with
  | [] => trivial
  | _ :: _ => exact ⟨every.1.imp implied, EveryOf.imp implied every.2⟩

theorem EveryEntry.imp (implied : ∀ v, p v → q v) {entries : List (Value × Value)}
    (every : EveryEntry p entries) : EveryEntry q entries := by
  match entries with
  | [] => trivial
  | (_, _) :: _ =>
    exact ⟨every.1.imp implied, every.2.1.imp implied, EveryEntry.imp implied every.2.2⟩

theorem EveryField.imp (implied : ∀ v, p v → q v) {fields : List (Field × Value)}
    (every : EveryField p fields) : EveryField q fields := by
  match fields with
  | [] => trivial
  | (_, _) :: _ => exact ⟨every.1.imp implied, EveryField.imp implied every.2⟩

end

end implication

/-- The property holds of the types that the value itself holds, at every depth of theirs. -/
def TypesEvery (p : StaticType → Prop) : Value → Prop
  | composite _ fields => ∀ field ∈ fields, StaticType.EveryBound p field.1.type
  | capability held => StaticType.EveryBound p held.borrowType
  | type known => StaticType.EveryBound p known
  | function signature => signature.Every p
  | _ => True

theorem TypesEvery.imp {p q : StaticType → Prop} (implied : ∀ type, p type → q type) {v : Value}
    (every : v.TypesEvery p) : v.TypesEvery q := by
  cases v with
  | composite => exact fun field member => (every field member).imp implied
  | capability | type => exact StaticType.EveryBound.imp implied every
  | function => exact FunctionType.Every.imp implied every
  | _ => trivial

end CadenceWire.Value
