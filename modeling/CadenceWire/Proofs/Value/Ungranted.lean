import CadenceWire.Value.Basic

/-!
Types and values of which it is left open what references entitle to.
-/
namespace CadenceWire

mutual

def StaticType.ungranted : StaticType → StaticType
  | .simple type => .simple type
  | .optional content => .optional content.ungranted
  | .variableArray element => .variableArray element.ungranted
  | .constantArray size element => .constantArray size element.ungranted
  | .dictionary key value => .dictionary key.ungranted value.ungranted
  | .reference _ referenced => .reference .unauthorized referenced.ungranted
  | .intersection types => .intersection (StaticType.ungrantedOf types)
  | .restricted base types => .restricted base.ungranted (StaticType.ungrantedOf types)
  | .capability => .capability
  | .capabilityOf borrowed => .capabilityOf borrowed.ungranted
  | .inclusiveRange element => .inclusiveRange element.ungranted
  | .nominal type => .nominal type
  | .function signature => .function signature.ungranted
  | .unstructured id => .unstructured id

def StaticType.ungrantedOf : List StaticType → List StaticType
  | [] => []
  | type :: rest => type.ungranted :: StaticType.ungrantedOf rest

def StaticType.ungrantedBound : Option StaticType → Option StaticType
  | none => none
  | some bound => some bound.ungranted

def FunctionType.ungranted : FunctionType → FunctionType
  | .signature isView typeParameters parameters result =>
    .signature isView (TypeParameter.ungrantedOf typeParameters) (Parameter.ungrantedOf parameters)
      result.ungranted

def TypeParameter.ungrantedOf : List TypeParameter → List TypeParameter
  | [] => []
  | .named name bound :: rest =>
    .named name (StaticType.ungrantedBound bound) :: TypeParameter.ungrantedOf rest

def Parameter.ungrantedOf : List Parameter → List Parameter
  | [] => []
  | .labelled label identifier type :: rest =>
    .labelled label identifier type.ungranted :: Parameter.ungrantedOf rest

end

def Field.ungranted (field : Field) : Field :=
  ⟨field.name, StaticType.ungrantedBound field.type⟩

def Capability.ungranted (held : Capability) : Capability :=
  { held with borrowType := StaticType.ungrantedBound held.borrowType }

mutual

def Value.ungranted : Value → Value
  | .present content => .present content.ungranted
  | .array elements => .array (Value.ungrantedOf elements)
  | .dictionary entries => .dictionary (Value.ungrantedEntries entries)
  | .composite declared fields => .composite declared (Value.ungrantedFields fields)
  | .range start stop step => .range start.ungranted stop.ungranted step.ungranted
  | .capability held => .capability held.ungranted
  | .type known => .type (StaticType.ungrantedBound known)
  | .function signature => .function signature.ungranted
  | .void => .void
  | .nil => .nil
  | .bool b => .bool b
  | .string s => .string s
  | .character s => .character s
  | .bytes content => .bytes content
  | .address owner => .address owner
  | .integer n => .integer n
  | .fixedPoint n => .fixedPoint n
  | .path place => .path place

def Value.ungrantedOf : List Value → List Value
  | [] => []
  | v :: rest => v.ungranted :: Value.ungrantedOf rest

def Value.ungrantedEntries : List (Value × Value) → List (Value × Value)
  | [] => []
  | (key, item) :: rest => (key.ungranted, item.ungranted) :: Value.ungrantedEntries rest

def Value.ungrantedFields : List (Field × Value) → List (Field × Value)
  | [] => []
  | (field, v) :: rest => (field.ungranted, v.ungranted) :: Value.ungrantedFields rest

end

theorem StaticType.function_of_ungranted {type : StaticType} {signature : FunctionType}
    (same : type.ungranted = .function signature) :
    ∃ own, type = .function own ∧ own.ungranted = signature := by
  cases type with
  | function own => exact ⟨own, rfl, StaticType.function.inj same⟩
  | _ => cases same

theorem Value.path_of_ungranted {v : Value} {place : Path} (same : v.ungranted = .path place) :
    v = .path place := by
  cases v with
  | path own => exact same
  | _ => cases same

/-- Two things are alike up to what references entitle to, and the same where that is kept. -/
structure Alike {α : Type} (ungranted : α → α) (kept : Prop) (a b : α) : Prop where
  ungranted : ungranted b = ungranted a
  same : kept → b = a

namespace Alike

variable {α β γ : Type} {f : α → α} {g : β → β} {h : γ → γ} {kept : Prop} {a b : α} {c d : β}

theorem refl (f : α → α) (kept : Prop) (a : α) : Alike f kept a a := ⟨rfl, fun _ => rfl⟩

theorem map (make : α → β) (commutes : ∀ a, g (make a) = make (f a)) (alike : Alike f kept a b) :
    Alike g kept (make a) (make b) where
  ungranted := by rw [commutes, commutes, alike.ungranted]
  same holds := by rw [alike.same holds]

theorem map₂ (make : α → β → γ) (commutes : ∀ a c, h (make a c) = make (f a) (g c))
    (first : Alike f kept a b) (second : Alike g kept c d) :
    Alike h kept (make a c) (make b d) where
  ungranted := by rw [commutes, commutes, first.ungranted, second.ungranted]
  same holds := by rw [first.same holds, second.same holds]

theorem bound_cases {bound bound' : Option StaticType}
    (alike : Alike StaticType.ungrantedBound kept bound bound') :
    bound = none ∧ bound' = none ∨ ∃ type type', bound = some type ∧ bound' = some type' ∧
      Alike StaticType.ungranted kept type type' := by
  obtain ⟨ungranted, same⟩ := alike
  cases bound with
  | none =>
    cases bound' with
    | none => exact .inl ⟨rfl, rfl⟩
    | some type' => cases ungranted
  | some type =>
    cases bound' with
    | none => cases ungranted
    | some type' =>
      exact .inr ⟨type, type', rfl, rfl, Option.some.inj ungranted,
        fun holds => Option.some.inj (same holds)⟩

end Alike

end CadenceWire
