import CadenceWire.StaticType.Basic

/-!
Properties that a static type has at every depth.
-/
namespace CadenceWire

mutual

/-- The property holds of the type and of every type within it, bounds of type parameters and types
of parameters included. -/
def StaticType.Every (p : StaticType → Prop) : StaticType → Prop
  | .simple type => p (.simple type)
  | .optional content => p (.optional content) ∧ content.Every p
  | .variableArray element => p (.variableArray element) ∧ element.Every p
  | .constantArray size element => p (.constantArray size element) ∧ element.Every p
  | .dictionary key value => p (.dictionary key value) ∧ key.Every p ∧ value.Every p
  | .reference granted referenced => p (.reference granted referenced) ∧ referenced.Every p
  | .intersection types => p (.intersection types) ∧ StaticType.EveryOf p types
  | .restricted base types => p (.restricted base types) ∧ base.Every p ∧ StaticType.EveryOf p types
  | .capability => p .capability
  | .capabilityOf borrowed => p (.capabilityOf borrowed) ∧ borrowed.Every p
  | .inclusiveRange element => p (.inclusiveRange element) ∧ element.Every p
  | .nominal type => p (.nominal type)
  | .function signature => p (.function signature) ∧ signature.Every p
  | .unstructured id => p (.unstructured id)

def StaticType.EveryOf (p : StaticType → Prop) : List StaticType → Prop
  | [] => True
  | type :: rest => type.Every p ∧ StaticType.EveryOf p rest

def StaticType.EveryBound (p : StaticType → Prop) : Option StaticType → Prop
  | none => True
  | some bound => bound.Every p

def FunctionType.Every (p : StaticType → Prop) : FunctionType → Prop
  | .signature _ typeParameters parameters result =>
    TypeParameter.EveryOf p typeParameters ∧ Parameter.EveryOf p parameters ∧ result.Every p

def TypeParameter.EveryOf (p : StaticType → Prop) : List TypeParameter → Prop
  | [] => True
  | .named _ bound :: rest => StaticType.EveryBound p bound ∧ TypeParameter.EveryOf p rest

def Parameter.EveryOf (p : StaticType → Prop) : List Parameter → Prop
  | [] => True
  | .labelled _ _ type :: rest => type.Every p ∧ Parameter.EveryOf p rest

end

section implication

variable {p q : StaticType → Prop}

mutual

theorem StaticType.Every.imp (implied : ∀ type, p type → q type) {type : StaticType}
    (every : type.Every p) : type.Every q := by
  match type with
  | .simple _ | .capability | .nominal _ | .unstructured _ => exact implied _ every
  | .optional _ | .variableArray _ | .constantArray _ _ | .reference _ _ | .capabilityOf _
  | .inclusiveRange _ => exact ⟨implied _ every.1, every.2.imp implied⟩
  | .dictionary _ _ => exact ⟨implied _ every.1, every.2.1.imp implied, every.2.2.imp implied⟩
  | .intersection _ => exact ⟨implied _ every.1, StaticType.EveryOf.imp implied every.2⟩
  | .restricted _ _ =>
    exact ⟨implied _ every.1, every.2.1.imp implied, StaticType.EveryOf.imp implied every.2.2⟩
  | .function _ => exact ⟨implied _ every.1, FunctionType.Every.imp implied every.2⟩

theorem StaticType.EveryOf.imp (implied : ∀ type, p type → q type) {types : List StaticType}
    (every : StaticType.EveryOf p types) : StaticType.EveryOf q types := by
  match types with
  | [] => trivial
  | _ :: _ => exact ⟨every.1.imp implied, StaticType.EveryOf.imp implied every.2⟩

theorem FunctionType.Every.imp (implied : ∀ type, p type → q type) {signature : FunctionType}
    (every : signature.Every p) : signature.Every q := by
  match signature with
  | .signature _ _ _ _ =>
    exact ⟨TypeParameter.EveryOf.imp implied every.1, Parameter.EveryOf.imp implied every.2.1,
      every.2.2.imp implied⟩

theorem TypeParameter.EveryOf.imp (implied : ∀ type, p type → q type) {types : List TypeParameter}
    (every : TypeParameter.EveryOf p types) : TypeParameter.EveryOf q types := by
  match types with
  | [] => trivial
  | .named _ none :: _ => exact ⟨trivial, TypeParameter.EveryOf.imp implied every.2⟩
  | .named _ (some _) :: _ =>
    exact ⟨StaticType.Every.imp implied every.1, TypeParameter.EveryOf.imp implied every.2⟩

theorem Parameter.EveryOf.imp (implied : ∀ type, p type → q type) {types : List Parameter}
    (every : Parameter.EveryOf p types) : Parameter.EveryOf q types := by
  match types with
  | [] => trivial
  | .labelled _ _ _ :: _ => exact ⟨every.1.imp implied, Parameter.EveryOf.imp implied every.2⟩

end

theorem StaticType.EveryBound.imp (implied : ∀ type, p type → q type) {bound : Option StaticType}
    (every : StaticType.EveryBound p bound) : StaticType.EveryBound q bound := by
  cases bound with
  | none => trivial
  | some type => exact StaticType.Every.imp implied every

end implication

/-- More is known of a type than an identifier. -/
def StaticType.HasForm : StaticType → Prop
  | .unstructured _ => False
  | _ => True

/-- No type within the type is known by its identifier alone. -/
abbrev StaticType.Structured (type : StaticType) : Prop := type.Every HasForm

abbrev FunctionType.Structured (signature : FunctionType) : Prop :=
  signature.Every StaticType.HasForm

end CadenceWire
