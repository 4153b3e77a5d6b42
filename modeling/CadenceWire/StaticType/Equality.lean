import CadenceWire.StaticType.Basic

/-!
Equality of static types is decidable: a test by recursion on both types, and the proof that it
answers yes for equal types only.
-/
namespace CadenceWire

mutual

def StaticType.same : StaticType → StaticType → Bool
  | .simple s, .simple t => s = t
  | .optional s, .optional t => s.same t
  | .variableArray s, .variableArray t => s.same t
  | .constantArray m s, .constantArray n t => m = n && s.same t
  | .dictionary k s, .dictionary l t => k.same l && s.same t
  | .reference a s, .reference b t => a = b && s.same t
  | .intersection ss, .intersection ts => StaticType.sameList ss ts
  | .restricted s ss, .restricted t ts => s.same t && StaticType.sameList ss ts
  | .capability, .capability => true
  | .capabilityOf s, .capabilityOf t => s.same t
  | .inclusiveRange s, .inclusiveRange t => s.same t
  | .nominal s, .nominal t => s = t
  | .function s, .function t => s.same t
  | .unstructured s, .unstructured t => s = t
  | _, _ => false

def StaticType.sameList : List StaticType → List StaticType → Bool
  | [], [] => true
  | s :: ss, t :: ts => s.same t && StaticType.sameList ss ts
  | _, _ => false

def StaticType.sameBound : Option StaticType → Option StaticType → Bool
  | none, none => true
  | some s, some t => s.same t
  | _, _ => false

def FunctionType.same : FunctionType → FunctionType → Bool
  | .signature v ps xs s, .signature w qs ys t =>
    v = w && TypeParameter.sameList ps qs && Parameter.sameList xs ys && s.same t

def TypeParameter.sameList : List TypeParameter → List TypeParameter → Bool
  | [], [] => true
  | .named m s :: ps, .named n t :: qs =>
    m = n && StaticType.sameBound s t && TypeParameter.sameList ps qs
  | _, _ => false

def Parameter.sameList : List Parameter → List Parameter → Bool
  | [], [] => true
  | .labelled l i s :: ps, .labelled m j t :: qs =>
    l = m && i = j && s.same t && Parameter.sameList ps qs
  | _, _ => false

end

mutual

theorem StaticType.same_self : ∀ t : StaticType, t.same t = true
  | .simple _ | .nominal _ | .unstructured _ | .capability => by simp [StaticType.same]
  | .optional t | .variableArray t | .capabilityOf t | .inclusiveRange t | .constantArray _ t
  | .reference _ t => by simp [StaticType.same, t.same_self]
  | .dictionary k t => by simp [StaticType.same, k.same_self, t.same_self]
  | .intersection ts => by simp [StaticType.same, StaticType.sameList_self ts]
  | .restricted t ts => by simp [StaticType.same, t.same_self, StaticType.sameList_self ts]
  | .function f => by simp [StaticType.same, f.same_self]

theorem StaticType.sameList_self : ∀ ts : List StaticType, StaticType.sameList ts ts = true
  | [] => by simp [StaticType.sameList]
  | t :: ts => by simp [StaticType.sameList, t.same_self, StaticType.sameList_self ts]

theorem StaticType.sameBound_self : ∀ b : Option StaticType, StaticType.sameBound b b = true
  | none => by simp [StaticType.sameBound]
  | some t => by simp [StaticType.sameBound, t.same_self]

theorem FunctionType.same_self : ∀ f : FunctionType, f.same f = true
  | .signature _ ps xs t => by
    simp [FunctionType.same, TypeParameter.sameList_self ps, Parameter.sameList_self xs,
      t.same_self]

theorem TypeParameter.sameList_self : ∀ ps : List TypeParameter,
    TypeParameter.sameList ps ps = true
  | [] => by simp [TypeParameter.sameList]
  | .named _ b :: ps => by
    simp [TypeParameter.sameList, StaticType.sameBound_self b, TypeParameter.sameList_self ps]

theorem Parameter.sameList_self : ∀ ps : List Parameter, Parameter.sameList ps ps = true
  | [] => by simp [Parameter.sameList]
  | .labelled _ _ t :: ps => by
    simp [Parameter.sameList, t.same_self, Parameter.sameList_self ps]

end

mutual

theorem StaticType.eq_of_same : ∀ {s t : StaticType}, s.same t = true → s = t
  | s, t, h => by
    cases s <;> cases t <;> simp only [StaticType.same, Bool.and_eq_true, decide_eq_true_eq,
      Bool.false_eq_true] at h
    case simple.simple => rw [h]
    case optional.optional => rw [StaticType.eq_of_same h]
    case variableArray.variableArray => rw [StaticType.eq_of_same h]
    case constantArray.constantArray => rw [h.1, StaticType.eq_of_same h.2]
    case dictionary.dictionary => rw [StaticType.eq_of_same h.1, StaticType.eq_of_same h.2]
    case reference.reference => rw [h.1, StaticType.eq_of_same h.2]
    case intersection.intersection => rw [StaticType.eq_of_sameList h]
    case restricted.restricted => rw [StaticType.eq_of_same h.1, StaticType.eq_of_sameList h.2]
    case capability.capability => rfl
    case capabilityOf.capabilityOf => rw [StaticType.eq_of_same h]
    case inclusiveRange.inclusiveRange => rw [StaticType.eq_of_same h]
    case nominal.nominal => rw [h]
    case function.function => rw [FunctionType.eq_of_same h]
    case unstructured.unstructured => rw [h]

theorem StaticType.eq_of_sameList : ∀ {ss ts : List StaticType},
    StaticType.sameList ss ts = true → ss = ts
  | [], [], _ => rfl
  | [], _ :: _, h | _ :: _, [], h => by simp [StaticType.sameList] at h
  | _ :: _, _ :: _, h => by
    simp only [StaticType.sameList, Bool.and_eq_true] at h
    rw [StaticType.eq_of_same h.1, StaticType.eq_of_sameList h.2]

theorem StaticType.eq_of_sameBound : ∀ {s t : Option StaticType},
    StaticType.sameBound s t = true → s = t
  | none, none, _ => rfl
  | none, some _, h | some _, none, h => by simp [StaticType.sameBound] at h
  | some _, some _, h =>
    congrArg some (StaticType.eq_of_same (by simpa only [StaticType.sameBound] using h))

theorem FunctionType.eq_of_same : ∀ {f g : FunctionType}, f.same g = true → f = g
  | .signature .., .signature .., h => by
    simp only [FunctionType.same, Bool.and_eq_true, decide_eq_true_eq] at h
    rw [h.1.1.1, TypeParameter.eq_of_sameList h.1.1.2, Parameter.eq_of_sameList h.1.2,
      StaticType.eq_of_same h.2]

theorem TypeParameter.eq_of_sameList : ∀ {ps qs : List TypeParameter},
    TypeParameter.sameList ps qs = true → ps = qs
  | [], [], _ => rfl
  | [], _ :: _, h | _ :: _, [], h => by simp [TypeParameter.sameList] at h
  | .named .. :: _, .named .. :: _, h => by
    simp only [TypeParameter.sameList, Bool.and_eq_true, decide_eq_true_eq] at h
    rw [h.1.1, StaticType.eq_of_sameBound h.1.2, TypeParameter.eq_of_sameList h.2]

theorem Parameter.eq_of_sameList : ∀ {ps qs : List Parameter},
    Parameter.sameList ps qs = true → ps = qs
  | [], [], _ => rfl
  | [], _ :: _, h | _ :: _, [], h => by simp [Parameter.sameList] at h
  | .labelled .. :: _, .labelled .. :: _, h => by
    simp only [Parameter.sameList, Bool.and_eq_true, decide_eq_true_eq] at h
    rw [h.1.1.1, h.1.1.2, StaticType.eq_of_same h.1.2, Parameter.eq_of_sameList h.2]

end

theorem StaticType.same_eq_true_iff {s t : StaticType} : s.same t = true ↔ s = t :=
  ⟨StaticType.eq_of_same, fun h => h ▸ s.same_self⟩

theorem FunctionType.same_eq_true_iff {f g : FunctionType} : f.same g = true ↔ f = g :=
  ⟨FunctionType.eq_of_same, fun h => h ▸ f.same_self⟩

instance : DecidableEq StaticType := fun _ _ => decidable_of_iff _ StaticType.same_eq_true_iff

instance : DecidableEq FunctionType := fun _ _ => decidable_of_iff _ FunctionType.same_eq_true_iff

end CadenceWire
