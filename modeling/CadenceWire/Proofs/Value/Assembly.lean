import CadenceWire.Proofs.Value.Congruence

/-!
Values put together from values that are alike are alike, so what does not show in a part does not
show in the whole.
-/
namespace CadenceWire.Value

private theorem toPlain_inj {v w : Value} : v.toPlain = w.toPlain ↔ v.plain = w.plain := by
  rw [toPlain, toPlain]
  constructor
  · intro same
    cases left : v.plain <;> cases right : w.plain <;> rw [left, right] at same <;>
      simp_all [Except.mapError]
  · exact congrArg _

/-- Alike, and given lines of their own as fields or not. -/
structure Interchangeable (v w : Value) : Prop extends v.Alike w where
  isOpened : Outline.isOpened v = Outline.isOpened w

section parts

variable {v w : Value}

theorem Interchangeable.refl (v : Value) : v.Interchangeable v :=
  ⟨⟨rfl, rfl, rfl, rfl, rfl, rfl, fun _ _ _ => rfl, fun _ => rfl⟩, rfl⟩

theorem Interchangeable.plain (alike : v.Interchangeable w) : v.plain = w.plain :=
  toPlain_inj.1 alike.toPlain

/-- What is made of a value is made of its kind, its text, its plain form, the plain forms of its
fields and its outline. -/
theorem Interchangeable.intro (kind : v.kind = w.kind) (text : v.text = w.text)
    (plain : v.plain = w.plain) (events : v.eventFields = w.eventFields)
    (isOpened : Outline.isOpened v = Outline.isOpened w)
    (outline : ∀ limits indent depth, v.outline limits indent depth =
      w.outline limits indent depth) : v.Interchangeable w := by
  have toPlain : v.toPlain = w.toPlain := toPlain_inj.2 plain
  have dictionary : v.plainDictionary = w.plainDictionary := by
    rw [plainDictionary, plainDictionary, kind, toPlain]
  exact {
    kind, text, toPlain, isOpened, outline
    eventFields := events
    textMap := by rw [Value.textMap, Value.textMap, dictionary]
    textListMap := by rw [Value.textListMap, Value.textListMap, dictionary]
    report := fun i => by simp only [Invocation.report, toPlain, events, outline] }

theorem Interchangeable.present (inner : v.Interchangeable w) :
    (present v).Interchangeable (.present w) := by
  refine .intro rfl ?_ ?_ rfl rfl fun limits indent depth => ?_
  · simp only [Value.text, inner.text]
  · simp only [Value.plain, inner.plain]
  · simp only [Value.outline, inner.outline]

end parts

section elements

variable {vs ws : List Value} (each : List.Forall₂ Interchangeable vs ws)

include each

private theorem elementTexts_congr : elementTexts vs = elementTexts ws := by
  induction each with
  | nil => rfl
  | cons first _ ih => simp only [elementTexts, first.text, ih]

private theorem plainElements_congr : plainElements vs = plainElements ws := by
  induction each with
  | nil => rfl
  | cons first _ ih => simp only [plainElements, first.plain, ih]

private theorem outlineElements_congr (limits : OutlineLimits) (indent depth count : Nat) :
    outlineElements limits indent depth count vs =
      outlineElements limits indent depth count ws := by
  induction each generalizing count with
  | nil => rfl
  | cons first _ ih =>
    cases count with
    | zero => simp only [outlineElements]
    | succ count => simp only [outlineElements, first.outline, ih]

theorem interchangeable_array : (array vs).Interchangeable (array ws) := by
  refine .intro rfl ?_ ?_ rfl rfl fun limits indent depth => ?_
  · simp only [text, elementTexts_congr each]
  · simp only [plain, plainElements_congr each]
  · simp only [outline, outlineElements_congr each, each.length_eq]

end elements

section entries

variable {vs ws : List (Value × Value)}
  (each : List.Forall₂ (fun entry entry' => entry.1.Interchangeable entry'.1 ∧
    entry.2.Interchangeable entry'.2) vs ws)

include each

private theorem entryTexts_congr : entryTexts vs = entryTexts ws := by
  induction each with
  | nil => rfl
  | cons first _ ih => simp only [entryTexts, first.1.text, first.2.text, ih]

private theorem plainEntries_congr (taken : List String) :
    plainEntries taken vs = plainEntries taken ws := by
  induction each generalizing taken with
  | nil => rfl
  | cons first _ ih => simp only [plainEntries, first.1.plain, first.2.plain, ih]

private theorem outlineEntries_congr (limits : OutlineLimits) (indent depth count : Nat) :
    outlineEntries limits indent depth count vs = outlineEntries limits indent depth count ws := by
  induction each generalizing count with
  | nil => rfl
  | cons first _ ih =>
    cases count with
    | zero => simp only [outlineEntries]
    | succ count => simp only [outlineEntries, first.1.outline, first.2.outline, ih]

theorem interchangeable_dictionary : (dictionary vs).Interchangeable (dictionary ws) := by
  refine .intro rfl ?_ ?_ rfl rfl fun limits indent depth => ?_
  · simp only [text, entryTexts_congr each]
  · simp only [plain, plainEntries_congr each]
  · simp only [outline, outlineEntries_congr each, each.length_eq]

end entries

section fields

variable {vs ws : List (Field × Value)}
  (each : List.Forall₂ (fun field field' => field.1.name = field'.1.name ∧
    field.2.Interchangeable field'.2) vs ws)

include each

private theorem fieldTexts_congr : fieldTexts vs = fieldTexts ws := by
  induction each with
  | nil => rfl
  | cons first _ ih => simp only [fieldTexts, first.1, first.2.text, ih]

private theorem plainFields_congr : plainFields vs = plainFields ws := by
  induction each with
  | nil => rfl
  | cons first _ ih => simp only [plainFields, first.1, first.2.plain, ih]

private theorem outlineFields_congr (limits : OutlineLimits) (indent depth count : Nat) :
    outlineFields limits indent depth count vs = outlineFields limits indent depth count ws := by
  induction each generalizing count with
  | nil => rfl
  | cons first _ ih =>
    cases count with
    | zero => simp only [outlineFields]
    | succ count => simp only [outlineFields, first.1, first.2.isOpened, first.2.outline, ih]

theorem interchangeable_composite (declared : NominalType) :
    (composite declared vs).Interchangeable (composite declared ws) := by
  have shown : (composite declared vs).text = (composite declared ws).text := by
    simp only [text, fieldTexts_congr each]
  refine .intro rfl shown ?_ ?_ rfl fun limits indent depth => ?_
  · simp only [plain, plainFields_congr each, shown]
  · simp only [eventFields, plainFields_congr each]
  · simp only [outline, outlineFields_congr each, each.length_eq]

end fields

theorem interchangeable_range {start start' stop stop' step step' : Value}
    (first : start.Interchangeable start') (last : stop.Interchangeable stop')
    (difference : step.Interchangeable step') :
    (range start stop step).Interchangeable (range start' stop' step') := by
  have shown : (range start stop step).text = (range start' stop' step').text := by
    simp only [text, first.text, last.text, difference.text]
  refine .intro rfl shown ?_ rfl rfl fun limits indent depth => ?_
  · simp only [plain, shown]
  · simp only [outline, shown, kind]

section types

variable {type type' : Option StaticType}

/-- Of a type that a value holds, only the identifier shows. -/
theorem interchangeable_type (same : type.map StaticType.id = type'.map StaticType.id) :
    (Value.type type).Interchangeable (.type type') := by
  cases type with
  | none =>
    cases type' with
    | none => exact .refl _
    | some known' => cases same
  | some known =>
    cases type' with
    | none => cases same
    | some known' =>
      have same : known.id = known'.id := Option.some.inj same
      refine .intro rfl ?_ ?_ rfl rfl fun limits indent depth => ?_
      · simp only [text, same]
      · simp only [plain, same]
      · simp only [outline, text, same, kind]

theorem interchangeable_function {signature signature' : FunctionType}
    (same : signature.id = signature'.id) :
    (function signature).Interchangeable (function signature') := by
  refine .intro rfl ?_ ?_ rfl rfl fun limits indent depth => ?_
  · simp only [text, same]
  · simp only [plain, same]
  · simp only [outline, text, same, kind]

theorem interchangeable_capability (id : UInt64) (owner : Address) (place : Option Path)
    (same : type.map StaticType.id = type'.map StaticType.id) :
    (capability ⟨id, owner, type, place⟩).Interchangeable
      (capability ⟨id, owner, type', place⟩) := by
  have shown : (capability ⟨id, owner, type, place⟩).text =
      (capability ⟨id, owner, type', place⟩).text := by
    cases type with
    | none =>
      cases type' with
      | none => rfl
      | some known' => cases same
    | some known =>
      cases type' with
      | none => cases same
      | some known' => simp only [text, Capability.text, Option.some.inj same]
  refine .intro rfl shown ?_ rfl rfl fun limits indent depth => ?_
  · simp only [text] at shown
    simp only [plain, shown]
  · simp only [outline, shown, kind]

end types

end CadenceWire.Value
