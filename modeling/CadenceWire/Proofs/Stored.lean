import CadenceWire.JsonCdc.Value
import CadenceWire.Proofs.Ccf.ValueItem
import CadenceWire.Proofs.JsonCdc.Part
import CadenceWire.Proofs.Text.Literal

/-!
Values as they are kept apart. A composite is a layout, which all composites of a type may share,
and a list of values without names; a number is a sign and a magnitude. Readers that put values
together of such parts, and refuse parts that do not fit, read the same.
-/
namespace CadenceWire

section numbers

/-- The sign and the magnitude of the number. Zero has no minus. -/
def Integer.signMagnitude (n : Integer) : SignMagnitude := ⟨n.value < 0, n.value.natAbs⟩

theorem SignMagnitude.natAbs_toInt (s : SignMagnitude) : s.toInt.natAbs = s.magnitude := by
  unfold toInt
  split
  next => omega
  next => omega

theorem SignMagnitude.toInt_neg_iff {s : SignMagnitude} :
    s.toInt < 0 ↔ s.negative = true ∧ s.magnitude ≠ 0 := by
  unfold toInt
  split
  next minus => exact ⟨fun less => ⟨minus, by omega⟩, fun ⟨_, nonzero⟩ => by omega⟩
  next plus => exact iff_of_false (by omega) fun less => plus less.1

theorem SignMagnitude.normal_eq (s : SignMagnitude) : s.normal = ⟨s.toInt < 0, s.toInt.natAbs⟩ := by
  have sign : (s.negative && s.magnitude != 0) = decide (s.toInt < 0) := by
    rw [Bool.eq_iff_iff, decide_eq_true_iff, toInt_neg_iff, Bool.and_eq_true, bne_iff_ne]
  rw [natAbs_toInt, ← sign]
  rfl

theorem Integer.natAbs_lt (n : Integer) : n.value.natAbs < Width.w256.count := by
  have widest : ∀ w : Width, w.count ≤ Width.w256.count := by
    intro w
    cases w <;> decide
  obtain ⟨low, high⟩ := n.holds
  cases kind : n.kind with
  | int | uint =>
    simp only [kind, IntegerKind.min, IntegerKind.max] at low high
    omega
  | intOf w | uintOf w | wordOf w =>
    have wide := widest w
    have half := w.half_lt_count
    simp only [kind, IntegerKind.min, IntegerKind.max] at low high
    omega

/-- A number read as a sign and a magnitude of 256 bits. -/
def JsonCdc.bigInteger (options : JsonCdc.Options) (kind : String) (json : Json) :
    Except JsonCdc.Failure SignMagnitude := do
  let literal ← JsonCdc.numberText options kind json
  match Decimal.signed? literal.toList with
  | some s =>
    if s.magnitude < Width.w256.count then return s.normal
    else throw (.invalidNumber kind literal)
  | none => throw (.invalidNumber kind literal)

/-- A number read as a sign and a magnitude of 256 bits. One that counts down from -1 may have one
bit too many. -/
def Ccf.bigInteger (kind : String) : Cbor.Item → Except Ccf.Failure SignMagnitude
  | .integer n => return (SignMagnitude.mk (n < 0) n.natAbs).normal
  | .tag 2 content => return (SignMagnitude.mk false (← Ccf.magnitude kind content)).normal
  | .tag 3 content => do
    let n ← Ccf.magnitude kind content
    if n + 1 < Width.w256.count then return (SignMagnitude.mk true (n + 1)).normal
    else throw (.integerOutOfRange kind)
  | item => .error (Ccf.misfit "integer" kind item)

theorem JsonCdc.bigInteger_of_integer {options : JsonCdc.Options} {kind : IntegerKind} {json : Json}
    {n : Integer} (accepted : JsonCdc.integer options kind json = .ok n) :
    JsonCdc.bigInteger options kind.name json = .ok n.signMagnitude := by
  obtain ⟨literal, text, read⟩ := bind_eq_ok.1 accepted
  refine bind_eq_ok.2 ⟨literal, text, ?_⟩
  split at read
  next known found =>
    obtain rfl : known = n := pure_eq_ok.1 read
    obtain ⟨s, signed, found⟩ := Option.bind_eq_some_iff.1 found
    split at found
    next => cases found
    next =>
      obtain ⟨-, same⟩ := Integer.ofInt?_eq_some_iff.1 found
      have small : s.magnitude < Width.w256.count := by
        have abs := known.natAbs_lt
        rwa [same, s.natAbs_toInt] at abs
      rw [signed]
      simp only [if_pos small, s.normal_eq, Integer.signMagnitude, same]
      rfl
  next => exact absurd read throw_ne_ok

theorem Ccf.bigInteger_of_integer {kind : IntegerKind} {item : Cbor.Item} {n : Integer}
    (accepted : Ccf.integer kind item = .ok n) :
    Ccf.bigInteger kind.name item = .ok n.signMagnitude := by
  obtain ⟨rfl, written⟩ := Ccf.integer_eq_ok.1 accepted
  have abs := n.natAbs_lt
  unfold Integer.signMagnitude
  generalize n.value = value at written abs
  cases written with
  | integer =>
    simp only [Ccf.bigInteger, SignMagnitude.normal_eq, SignMagnitude.toInt_natAbs]
    rfl
  | counting content short =>
    have read : Ccf.magnitude n.kind.name (.bytes content) = .ok (Cbor.denoted content) :=
      Ccf.magnitude_eq_ok.2 ⟨content, rfl, short, rfl⟩
    simp only [Ccf.bigInteger, read, SignMagnitude.normal_eq]
    rfl
  | countingDown content short =>
    have read : Ccf.magnitude n.kind.name (.bytes content) = .ok (Cbor.denoted content) :=
      Ccf.magnitude_eq_ok.2 ⟨content, rfl, short, rfl⟩
    have small : Cbor.denoted content + 1 < Width.w256.count := by omega
    have down : SignMagnitude.toInt ⟨true, Cbor.denoted content + 1⟩ =
        -1 - (Cbor.denoted content : Int) := by
      simp only [SignMagnitude.toInt, if_true]
      omega
    simp only [Ccf.bigInteger, read, bind, Except.bind, if_pos small, SignMagnitude.normal_eq, down]
    rfl

end numbers

namespace Value

/-- The composite of a layout and of values in its order, if there is one value for each field. -/
def composite? (type : NominalType) (layout : List Field) (values : List Value) : Option Value :=
  if layout.length = values.length then some (.composite type (layout.zip values)) else none

/-- The values under the names that the layout has in their places. -/
def namedValues (layout : List Field) (values : List Value) : List (String × Value) :=
  values.zipIdx.filterMap fun stored => layout[stored.2]?.map fun field => (field.name, stored.1)

private theorem filterMap_zipIdx (front layout : List Field) (values : List Value)
    (fit : layout.length = values.length) :
    (values.zipIdx front.length).filterMap
        (fun stored => (front ++ layout)[stored.2]?.map fun field => (field.name, stored.1)) =
      (layout.map (·.name)).zip values := by
  induction values generalizing front layout with
  | nil =>
    obtain rfl := List.eq_nil_of_length_eq_zero fit
    rfl
  | cons v values ih =>
    cases layout with
    | nil => cases fit
    | cons field layout =>
      have here : (front ++ field :: layout)[front.length]? = some field := by simp
      have rest := ih (front ++ [field]) layout (by simpa using fit)
      rw [List.append_assoc, List.singleton_append, List.length_append] at rest
      simp only [List.zipIdx_cons, List.filterMap_cons, here, Option.map_some, List.map_cons,
        List.zip_cons_cons]
      exact congrArg _ rest

/-- Where the values fit the layout, each is named once, by the field of its place. -/
theorem namedValues_eq_zip {layout : List Field} {values : List Value}
    (fit : layout.length = values.length) :
    namedValues layout values = (layout.map (·.name)).zip values :=
  filterMap_zipIdx [] layout values fit

/-- The composite is that of its layout and its values, and it names each of them once. -/
theorem composite?_unzip (type : NominalType) (fields : List (Field × Value)) :
    composite? type (fields.map Prod.fst) (fields.map Prod.snd) =
      some (.composite type fields) := by
  rw [composite?, if_pos (by simp), List.zip_map', List.map_id'']
  simp

theorem namedValues_unzip (fields : List (Field × Value)) :
    namedValues (fields.map Prod.fst) (fields.map Prod.snd) =
      fields.map fun field => (field.1.name, field.2) := by
  rw [namedValues_eq_zip (by simp), List.map_map, List.zip_map']
  rfl

end Value

namespace JsonCdc

variable (options : Options)

/-- Fields with their names and their values apart. -/
def storedFields : List Json → Reading (List Field × List Value)
  | [] => return ([], [])
  | item :: rest => do
    let ⟨members, _⟩ ← object "composite field" item
    let name ← textMember members "name" "composite field"
    let v ← memberValue options members "value" "composite field"
    let (layout, values) ← storedFields rest
    return (⟨name, none⟩ :: layout, v :: values)

/-- A composite put together of a layout and of values, of which there has to be one for each
field. -/
def storedComposite (kind : DeclarationKind) (json : Json) : Reading Value := do
  let ⟨members, _⟩ ← object kind.name json
  let id ← textMember members "id" kind.name
  let ⟨list, _⟩ ← member members "fields" kind.name
  let ⟨items, _⟩ ← array "composite fields" list
  let (layout, values) ← storedFields options items
  match Value.composite? ⟨kind, id⟩ layout values with
  | some v => return v
  | none => throw (.unexpectedShape "one value per field" "composite")

private theorem storedFields_eq (items : List Json) :
    storedFields options items =
      (fun fields => (fields.map Prod.fst, fields.map Prod.snd)) <$> fields options items := by
  induction items with
  | nil =>
    rw [fields.eq_def]
    rfl
  | cons item items ih =>
    rw [storedFields, fields.eq_def, ih]
    simp only [map_bind, map_pure, bind_map_left, List.map_cons]

theorem composite_eq_stored (kind : DeclarationKind) (json : Json) :
    composite options kind json = storedComposite options kind json := by
  rw [composite.eq_def, storedComposite]
  refine bind_congr fun members => bind_congr fun id => bind_congr fun list => ?_
  refine bind_congr fun ⟨items, smaller⟩ => ?_
  dsimp only
  rw [storedFields_eq, bind_map_left]
  refine bind_congr fun fields => ?_
  rw [Value.composite?_unzip]

end JsonCdc

namespace Ccf

open Cbor (Item)

variable (definitions : Definitions)

/-- The layout as composites keep it, where a field may be without a type. -/
def Layout.stored (layout : Layout) : List Field :=
  layout.fields.map fun (name, type) => ⟨name, some type⟩

/-- The values of fields. A field without a type has none. -/
def storedFields (id : String) : List Field → List Item → Reading (List Value)
  | field :: layout, item :: rest => do
    match field.type with
    | none => throw (.unsupportedType id)
    | some type =>
      let first ← value definitions type item
      return first :: (← storedFields id layout rest)
  | _, _ => return []

/-- A composite put together of its layout and of values, of which there has to be one for each
field. -/
def storedComposite (declared : NominalType) (item : Item) : Reading Value :=
  match definitions.layout? declared.id with
  | none => throw (.missingLayout declared.id)
  | some layout =>
    match item with
    | .array items =>
      if items.length = layout.stored.length then do
        let values ← storedFields definitions declared.id layout.stored items
        match Value.composite? layout.type layout.stored values with
        | some v => return v
        | none => throw (.arityMismatch "composite value" "one value per field" values.length)
      else throw (miscount layout.stored.length "composite value" item)
    | _ => throw (misfit "array" "composite value" item)

private theorem storedFields_eq (id : String) (layout : List (String × StaticType))
    (items : List Item) :
    storedFields definitions id (layout.map fun (name, type) => ⟨name, some type⟩) items =
      (List.map Prod.snd) <$> fields definitions layout items := by
  induction layout generalizing items with
  | nil =>
    rw [fields.eq_def]
    cases items <;> rfl
  | cons field layout ih =>
    cases items with
    | nil =>
      rw [fields.eq_def]
      rfl
    | cons item items =>
      rw [fields.eq_def, List.map_cons, storedFields]
      simp only [ih, map_bind, map_pure, bind_map_left, List.map_cons]

/-- Fields are read under the names and the types of the layout. -/
theorem fields_ensure {layout : List (String × StaticType)} {items : List Item}
    (fit : items.length = layout.length) :
    Ensures (fun _ => True)
      (fun parts => parts.map Prod.fst = layout.map fun (name, type) => ⟨name, some type⟩)
      (fields definitions layout items) := by
  induction items generalizing layout with
  | nil =>
    obtain rfl := List.eq_nil_of_length_eq_zero fit.symm
    exact .pure rfl
  | cons item items ih =>
    cases layout with
    | nil => cases fit
    | cons field layout =>
      rw [fields.eq_def]
      refine (Ensures.any _).bind fun first _ => ?_
      exact (ih (by simpa using fit)).bind fun rest names => .pure (congrArg _ names)

theorem value_nominal {declared : NominalType} (concrete : declared.kind.isInterface = false)
    (item : Item) :
    value definitions (.nominal declared) item = storedComposite definitions declared item := by
  rw [value.eq_def]
  simp only [throughLayers, isOpen, concrete, storedComposite]
  cases definitions.layout? declared.id with
  | none => rfl
  | some layout =>
    cases item with
    | array items =>
      have count : layout.stored.length = layout.fields.length := List.length_map _
      dsimp only
      rw [count]
      by_cases fit : items.length = layout.fields.length
      · simp only [if_pos fit, Layout.stored, storedFields_eq, bind_map_left]
        rw [if_neg (by simp), map_eq_pure_bind]
        refine (fields_ensure definitions fit).bind_congr fun parts names => ?_
        rw [← names, Value.composite?_unzip]
      · simp only [if_neg fit]
        rfl
    | _ => rfl

end Ccf

end CadenceWire
