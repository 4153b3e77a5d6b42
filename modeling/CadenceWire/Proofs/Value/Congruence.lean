import CadenceWire.Program
import CadenceWire.Proofs.JsonCdc.WrittenTree
import CadenceWire.Proofs.Value.Loss
import CadenceWire.Value.Equality

/-!
Equality of values. Two values are equal if they are the same once the types of fields are
forgotten, so equality is an equivalence, and nothing that is made of a value tells it from an equal
one.
-/
namespace CadenceWire

theorem Invocation.result_of_decode {i : Invocation} (plain : i.hex = false) {payload : List UInt8}
    {v : Value} (read : i.format.decode i.options payload = .ok v) :
    i.result (.ok payload) = i.report v := by
  simp only [result, Invocation.payload, plain, Bool.false_eq_true, if_false, Except.mapError, bind,
    Except.bind, read]

namespace Value

section erasure

variable {vs : List Value} {entries : List (Value × Value)} {fields : List (Field × Value)}

private theorem sameElements_iff
    (each : ∀ v ∈ vs, ∀ w : Value, v.same w = true ↔ v.erase .ofTrees = w.erase .ofTrees)
    (ws : List Value) :
    sameElements vs ws = true ↔ eraseElements .ofTrees vs = eraseElements .ofTrees ws := by
  induction vs generalizing ws with
  | nil => cases ws <;> simp [sameElements, eraseElements]
  | cons v vs ih =>
    obtain ⟨first, others⟩ := List.forall_mem_cons.1 each
    cases ws with
    | nil => simp [sameElements, eraseElements]
    | cons w ws =>
      simp only [sameElements, eraseElements, Bool.and_eq_true, List.cons.injEq, first, ih others]

private theorem sameEntries_iff
    (each : ∀ entry ∈ entries, ∀ w : Value,
      (entry.1.same w = true ↔ entry.1.erase .ofTrees = w.erase .ofTrees) ∧
        (entry.2.same w = true ↔ entry.2.erase .ofTrees = w.erase .ofTrees))
    (others : List (Value × Value)) :
    sameEntries entries others = true ↔
      eraseEntries .ofTrees entries = eraseEntries .ofTrees others := by
  induction entries generalizing others with
  | nil => cases others <;> simp [sameEntries, eraseEntries]
  | cons entry entries ih =>
    obtain ⟨key, v⟩ := entry
    obtain ⟨first, rest⟩ := List.forall_mem_cons.1 each
    cases others with
    | nil => simp [sameEntries, eraseEntries]
    | cons other others =>
      obtain ⟨key', w⟩ := other
      simp only [sameEntries, eraseEntries, Bool.and_eq_true, List.cons.injEq, Prod.mk.injEq,
        (first key').1, (first w).2, ih rest]

private theorem sameFields_iff
    (each : ∀ field ∈ fields, ∀ w : Value,
      field.2.same w = true ↔ field.2.erase .ofTrees = w.erase .ofTrees)
    (others : List (Field × Value)) :
    sameFields fields others = true ↔
      eraseFields .ofTrees fields = eraseFields .ofTrees others := by
  induction fields generalizing others with
  | nil => cases others <;> simp [sameFields, eraseFields]
  | cons field fields ih =>
    obtain ⟨field, v⟩ := field
    obtain ⟨first, rest⟩ := List.forall_mem_cons.1 each
    cases others with
    | nil => simp [sameFields, eraseFields]
    | cons other others =>
      obtain ⟨field', w⟩ := other
      have named : Loss.ofTrees.field field = Loss.ofTrees.field field' ↔
          field.name = field'.name := by
        simp [Loss.field, Loss.ofTrees]
      simp only [sameFields, eraseFields, Bool.and_eq_true, decide_eq_true_eq, List.cons.injEq,
        Prod.mk.injEq, named, first, ih rest]

/-- Equality forgets what trees do not tell. -/
theorem same_iff_erase (v w : Value) :
    v.same w = true ↔ v.erase .ofTrees = w.erase .ofTrees := by
  induction v using parts_induction generalizing w with | whole v ih =>
  cases v with
  | present content =>
    have inner := ih content (List.mem_singleton.2 rfl)
    cases w <;> simp [same, erase, Loss.present_ofTrees, inner]
  | array elements =>
    have inner (ws : List Value) : sameElements elements ws = true ↔
        eraseElements .ofTrees elements = eraseElements .ofTrees ws := sameElements_iff ih ws
    cases w <;> simp [same, erase, Loss.present_ofTrees, inner]
  | dictionary entries =>
    have inner := sameEntries_iff fun entry member w =>
      ⟨ih entry.1 (key_mem_parts member) w, ih entry.2 (item_mem_parts member) w⟩
    cases w <;> simp [same, erase, Loss.present_ofTrees, inner]
  | composite declared fields =>
    have inner := sameFields_iff fun field member => ih field.2 (List.mem_map_of_mem member)
    cases w <;> simp [same, erase, Loss.present_ofTrees, inner]
  | range start stop step =>
    have first := ih start (by simp [parts])
    have last := ih stop (by simp [parts])
    have difference := ih step (by simp [parts])
    cases w <;> simp [same, erase, Loss.present_ofTrees, first, last, difference, and_assoc]
  | _ => cases w <;> simp [same, erase, Loss.present_ofTrees]

end erasure

private theorem text_erase {loss : Loss} (v : Value) : (v.erase loss).text = v.text := by
  rw [erase_eq_rewrite, text_rewrite loss.silent]

private theorem isOpened_erase (v : Value) :
    Outline.isOpened (v.erase .ofTrees) = Outline.isOpened v := by
  cases v with
  | present content => rw [erase, Loss.present_ofTrees, Outline.isOpened, Outline.isOpened]
  | _ => rfl

section outline

variable (limits : OutlineLimits)

mutual

/-- The types of fields are in none of the lines. -/
theorem outline_erase (indent depth : Nat) (v : Value) :
    (v.erase .ofTrees).outline limits indent depth = v.outline limits indent depth := by
  match v with
  | .present content =>
    rw [erase, Loss.present_ofTrees, outline, outline, outline_erase _ _ content]
  | .array elements =>
    have count : (eraseElements .ofTrees elements).length = elements.length := by
      rw [eraseElements_eq_map, List.length_map]
    simp only [erase, outline, count, outlineElements_erase]
  | .dictionary entries =>
    have count : (eraseEntries .ofTrees entries).length = entries.length := by
      rw [eraseEntries_eq_map, List.length_map]
    simp only [erase, outline, count, outlineEntries_erase]
  | .composite declared fields =>
    have count : (eraseFields .ofTrees fields).length = fields.length := by
      rw [eraseFields_eq_map, List.length_map]
    simp only [erase, outline, count, outlineFields_erase]
  | .range start stop step =>
    have shown : ((range start stop step).erase .ofTrees).text = (range start stop step).text :=
      text_erase _
    rw [erase] at shown ⊢
    simp only [outline, shown, kind]
  | .void | .nil | .bool _ | .string _ | .character _ | .bytes _ | .address _ | .integer _
  | .fixedPoint _ | .path _ | .capability _ | .type _ | .function _ => rw [erase]

theorem outlineElements_erase (indent depth count : Nat) (elements : List Value) :
    outlineElements limits indent depth count (eraseElements .ofTrees elements) =
      outlineElements limits indent depth count elements := by
  match count, elements with
  | 0, elements => simp only [outlineElements]
  | _ + 1, [] => rw [eraseElements]
  | count + 1, element :: rest =>
    simp only [eraseElements, outlineElements, outline_erase _ _ element,
      outlineElements_erase _ _ count rest]

theorem outlineEntries_erase (indent depth count : Nat) (entries : List (Value × Value)) :
    outlineEntries limits indent depth count (eraseEntries .ofTrees entries) =
      outlineEntries limits indent depth count entries := by
  match count, entries with
  | 0, entries => simp only [outlineEntries]
  | _ + 1, [] => rw [eraseEntries]
  | count + 1, (key, item) :: rest =>
    simp only [eraseEntries, outlineEntries, outline_erase _ _ key, outline_erase _ _ item,
      outlineEntries_erase _ _ count rest]

theorem outlineFields_erase (indent depth count : Nat) (fields : List (Field × Value)) :
    outlineFields limits indent depth count (eraseFields .ofTrees fields) =
      outlineFields limits indent depth count fields := by
  match count, fields with
  | 0, fields => simp only [outlineFields]
  | _ + 1, [] => rw [eraseFields]
  | count + 1, (field, v) :: rest =>
    simp only [eraseFields, outlineFields, isOpened_erase, Loss.field, outline_erase _ _ v,
      outlineFields_erase _ _ count rest]

end

end outline

/-- Nothing that is made of values tells the two apart. -/
structure Alike (v w : Value) : Prop where
  kind : v.kind = w.kind
  text : v.text = w.text
  toPlain : v.toPlain = w.toPlain
  eventFields : v.eventFields = w.eventFields
  textMap : v.textMap = w.textMap
  textListMap : v.textListMap = w.textListMap
  outline : ∀ limits indent depth, v.outline limits indent depth = w.outline limits indent depth
  report : ∀ i : Invocation, i.report v = i.report w

private theorem alike_erase (v : Value) : (v.erase .ofTrees).Alike v := by
  have kind : (v.erase .ofTrees).kind = v.kind := kind_erase v
  have plain : (v.erase .ofTrees).toPlain = v.toPlain := toPlain_erase v
  have events : (v.erase .ofTrees).eventFields = v.eventFields := eventFields_erase v
  have dictionary : (v.erase .ofTrees).plainDictionary = v.plainDictionary := by
    rw [plainDictionary, plainDictionary, kind, plain]
  have outline := fun limits indent depth => outline_erase limits indent depth v
  exact {
    kind, outline
    text := text_erase v
    toPlain := plain
    eventFields := events
    textMap := by rw [Value.textMap, Value.textMap, dictionary]
    textListMap := by rw [Value.textListMap, Value.textListMap, dictionary]
    report := fun i => by simp only [Invocation.report, plain, events, outline] }

private theorem alike_of_same {v w : Value} (same : v.same w = true) : v.Alike w := by
  have left : (v.erase .ofTrees).Alike v := alike_erase v
  have right : (w.erase .ofTrees).Alike w := alike_erase w
  rw [← (same_iff_erase v w).1 same] at right
  exact {
    kind := left.kind.symm.trans right.kind
    text := left.text.symm.trans right.text
    toPlain := left.toPlain.symm.trans right.toPlain
    eventFields := left.eventFields.symm.trans right.eventFields
    textMap := left.textMap.symm.trans right.textMap
    textListMap := left.textListMap.symm.trans right.textListMap
    outline := fun limits indent depth =>
      (left.outline limits indent depth).symm.trans (right.outline limits indent depth)
    report := fun i => (left.report i).symm.trans (right.report i) }

/-- Equality of values is an equivalence, which forgets the types of fields and nothing else. Equal
values are alike in all that is made of values, so it cannot be told which of the formats a value
was read from. -/
theorem same_indistinguishable :
    (Equivalence fun v w : Value => v.same w = true) ∧
      (∀ v w : Value, v.same w = true ↔ v.erase .ofTrees = w.erase .ofTrees) ∧
      (∀ v w : Value, v.same w = true → v.Alike w) ∧
      ∀ (i : Invocation) text bytes v w, i.hex = false →
        JsonCdc.decode i.options text = .ok v → Ccf.decode bytes = .ok w → v.same w = true →
        { i with format := .json }.run (.ok text) = { i with format := .ccf }.run (.ok bytes) := by
  refine ⟨?_, same_iff_erase, fun v w => alike_of_same, ?_⟩
  · simp only [same_iff_erase]
    exact InvImage.equivalence Eq (erase .ofTrees) eq_equivalence
  · intro i text bytes v w plain left right same
    have report := (alike_of_same same).report i
    have fromText : { i with format := .json }.result (.ok text) = i.report v :=
      Invocation.result_of_decode (i := { i with format := .json }) plain (mapError_eq_ok.2 left)
    have fromBytes : { i with format := .ccf }.result (.ok bytes) = i.report w :=
      Invocation.result_of_decode (i := { i with format := .ccf }) plain (mapError_eq_ok.2 right)
    rw [Invocation.run, Invocation.run, fromText, fromBytes, report]

/-- A composite of one field, of which only the message gives the type. -/
theorem same_indistinguishable_composite :
    let whole (type : Option StaticType) : Value :=
      .composite ⟨.struct, "S.A"⟩ [(⟨"a", type⟩, .integer ⟨.int, 0, by decide⟩)]
    let typed : Option StaticType := some (.simple (.integer .int))
    let i : Invocation := ⟨.value, false, .auto, true, false⟩
    let text := Utf8.encode ("\x7b\"type\":\"Struct\",\"value\":\x7b\"id\":\"S.A\"," ++
      "\"fields\":[\x7b\"name\":\"a\",\"value\":\x7b\"type\":\"Int\",\"value\":\"0\"\x7d\x7d]" ++
      "\x7d\x7d")
    let bytes : List UInt8 := [0xd8, 0x81, 0x82, 0x81, 0xd8, 0xa0, 0x83, 0x41, 0x01, 0x63, 0x53,
      0x2e, 0x41, 0x81, 0x82, 0x61, 0x61, 0xd8, 0x89, 0x04, 0x82, 0xd8, 0x88, 0x41, 0x01, 0x81,
      0x00]
    JsonCdc.decode .strict text = .ok (whole none) ∧ Ccf.decode bytes = .ok (whole typed) ∧
      (whole none).same (whole typed) = true ∧ whole none ≠ whole typed ∧
      (whole none).Alike (whole typed) ∧
      { i with format := .json }.run (.ok text) = { i with format := .ccf }.run (.ok bytes) := by
  intro whole typed i text bytes
  obtain ⟨-, -, alike, run⟩ := same_indistinguishable
  have read : JsonCdc.decode .strict text = .ok (whole none) := by
    have zero : JsonCdc.PayloadTree false [] (.integer ⟨.int, 0, by decide⟩) (.string "0") [] :=
      .integer _
    let field : Json.Members := [("name", .string "a"),
      ("value", JsonCdc.valueObject (.integer ⟨.int, 0, by decide⟩) (.string "0"))]
    have part : JsonCdc.PartTrees false [] [(⟨"a", none⟩, .integer ⟨.int, 0, by decide⟩)]
      [.object field] [] := .cons rfl rfl zero.valued .nil
    let members : Json.Members := [("id", .string "S.A"), ("fields", .array [.object field])]
    have tree : JsonCdc.PayloadTree false [] (whole none) (.object members) [] :=
      .composite rfl rfl rfl part
    refine JsonCdc.decode_of_valueTree (by decide) tree.valued ?_
    rw [Json.ofBytes?, Utf8.decode?_encode]
    rfl
  have message : Ccf.decode bytes = .ok (whole typed) := rfl
  have same : (whole none).same (whole typed) = true := (same_iff_erase _ _).2 rfl
  have differ : whole none ≠ whole typed := by simp [whole, typed]
  have printed := run i text bytes _ _ rfl read message same
  exact ⟨read, message, same, differ, alike _ _ same, printed⟩

end Value

end CadenceWire
