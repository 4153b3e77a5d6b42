import CadenceWire.Payload
import CadenceWire.Proofs.Value.Every
import CadenceWire.Proofs.Value.Nesting

/-!
Values rewritten from the inside out, at their optionals and at the names of their fields. What does
not show where it is done shows nowhere around it.
-/
namespace CadenceWire

/-- What to put for an optional that is there, whose content has been rewritten, and for a field. -/
structure Rewriting where
  present : Value → Value
  field : Field → Field

mutual

def Value.rewrite (r : Rewriting) : Value → Value
  | .present content => r.present (content.rewrite r)
  | .array elements => .array (Value.rewriteElements r elements)
  | .dictionary entries => .dictionary (Value.rewriteEntries r entries)
  | .composite declared fields => .composite declared (Value.rewriteFields r fields)
  | .range start stop step => .range (start.rewrite r) (stop.rewrite r) (step.rewrite r)
  | .void => .void
  | .nil => .nil
  | .bool b => .bool b
  | .string s => .string s
  | .character s => .character s
  | .bytes content => .bytes content
  | .address owner => .address owner
  | .integer n => .integer n
  | .fixedPoint n => .fixedPoint n
  | .path place => .path place
  | .capability held => .capability held
  | .type known => .type known
  | .function signature => .function signature

def Value.rewriteElements (r : Rewriting) : List Value → List Value
  | [] => []
  | element :: rest => element.rewrite r :: Value.rewriteElements r rest

def Value.rewriteEntries (r : Rewriting) : List (Value × Value) → List (Value × Value)
  | [] => []
  | (key, value) :: rest => (key.rewrite r, value.rewrite r) :: Value.rewriteEntries r rest

def Value.rewriteFields (r : Rewriting) : List (Field × Value) → List (Field × Value)
  | [] => []
  | (field, value) :: rest => (r.field field, value.rewrite r) :: Value.rewriteFields r rest

end

/-- Nothing of the rewriting shows in a text, or in a plain form. -/
structure Rewriting.Silent (r : Rewriting) : Prop where
  text (content : Value) : (r.present content).text = content.text
  plain (content : Value) : (r.present content).plain = content.plain
  name (field : Field) : (r.field field).name = field.name

namespace Value

variable {r : Rewriting}

theorem rewriteElements_eq_map (elements : List Value) :
    rewriteElements r elements = elements.map (rewrite r) := by
  induction elements with
  | nil => rfl
  | cons v elements ih => simp only [rewriteElements, List.map_cons, ih]

theorem rewriteEntries_eq_map (entries : List (Value × Value)) :
    rewriteEntries r entries = entries.map fun (key, v) => (key.rewrite r, v.rewrite r) := by
  induction entries with
  | nil => rfl
  | cons entry entries ih => simp only [rewriteEntries, List.map_cons, ih]

theorem rewriteFields_eq_map (fields : List (Field × Value)) :
    rewriteFields r fields = fields.map fun (field, v) => (r.field field, v.rewrite r) := by
  induction fields with
  | nil => rfl
  | cons field fields ih => simp only [rewriteFields, List.map_cons, ih]

mutual

theorem text_rewrite (silent : r.Silent) (v : Value) : (v.rewrite r).text = v.text := by
  match v with
  | .present content => simp only [rewrite, silent.text, text, text_rewrite silent content]
  | .array elements => simp only [rewrite, text, elementTexts_rewrite silent elements]
  | .dictionary entries => simp only [rewrite, text, entryTexts_rewrite silent entries]
  | .composite declared fields => simp only [rewrite, text, fieldTexts_rewrite silent fields]
  | .range start stop step =>
    simp only [rewrite, text, text_rewrite silent start, text_rewrite silent stop,
      text_rewrite silent step]
  | .void | .nil | .bool _ | .string _ | .character _ | .bytes _ | .address _ | .integer _
  | .fixedPoint _ | .path _ | .capability _ | .type _ | .function _ => simp only [rewrite]

theorem elementTexts_rewrite (silent : r.Silent) (elements : List Value) :
    elementTexts (rewriteElements r elements) = elementTexts elements := by
  match elements with
  | [] => simp only [rewriteElements]
  | element :: rest =>
    simp only [rewriteElements, elementTexts, text_rewrite silent element,
      elementTexts_rewrite silent rest]

theorem entryTexts_rewrite (silent : r.Silent) (entries : List (Value × Value)) :
    entryTexts (rewriteEntries r entries) = entryTexts entries := by
  match entries with
  | [] => simp only [rewriteEntries]
  | (key, value) :: rest =>
    simp only [rewriteEntries, entryTexts, text_rewrite silent key, text_rewrite silent value,
      entryTexts_rewrite silent rest]

theorem fieldTexts_rewrite (silent : r.Silent) (fields : List (Field × Value)) :
    fieldTexts (rewriteFields r fields) = fieldTexts fields := by
  match fields with
  | [] => simp only [rewriteFields]
  | (field, value) :: rest =>
    simp only [rewriteFields, fieldTexts, silent.name, text_rewrite silent value,
      fieldTexts_rewrite silent rest]

end

mutual

/-- Where a value becomes text as a whole, it is its text that counts. -/
theorem plain_rewrite (silent : r.Silent) (v : Value) : (v.rewrite r).plain = v.plain := by
  match v with
  | .present content => simp only [rewrite, silent.plain, plain, plain_rewrite silent content]
  | .array elements => simp only [rewrite, plain, plainElements_rewrite silent elements]
  | .dictionary entries => simp only [rewrite, plain, plainEntries_rewrite silent [] entries]
  | .composite declared fields =>
    have shown := text_rewrite silent (composite declared fields)
    rw [rewrite] at shown ⊢
    simp only [plain, plainFields_rewrite silent fields, shown]
  | .range start stop step =>
    have shown := text_rewrite silent (range start stop step)
    rw [rewrite] at shown ⊢
    simp only [plain, shown]
  | .void | .nil | .bool _ | .string _ | .character _ | .bytes _ | .address _ | .integer _
  | .fixedPoint _ | .path _ | .capability _ | .type _ | .function _ => simp only [rewrite]

theorem plainElements_rewrite (silent : r.Silent) (elements : List Value) :
    plainElements (rewriteElements r elements) = plainElements elements := by
  match elements with
  | [] => simp only [rewriteElements]
  | element :: rest =>
    simp only [rewriteElements, plainElements, plain_rewrite silent element,
      plainElements_rewrite silent rest]

theorem plainEntries_rewrite (silent : r.Silent) (taken : List String)
    (entries : List (Value × Value)) :
    plainEntries taken (rewriteEntries r entries) = plainEntries taken entries := by
  match entries with
  | [] => simp only [rewriteEntries]
  | (key, value) :: rest =>
    simp only [rewriteEntries, plainEntries, plain_rewrite silent key, plain_rewrite silent value,
      fun taken => plainEntries_rewrite silent taken rest]

theorem plainFields_rewrite (silent : r.Silent) (fields : List (Field × Value)) :
    plainFields (rewriteFields r fields) = plainFields fields := by
  match fields with
  | [] => simp only [rewriteFields]
  | (field, value) :: rest =>
    simp only [rewriteFields, plainFields, silent.name, plain_rewrite silent value,
      plainFields_rewrite silent rest]

end

/-- The content of every optional that is there stands in place of it. -/
def unwrapped : Value → Value := rewrite ⟨id, id⟩

private theorem silent_unwrapped : (⟨id, id⟩ : Rewriting).Silent :=
  ⟨fun _ => rfl, fun _ => rfl, fun _ => rfl⟩

private theorem every_unwrapped (v : Value) :
    v.unwrapped.Every fun w => ∀ content, w ≠ present content := by
  unfold unwrapped
  induction v using parts_induction with | whole v ih =>
  cases v with
  | present content =>
    rw [rewrite]
    exact ih content (List.mem_singleton.2 rfl)
  | array elements =>
    rw [rewrite, rewriteElements_eq_map]
    exact ⟨by simp, everyOf_iff.2 (List.forall_mem_map.2 ih)⟩
  | dictionary entries =>
    rw [rewrite, rewriteEntries_eq_map]
    refine ⟨by simp, everyEntry_iff.2 (List.forall_mem_map.2 fun entry member => ?_)⟩
    exact ⟨ih entry.1 (key_mem_parts member), ih entry.2 (item_mem_parts member)⟩
  | composite declared fields =>
    rw [rewrite, rewriteFields_eq_map]
    refine ⟨by simp, everyField_iff.2 (List.forall_mem_map.2 fun field member => ?_)⟩
    exact ih field.2 (List.mem_map_of_mem member)
  | range start stop step =>
    rw [rewrite]
    exact ⟨by simp, ih start (by simp [parts]), ih stop (by simp [parts]), ih step (by simp [parts])⟩
  | _ => simp [rewrite, Every]

/-- Optionals that are there do not show: without them, wherever they are, the value has the same
plain form, or fails to have one for the same key, and the same text. -/
theorem unwrapped_transparent (v : Value) :
    v.unwrapped.toPlain = v.toPlain ∧ v.unwrapped.text = v.text ∧
      v.unwrapped.Every fun w => ∀ content, w ≠ present content := by
  refine ⟨?_, text_rewrite silent_unwrapped v, every_unwrapped v⟩
  rw [toPlain, toPlain, unwrapped, plain_rewrite silent_unwrapped v]

end Value

end CadenceWire
