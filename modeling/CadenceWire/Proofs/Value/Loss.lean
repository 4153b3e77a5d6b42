import CadenceWire.Proofs.Value.Rewrite

/-!
What encodings lose of a value. None of it shows in the text of the value, or in its plain form.
-/
namespace CadenceWire

/-- What an encoding loses of the values it carries. -/
structure Loss where
  /-- The types of the fields of composites. -/
  fieldTypes : Bool
  /-- How many optionals are there around one that is not. -/
  nesting : Bool

namespace Loss

def ofTrees : Loss := ⟨true, false⟩

/-- Items write an optional as null if it is not there or if what it holds is null. -/
def ofItems : Loss := ⟨false, true⟩

def field (loss : Loss) (field : Field) : Field :=
  ⟨field.name, if loss.fieldTypes then none else field.type⟩

def present (loss : Loss) : Value → Value
  | .nil => if loss.nesting then .nil else .present .nil
  | content => .present content

end Loss

mutual

/-- What is left of a value. -/
def Value.erase (loss : Loss) : Value → Value
  | .present content => loss.present (content.erase loss)
  | .array elements => .array (Value.eraseElements loss elements)
  | .dictionary entries => .dictionary (Value.eraseEntries loss entries)
  | .composite declared fields => .composite declared (Value.eraseFields loss fields)
  | .range start stop step => .range (start.erase loss) (stop.erase loss) (step.erase loss)
  | .void => .void
  | .nil => .nil
  | .bool b => .bool b
  | .string s => .string s
  | .character s => .character s
  | .bytes content => .bytes content
  | .address owner => .address owner
  | .integer n => .integer n
  | .fixedPoint n => .fixedPoint n
  | .path place => .path place
  | .capability held => .capability held
  | .type known => .type known
  | .function signature => .function signature

def Value.eraseElements (loss : Loss) : List Value → List Value
  | [] => []
  | element :: rest => element.erase loss :: Value.eraseElements loss rest

def Value.eraseEntries (loss : Loss) : List (Value × Value) → List (Value × Value)
  | [] => []
  | (key, value) :: rest => (key.erase loss, value.erase loss) :: Value.eraseEntries loss rest

def Value.eraseFields (loss : Loss) : List (Field × Value) → List (Field × Value)
  | [] => []
  | (field, value) :: rest => (loss.field field, value.erase loss) :: Value.eraseFields loss rest

end

variable {loss : Loss}

namespace Loss

private theorem present_cases (content : Value) :
    loss.present content = .nil ∧ content = .nil ∨ loss.present content = .present content := by
  cases content with
  | nil =>
    by_cases nesting : loss.nesting = true
    · exact .inl ⟨if_pos nesting, rfl⟩
    · exact .inr (if_neg nesting)
  | _ => exact .inr rfl

theorem present_ofTrees (content : Value) : ofTrees.present content = .present content := by
  cases content <;> rfl

private theorem text_present (loss : Loss) (content : Value) :
    (loss.present content).text = content.text := by
  rcases loss.present_cases content with ⟨same, rfl⟩ | same
  · rw [same]
  · rw [same, Value.text]

private theorem plain_present (loss : Loss) (content : Value) :
    (loss.present content).plain = content.plain := by
  rcases loss.present_cases content with ⟨same, rfl⟩ | same
  · rw [same]
  · rw [same, Value.plain]

private theorem kind_present (content : Value) : (loss.present content).kind = .optional := by
  rcases loss.present_cases content with ⟨same, -⟩ | same <;> rw [same] <;> rfl

/-- Losses are taken from the inside out. -/
def rewriting (loss : Loss) : Rewriting := ⟨loss.present, loss.field⟩

theorem silent (loss : Loss) : loss.rewriting.Silent :=
  ⟨loss.text_present, loss.plain_present, fun _ => rfl⟩

end Loss

namespace Value

theorem eraseElements_eq_map (elements : List Value) :
    eraseElements loss elements = elements.map (erase loss) := by
  induction elements with
  | nil => rfl
  | cons v elements ih => simp only [eraseElements, List.map_cons, ih]

theorem eraseEntries_eq_map (entries : List (Value × Value)) :
    eraseEntries loss entries = entries.map fun (key, v) => (key.erase loss, v.erase loss) := by
  induction entries with
  | nil => rfl
  | cons entry entries ih => simp only [eraseEntries, List.map_cons, ih]

theorem eraseFields_eq_map (fields : List (Field × Value)) :
    eraseFields loss fields = fields.map fun (field, v) => (loss.field field, v.erase loss) := by
  induction fields with
  | nil => rfl
  | cons field fields ih => simp only [eraseFields, List.map_cons, ih]

theorem kind_erase (v : Value) : (v.erase loss).kind = v.kind := by
  cases v with
  | present content => rw [erase, Loss.kind_present, kind]
  | _ => simp only [erase, kind]

theorem erase_eq_rewrite (v : Value) : v.erase loss = v.rewrite loss.rewriting := by
  induction v using parts_induction with | whole v ih =>
  cases v with
  | present content =>
    rw [erase, rewrite, ih content (List.mem_singleton.2 rfl)]
    rfl
  | array elements =>
    rw [erase, rewrite, eraseElements_eq_map, rewriteElements_eq_map]
    exact congrArg array (List.map_congr_left ih)
  | dictionary entries =>
    rw [erase, rewrite, eraseEntries_eq_map, rewriteEntries_eq_map]
    refine congrArg dictionary (List.map_congr_left fun entry member => ?_)
    exact Prod.ext (ih entry.1 (key_mem_parts member)) (ih entry.2 (item_mem_parts member))
  | composite declared fields =>
    rw [erase, rewrite, eraseFields_eq_map, rewriteFields_eq_map]
    refine congrArg (composite declared) (List.map_congr_left fun field member => ?_)
    exact Prod.ext rfl (ih field.2 (List.mem_map_of_mem member))
  | range start stop step =>
    rw [erase, rewrite, ih start (by simp [parts]), ih stop (by simp [parts]),
      ih step (by simp [parts])]
  | _ => simp only [erase, rewrite]

private theorem eraseFields_eq_rewrite (fields : List (Field × Value)) :
    eraseFields loss fields = rewriteFields loss.rewriting fields := by
  rw [eraseFields_eq_map, rewriteFields_eq_map]
  exact List.map_congr_left fun field _ => Prod.ext rfl (erase_eq_rewrite field.2)

theorem toPlain_erase (v : Value) : (v.erase loss).toPlain = v.toPlain := by
  rw [toPlain, toPlain, erase_eq_rewrite, plain_rewrite loss.silent]

theorem eventFields_erase (v : Value) : (v.erase loss).eventFields = v.eventFields := by
  cases v with
  | composite declared fields =>
    rw [erase, eventFields, eventFields, eraseFields_eq_rewrite, plainFields_rewrite loss.silent]
  | present content =>
    rw [erase]
    rcases loss.present_cases (content.erase loss) with ⟨same, -⟩ | same <;> rw [same] <;> rfl
  | _ => simp only [erase, eventFields, kind]

end Value

end CadenceWire
