import CadenceWire.Proofs.Ccf.Occurrence
import CadenceWire.Proofs.Ccf.Procedure

/-!
Reading of values ends. Every call that a procedure makes is of an item within its own, or else of
the same item with less of its type or by a procedure further down.
-/
namespace CadenceWire

/-- The types that a type is put together from. -/
def StaticType.immediate : StaticType → List StaticType
  | .optional part | .variableArray part | .constantArray _ part | .reference _ part
  | .capabilityOf part | .inclusiveRange part => [part]
  | .dictionary key value => [key, value]
  | .intersection types => types
  | .restricted base types => base :: types
  | .simple _ | .capability | .nominal _ | .function _ | .unstructured _ => []

theorem StaticType.sizeOf_lt_of_mem_immediate {part whole : StaticType}
    (member : part ∈ whole.immediate) : sizeOf part < sizeOf whole := by
  cases whole with
  | simple | capability | nominal | function | unstructured => cases member
  | intersection types =>
    have smaller := List.sizeOf_lt_of_mem (show part ∈ types from member)
    simp only [intersection.sizeOf_spec]
    omega
  | restricted base types =>
    simp only [restricted.sizeOf_spec]
    rcases List.mem_cons.1 member with rfl | listed
    · omega
    · have smaller := List.sizeOf_lt_of_mem listed
      omega
  | dictionary key value =>
    simp only [dictionary.sizeOf_spec]
    rcases List.mem_pair.1 member with rfl | rfl <;> omega
  | constantArray | reference =>
    obtain rfl := List.mem_singleton.1 member
    simp only [constantArray.sizeOf_spec, reference.sizeOf_spec]
    omega
  | _ =>
    obtain rfl := List.mem_singleton.1 member
    simp

namespace Ccf

open Cbor (Item)

/-- The item is within the other, at any depth. -/
def Enclosed : Item → Item → Prop := Relation.TransGen fun part whole => part ∈ immediate whole

theorem Enclosed.sizeOf_lt {part whole : Item} (inside : Enclosed part whole) :
    sizeOf part < sizeOf whole := by
  induction inside with
  | single member => exact sizeOf_lt_of_mem_immediate member
  | tail _ member ih => exact Nat.lt_trans ih (sizeOf_lt_of_mem_immediate member)

private theorem enclosed_array {part : Item} {items : List Item} (member : part ∈ items) :
    Enclosed part (.array items) :=
  .single member

private theorem enclosed_tag (number : Nat) (body : Item) : Enclosed body (.tag number body) :=
  .single (List.mem_singleton_self body)

namespace Procedure

variable {γ δ : Type}

@[simp] def item : Procedure γ → Item
  | value _ item | embedded item | composite _ item | simpleValue _ item | functionValue item
  | typeAndValue item | inlineType item | typeValue item | requiredType item | writtenType _ item
  | functionType item => item

/-- A procedure hands its own item on only to such as are further down. -/
@[simp] def level : Procedure γ → Nat
  | value _ _ => 3
  | embedded _ | composite _ _ | simpleValue _ _ => 2
  | functionValue _ | requiredType _ => 1
  | typeAndValue _ | inlineType _ | typeValue _ | writtenType _ _ | functionType _ => 0

noncomputable def typeSize : Procedure γ → Nat
  | value type _ => sizeOf type
  | _ => 0

/-- The one call is of less than the other. -/
inductive Descends : {γ δ : Type} → Procedure γ → Procedure δ → Prop
  | item {γ δ : Type} {callee : Procedure γ} {caller : Procedure δ}
      (inside : Enclosed callee.item caller.item) : Descends callee caller
  | type {inner outer : StaticType} (part : inner ∈ outer.immediate) (item : Item) :
      Descends (.value inner item) (.value outer item)
  | level {γ δ : Type} {callee : Procedure γ} {caller : Procedure δ}
      (same : callee.item = caller.item) (lower : callee.level < caller.level) :
      Descends callee caller

private theorem wellFounded_descends :
    WellFounded fun callee caller : (γ : Type) × Procedure γ => callee.2.Descends caller.2 := by
  let measure (call : (γ : Type) × Procedure γ) : Nat × Nat × Nat :=
    (sizeOf call.2.item, call.2.level, call.2.typeSize)
  have lexicographic : WellFounded (Prod.Lex (· < ·) (Prod.Lex (· < · : Nat → Nat → Prop)
      (· < · : Nat → Nat → Prop)) : Nat × Nat × Nat → Nat × Nat × Nat → Prop) :=
    WellFoundedRelation.wf
  refine Subrelation.wf ?_ (InvImage.wf measure lexicographic)
  rintro ⟨γ, callee⟩ ⟨δ, caller⟩ descends
  dsimp only at descends
  cases descends with
  | item inside => exact .left _ _ inside.sizeOf_lt
  | type part item => exact .right _ (.right _ (StaticType.sizeOf_lt_of_mem_immediate part))
  | level same lower =>
    change Prod.Lex _ _ (sizeOf callee.item, _) (sizeOf caller.item, _)
    rw [same]
    exact .right _ (.left _ _ lower)

end Procedure

/-! Every procedure calls only what is of less. -/
section calls

variable {γ δ : Type} {definitions : Definitions} {callee : Procedure γ} {caller : Procedure δ}

private theorem calls_enclosed (inside : Enclosed callee.item caller.item) :
    (Plan.call callee).CallsOnly (·.Descends caller) :=
  .call (.item inside)

private theorem calls_part {items : List Item} (member : callee.item ∈ items)
    (inside : Enclosed (.array items) caller.item) :
    (Plan.call callee).CallsOnly (·.Descends caller) :=
  calls_enclosed ((enclosed_array member).trans inside)

/-- A call of something in a row of the rows that an item lists. -/
theorem calls_row {row rows items : List Item} (inside : callee.item ∈ row)
    (member : .array row ∈ rows) (listed : .array rows ∈ items)
    (whole : caller.item = .array items) : (Plan.call callee).CallsOnly (·.Descends caller) := by
  refine calls_enclosed ?_
  rw [whole]
  exact .trans (enclosed_array inside) (.trans (enclosed_array member) (enclosed_array listed))

private theorem calls_lower (same : callee.item = caller.item)
    (lower : callee.level < caller.level) : (Plan.call callee).CallsOnly (·.Descends caller) :=
  .call (.level same lower)

private theorem mem_of_mem_pairsOf {items : List Item} {pair : Item × Item}
    (member : pair ∈ pairsOf items) : pair.1 ∈ items ∧ pair.2 ∈ items := by
  fun_induction pairsOf items with
  | case1 key item rest ih =>
    rcases List.mem_cons.1 member with rfl | inside
    · simp
    · obtain ⟨first, second⟩ := ih inside
      simp [first, second]
  | case2 => cases member

private theorem calls_value (type : StaticType) (item : Item) :
    (Plan.value item type).CallsOnly (·.Descends (.value type item)) := by
  have embedded : (Plan.call (.embedded item)).CallsOnly (·.Descends (.value type item)) :=
    calls_lower rfl (by simp)
  have listed {element : StaticType} {items : List Item} {context : String}
      (read : array context item = .ok items) {part : Item} (member : part ∈ items) :
      (Plan.call (.value element part)).CallsOnly (·.Descends (.value type item)) := by
    obtain rfl := array_eq_ok.1 read
    exact calls_enclosed (enclosed_array member)
  unfold Plan.value
  cases type with
  | simple type =>
    dsimp only
    split
    next => exact embedded
    next => exact calls_lower rfl (by simp)
  | optional content =>
    dsimp only
    split
    next => exact .pure _
    next => exact .map (.call (.type (List.mem_singleton_self _) item))
  | reference granted referenced => exact .call (.type (List.mem_singleton_self _) item)
  | variableArray element =>
    refine .step fun items read => ?_
    exact .map (.mapM fun part member => listed read member)
  | constantArray size element =>
    refine .step fun items read => ?_
    split
    next => exact .map (.mapM fun part member => listed read member)
    next => exact .stop _
  | dictionary key element =>
    refine .step fun items read => ?_
    split
    next =>
      refine .map (.mapM fun pair member => ?_)
      obtain ⟨first, second⟩ := mem_of_mem_pairsOf member
      exact .bind (listed read first) fun _ => .bind (listed read second) fun _ => .pure _
    next => exact .stop _
  | intersection | restricted => exact embedded
  | capability | capabilityOf => exact .lift _
  | inclusiveRange element =>
    dsimp only
    split
    next =>
      refine .bind (calls_enclosed (enclosed_array (by simp))) fun start => ?_
      refine .bind (calls_enclosed (enclosed_array (by simp))) fun stop => ?_
      exact .bind (calls_enclosed (enclosed_array (by simp))) fun step => .pure _
    next => exact .stop _
  | nominal declared =>
    dsimp only
    split
    next => exact embedded
    next => exact calls_lower rfl (by simp)
  | function => exact calls_lower rfl (by simp)
  | unstructured => exact .stop _

private theorem calls_embedded (item : Item) :
    (Plan.embedded item).CallsOnly (·.Descends (.embedded item)) := by
  unfold Plan.embedded
  split
  next body => exact calls_enclosed (enclosed_tag _ _)
  next => exact .stop _
  next => exact .stop _

private theorem calls_composite (declared : NominalType) (item : Item) :
    (Plan.composite definitions declared item).CallsOnly
      (·.Descends (.composite declared item)) := by
  unfold Plan.composite
  split
  next => exact .stop _
  next layout _ =>
    split
    next items =>
      split
      next =>
        refine .map (.mapM fun part member => ?_)
        have listed := (List.of_mem_zip member).2
        exact .bind (calls_enclosed (enclosed_array listed)) fun _ => .pure _
      next => exact .stop _
    next => exact .stop _

private theorem calls_simpleValue (type : SimpleType) (item : Item) :
    (Plan.simpleValue item type).CallsOnly (·.Descends (.simpleValue type item)) := by
  unfold Plan.simpleValue
  split
  next => exact .map (calls_lower rfl (by simp))
  next => exact calls_lower rfl (by simp)
  next => exact .reading _

private theorem calls_functionValue (item : Item) :
    (Plan.functionValue item).CallsOnly (·.Descends (.functionValue item)) := by
  unfold Plan.functionValue
  split
  next body => exact .map (calls_enclosed (enclosed_tag _ _))
  next => exact .map (calls_lower rfl (by simp))

private theorem calls_typeAndValue (item : Item) :
    (Plan.typeAndValue item).CallsOnly (·.Descends (.typeAndValue item)) := by
  unfold Plan.typeAndValue
  split
  next type item =>
    refine .bind (calls_enclosed (enclosed_array (by simp))) fun known => ?_
    exact calls_enclosed (enclosed_array (by simp))
  next => exact .stop _

private theorem calls_inlineType (item : Item) :
    (Plan.inlineType definitions.table item).CallsOnly (·.Descends (.inlineType item)) := by
  unfold Plan.inlineType
  split
  next number body =>
    have outer : Enclosed body (.tag number body) := enclosed_tag number body
    split
    next =>
      refine .step fun id _ => ?_
      split
      next => exact .pure _
      next => exact .stop _
    next => exact .map (.lift _)
    next => exact .map (calls_enclosed outer)
    next => exact .map (calls_enclosed outer)
    next =>
      split
      next => exact .step fun _ _ => .bind (calls_part (by simp) outer) fun _ => .pure _
      next => exact .stop _
    next =>
      split
      next =>
        refine .bind (calls_part (by simp) outer) fun key => ?_
        exact .bind (calls_part (by simp) outer) fun value => .pure _
      next => exact .stop _
    next =>
      split
      next => exact .step fun _ _ => .bind (calls_part (by simp) outer) fun _ => .pure _
      next => exact .stop _
    next =>
      split
      next types =>
        have listed : Item.array types ∈ [.null, .array types] := by simp
        have inner := (enclosed_array listed).trans outer
        exact .map (.mapM fun part member => calls_part member inner)
      next base types _ =>
        have listed : Item.array types ∈ [base, .array types] := by simp
        have inner := (enclosed_array listed).trans outer
        refine .bind (.mapM fun part member => calls_part member inner) fun _ => ?_
        exact .bind (calls_part (by simp) outer) fun _ => .pure _
      next => exact .map (.mapM fun part member => calls_part member outer)
      next => exact .stop _
    next =>
      split
      next => exact .pure _
      next => exact .map (calls_enclosed outer)
    next => exact .map (calls_enclosed outer)
    next => exact .stop _
  next => exact .stop _

private theorem calls_typeValue (item : Item) :
    (Plan.typeValue item).CallsOnly (·.Descends (.typeValue item)) := by
  unfold Plan.typeValue
  split
  next => exact .pure _
  next number body =>
    have outer : Enclosed body (.tag number body) := enclosed_tag number body
    refine .map ?_
    split
    next => exact .reading _
    next => exact .map (.lift _)
    next => exact .map (calls_enclosed outer)
    next => exact .map (calls_enclosed outer)
    next =>
      split
      next => exact .step fun _ _ => .bind (calls_part (by simp) outer) fun _ => .pure _
      next => exact .stop _
    next =>
      split
      next =>
        refine .bind (calls_part (by simp) outer) fun key => ?_
        exact .bind (calls_part (by simp) outer) fun value => .pure _
      next => exact .stop _
    next =>
      split
      next => exact .step fun _ _ => .bind (calls_part (by simp) outer) fun _ => .pure _
      next => exact .stop _
    next =>
      split
      next types =>
        have listed : Item.array types ∈ [.null, .array types] := by simp
        have inner := (enclosed_array listed).trans outer
        exact .map (.mapM fun part member => calls_part member inner)
      next base types _ =>
        have listed : Item.array types ∈ [base, .array types] := by simp
        have inner := (enclosed_array listed).trans outer
        refine .bind (calls_part (by simp) outer) fun _ => ?_
        exact .bind (.mapM fun part member => calls_part member inner) fun _ => .pure _
      next => exact .map (.mapM fun part member => calls_part member outer)
      next => exact .stop _
    next =>
      refine .bind (calls_enclosed outer) fun known => ?_
      cases known with
      | none => exact .pure _
      | some borrowed => exact .pure _
    next => exact .map (calls_enclosed outer)
    next =>
      split
      next => exact .map (calls_enclosed outer)
      next =>
        split
        next => exact .stop _
        next => exact calls_enclosed outer
  next => exact .stop _

private theorem calls_requiredType (item : Item) :
    (Plan.requiredType item).CallsOnly (·.Descends (.requiredType item)) := by
  refine .bind (calls_lower rfl (by simp)) fun known => ?_
  cases known with
  | none => exact .stop _
  | some type => exact .pure _

private theorem calls_writtenType (kind : DeclarationKind) (item : Item) :
    (Plan.writtenType kind item).CallsOnly (·.Descends (.writtenType kind item)) := by
  unfold Plan.writtenType
  split
  next id name _ fields _ =>
    refine .step fun id _ => .step fun name _ => .bind (fun _ => trivial) fun _ => ?_
    refine .step fun items read => .bind (.mapM fun field member => ?_) fun _ => .pure _
    obtain rfl := array_eq_ok.1 read
    unfold Plan.writtenField
    split
    next =>
      exact .step fun _ _ => .bind (calls_row (by simp) member (by simp) rfl) fun _ => .pure _
    next => exact .stop _
  next => exact .stop _

private theorem calls_functionType (item : Item) :
    (Plan.functionType item).CallsOnly (·.Descends (.functionType item)) := by
  unfold Plan.functionType
  split
  next typeParameters parameters result purity =>
    split
    next => exact .stop _
    next =>
      refine .step fun first read => .bind (.mapM fun part member => ?_) fun _ => ?_
      · obtain rfl := array_eq_ok.1 read
        unfold Plan.typeParameter
        split
        next =>
          exact .step fun _ _ => .bind (calls_row (by simp) member (by simp) rfl) fun _ => .pure _
        next => exact .stop _
      refine .step fun second read => .bind (.mapM fun part member => ?_) fun _ => ?_
      · obtain rfl := array_eq_ok.1 read
        unfold Plan.parameter
        split
        next =>
          refine .step fun _ _ => .step fun _ _ => ?_
          exact .bind (calls_row (by simp) member (by simp) rfl) fun _ => .pure _
        next => exact .stop _
      refine .step fun view _ => .bind ?_ fun _ => .pure _
      exact calls_enclosed (enclosed_array (by simp))
  next => exact .stop _
  next => exact .stop _

private theorem calls_descend (p : Procedure γ) :
    (Plan.of definitions p).CallsOnly (·.Descends p) := by
  cases p with
  | value type item => exact calls_value type item
  | embedded item => exact calls_embedded item
  | composite declared item => exact calls_composite declared item
  | simpleValue type item => exact calls_simpleValue type item
  | functionValue item => exact calls_functionValue item
  | typeAndValue item => exact calls_typeAndValue item
  | inlineType item => exact calls_inlineType item
  | typeValue item => exact calls_typeValue item
  | requiredType item => exact calls_requiredType item
  | writtenType kind item => exact calls_writtenType kind item
  | functionType item => exact calls_functionType item

end calls

/-- Runs the procedure with its calls nested only so deep, if that will do. -/
def attempt (definitions : Definitions) :
    Nat → {γ : Type} → Procedure γ → Bound → Option (Except Failure (γ × Bound))
  | 0, _, _, _ => none
  | depth + 1, _, p, before => (Plan.of definitions p before).run? (attempt definitions depth)

/-- Reading ends, whatever a message defines. A procedure calls only what is of less than its own
call, in which there is no way down without an end; so from any state it ends, at some depth of
calls, just as the reader does. -/
theorem reading_ends (definitions : Definitions) :
    (∀ {γ : Type} (p : Procedure γ), (Plan.of definitions p).CallsOnly (·.Descends p)) ∧
    (WellFounded fun callee caller : (γ : Type) × Procedure γ => callee.2.Descends caller.2) ∧
    ∀ {γ : Type} (p : Procedure γ) (before : Bound), ∃ depth, ∀ more,
      attempt definitions (depth + more) p before = some (reader definitions p before) := by
  refine ⟨calls_descend, Procedure.wellFounded_descends, fun {γ} p => ?_⟩
  suffices ∀ call : (γ : Type) × Procedure γ, ∀ before, ∃ depth, ∀ more, depth ≤ more →
      attempt definitions more call.2 before = some (reader definitions call.2 before) by
    intro before
    obtain ⟨depth, ended⟩ := this ⟨γ, p⟩ before
    exact ⟨depth, fun more => ended _ (Nat.le_add_right depth more)⟩
  intro call
  induction call using Procedure.wellFounded_descends.induction with
  | _ call ih =>
  obtain ⟨δ, p⟩ := call
  intro before
  have calls : (Plan.of definitions p).CallsOnly (·.Descends p) := calls_descend p
  obtain ⟨depth, ended⟩ := Course.run?_eventually (fun q less => ih ⟨_, q⟩ less) (calls before)
  refine ⟨depth + 1, fun more deep => ?_⟩
  obtain ⟨more, rfl⟩ := Nat.exists_eq_add_of_le' deep
  rw [← run_of p]
  exact ended (more + depth) (Nat.le_add_left depth more)

end Ccf

end CadenceWire
