import CadenceWire.Ccf.Value
import CadenceWire.Proofs.Reading

/-!
The procedures by which values are read, and plans: readings whose calls of procedures are left
open. A plan can be run with any answers to its calls, and its calls can be talked about.
-/
namespace CadenceWire.Ccf

open Cbor (Item)

/-- A call of one of the procedures that read values, and types that are values, by what it
returns. -/
inductive Procedure : Type → Type
  | value (type : StaticType) (item : Item) : Procedure Value
  | embedded (item : Item) : Procedure Value
  | composite (declared : NominalType) (item : Item) : Procedure Value
  | simpleValue (type : SimpleType) (item : Item) : Procedure Value
  | functionValue (item : Item) : Procedure Value
  | typeAndValue (item : Item) : Procedure Value
  | inlineType (item : Item) : Procedure StaticType
  | typeValue (item : Item) : Procedure (Option StaticType)
  | requiredType (item : Item) : Procedure StaticType
  | writtenType (kind : DeclarationKind) (item : Item) : Procedure StaticType
  | functionType (item : Item) : Procedure FunctionType

/-- How a run ends, or which call it makes first and how it goes on if that succeeds. -/
inductive Course (α : Type) : Type 1
  | done (outcome : Except Failure (α × Bound))
  | call {γ : Type} (p : Procedure γ) (before : Bound) (next : γ × Bound → Course α)

namespace Course

variable {α β : Type}

def andThen : Course α → (α × Bound → Course β) → Course β
  | done (.ok result), next => next result
  | done (.error failure), _ => done (.error failure)
  | call p before rest, next => call p before fun result => (rest result).andThen next

/-- How the run ends, given how each call does. -/
def run (answer : {γ : Type} → Procedure γ → Reading γ) : Course α → Except Failure (α × Bound)
  | done outcome => outcome
  | call p before next =>
    match answer p before with
    | .ok result => (next result).run answer
    | .error failure => .error failure

/-- How the run ends, if every call that it makes does. -/
def run? (answer? : {γ : Type} → Procedure γ → Bound → Option (Except Failure (γ × Bound))) :
    Course α → Option (Except Failure (α × Bound))
  | done outcome => some outcome
  | call p before next =>
    match answer? p before with
    | some (.ok result) => (next result).run? answer?
    | some (.error failure) => some (.error failure)
    | none => none

/-- Every call has the property, whatever comes of those before it. -/
def CallsOnly (allowed : {γ : Type} → Procedure γ → Prop) : Course α → Prop
  | done _ => True
  | call p _ next => allowed p ∧ ∀ result, (next result).CallsOnly allowed

private theorem andThen_done (course : Course α) :
    course.andThen (fun result => done (.ok result)) = course := by
  induction course with
  | done outcome => cases outcome <;> rfl
  | call p before rest ih => exact congrArg (call p before) (funext ih)

private theorem andThen_assoc {δ : Type} (course : Course α) (next : α × Bound → Course β)
    (last : β × Bound → Course δ) :
    (course.andThen next).andThen last =
      course.andThen fun result => (next result).andThen last := by
  induction course with
  | done outcome => cases outcome <;> rfl
  | call p before rest ih => exact congrArg (call p before) (funext ih)

private theorem run_andThen (answer : {γ : Type} → Procedure γ → Reading γ) (course : Course α)
    (next : α × Bound → Course β) :
    (course.andThen next).run answer =
      course.run answer >>= fun result => (next result).run answer := by
  induction course with
  | done outcome => cases outcome <;> rfl
  | call p before rest ih =>
    simp only [andThen, run]
    cases answer p before with
    | error failure => rfl
    | ok result => exact ih result

theorem CallsOnly.andThen {allowed : {γ : Type} → Procedure γ → Prop} {course : Course α}
    {next : α × Bound → Course β} (head : course.CallsOnly allowed)
    (tail : ∀ result, (next result).CallsOnly allowed) :
    (course.andThen next).CallsOnly allowed := by
  induction course with
  | done outcome =>
    cases outcome with
    | error failure => trivial
    | ok result => exact tail result
  | call p before rest ih => exact ⟨head.1, fun result => ih result (head.2 result)⟩

/-- Where every call ends once it may go deep enough, the run does. -/
theorem run?_eventually {allowed : {γ : Type} → Procedure γ → Prop}
    {answer : {γ : Type} → Procedure γ → Reading γ}
    {answer? : Nat → {γ : Type} → Procedure γ → Bound → Option (Except Failure (γ × Bound))}
    (ends : ∀ {γ : Type} (p : Procedure γ), allowed p → ∀ before, ∃ depth, ∀ more,
      depth ≤ more → answer? more p before = some (answer p before))
    {course : Course α} (only : course.CallsOnly allowed) :
    ∃ depth, ∀ more, depth ≤ more → course.run? (answer? more) = some (course.run answer) := by
  induction course with
  | done outcome => exact ⟨0, fun _ _ => rfl⟩
  | call p before next ih =>
    obtain ⟨depth, ended⟩ := ends p only.1 before
    cases came : answer p before with
    | error failure =>
      refine ⟨depth, fun more deep => ?_⟩
      simp only [run?, run, ended more deep, came]
    | ok result =>
      obtain ⟨later, rest⟩ := ih result (only.2 result)
      refine ⟨max depth later, fun more deep => ?_⟩
      simp only [run?, run, ended more (by omega), came]
      exact rest more (by omega)

end Course

/-- A reading whose calls are left open. -/
def Plan (α : Type) := Bound → Course α

namespace Plan

variable {α β : Type}

instance : Monad Plan where
  pure a := fun before => .done (.ok (a, before))
  bind plan next := fun before => (plan before).andThen fun result => next result.1 result.2

instance : LawfulMonad Plan :=
  .mk' Plan (fun plan => funext fun before => (plan before).andThen_done)
    (fun _ _ => rfl) (fun plan _ _ => funext fun before => (plan before).andThen_assoc _ _)

instance : MonadLift Reading Plan where
  monadLift reading := fun before => .done (reading before)

def stop (failure : Failure) : Plan α := fun _ => .done (.error failure)

def call {γ : Type} (p : Procedure γ) : Plan γ := fun before => .call p before fun result =>
  .done (.ok result)

def run (answer : {γ : Type} → Procedure γ → Reading γ) (plan : Plan α) : Reading α :=
  fun before => (plan before).run answer

def CallsOnly (allowed : {γ : Type} → Procedure γ → Prop) (plan : Plan α) : Prop :=
  ∀ before, (plan before).CallsOnly allowed

/-! Running a plan is running its parts. -/
section run

variable (answer : {γ : Type} → Procedure γ → Reading γ)

@[simp] theorem run_pure (a : α) : (pure a : Plan α).run answer = pure a := rfl

@[simp] theorem run_bind (plan : Plan α) (next : α → Plan β) :
    (plan >>= next).run answer = plan.run answer >>= fun a => (next a).run answer :=
  funext fun before => (plan before).run_andThen answer _

@[simp] theorem run_map (plan : Plan α) (f : α → β) :
    (f <$> plan).run answer = f <$> plan.run answer := by
  simp only [map_eq_pure_bind, run_bind, run_pure]

@[simp] theorem run_stop (failure : Failure) :
    (stop failure : Plan α).run answer = throw failure := rfl

@[simp] theorem run_call {γ : Type} (p : Procedure γ) : (call p).run answer = answer p := by
  funext before
  simp only [run, call, Course.run]
  cases answer p before <;> rfl

@[simp] theorem run_reading (reading : Reading α) :
    (liftM reading : Plan α).run answer = reading := rfl

@[simp] theorem run_step (step : Except Failure α) :
    (liftM step : Plan α).run answer = liftM step := rfl

@[simp] theorem run_modify (f : Bound → Bound) :
    (modify f : Plan PUnit).run answer = modify f := rfl

@[simp] theorem run_mapM (items : List α) (plan : α → Plan β) :
    (items.mapM plan).run answer = items.mapM fun item => (plan item).run answer := by
  induction items with
  | nil => rfl
  | cons item items ih => simp only [List.mapM_cons, run_bind, run_pure, ih]

end run

/-! A plan calls what its parts call. -/
section calls

variable {allowed : {γ : Type} → Procedure γ → Prop}

theorem CallsOnly.pure (a : α) : (Pure.pure a : Plan α).CallsOnly allowed := fun _ => trivial

theorem CallsOnly.stop (failure : Failure) : (Plan.stop failure : Plan α).CallsOnly allowed :=
  fun _ => trivial

theorem CallsOnly.reading (reading : Reading α) : (liftM reading : Plan α).CallsOnly allowed :=
  fun _ => trivial

theorem CallsOnly.lift (step : Except Failure α) : (liftM step : Plan α).CallsOnly allowed :=
  fun _ => trivial

/-- A step that calls nothing is known to have succeeded wherever the plan goes on behind it. -/
theorem CallsOnly.step {step : Except Failure α} {next : α → Plan β}
    (tail : ∀ a, step = .ok a → (next a).CallsOnly allowed) :
    (liftM step >>= next).CallsOnly allowed := by
  cases step with
  | error failure => exact fun _ => trivial
  | ok a => exact tail a rfl

theorem CallsOnly.call {γ : Type} {p : Procedure γ} (holds : allowed p) :
    (Plan.call p).CallsOnly allowed :=
  fun _ => ⟨holds, fun _ => trivial⟩

theorem CallsOnly.bind {plan : Plan α} {next : α → Plan β} (head : plan.CallsOnly allowed)
    (tail : ∀ a, (next a).CallsOnly allowed) : (plan >>= next).CallsOnly allowed :=
  fun before => (head before).andThen fun result => tail result.1 result.2

theorem CallsOnly.map {plan : Plan α} {f : α → β} (only : plan.CallsOnly allowed) :
    (f <$> plan).CallsOnly allowed := by
  rw [map_eq_pure_bind]
  exact only.bind fun a => .pure (f a)

theorem CallsOnly.mapM {items : List α} {plan : α → Plan β}
    (each : ∀ item ∈ items, (plan item).CallsOnly allowed) :
    (items.mapM plan).CallsOnly allowed := by
  induction items with
  | nil => exact .pure []
  | cons item items ih =>
    obtain ⟨head, tail⟩ := List.forall_mem_cons.1 each
    rw [List.mapM_cons]
    exact head.bind fun _ => (ih tail).bind fun _ => .pure _

end calls

end Plan

end CadenceWire.Ccf
