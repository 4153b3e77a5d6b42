import CadenceWire.Proofs.Ccf.Passage
import CadenceWire.Proofs.Ccf.Payload

/-!
References to types written out before. What a reference is looked up in are the types written out
before it in the message, except for those that were passed over.
-/
namespace CadenceWire.Ccf

open Cbor (Item)
open JsonCdc (Threads)

/-- The type that was last given the identifier. -/
def latest? (id : List UInt8) (occurrences : List Occurrence) : Option NominalType :=
  (occurrences.map fun occurrence => (occurrence.id, occurrence.type)).reverse.lookup id

section bound

variable {definitions : Definitions} {before after : Bound} {task : Task} {tasks : List Task}

private theorem boundOf_append (first second : List Occurrence) :
    boundOf (first ++ second) = boundOf second ++ boundOf first := by
  simp only [boundOf, outside, List.filter_append, List.map_append, List.reverse_append]

private theorem lookup_boundOf (id : List UInt8) (occurrences : List Occurrence) :
    (boundOf occurrences).lookup id = latest? id (outside occurrences) := rfl

private theorem bound_of_threads
    (each : ∀ task ∈ tasks, ∀ before after, Passes definitions task before after →
      after = boundOf (occurrences definitions task) ++ before)
    (passed : Threads (Passes definitions) tasks before after) :
    after = boundOf (tasks.flatMap (occurrences definitions)) ++ before := by
  induction passed with
  | nil => rfl
  | cons head _ ih =>
    obtain ⟨here, others⟩ := List.forall_mem_cons.1 each
    rw [ih others, here _ _ head, List.flatMap_cons, boundOf_append, List.append_assoc]

/-- A task binds the types that are written out within it, and no others. -/
theorem Passes.bound (passed : Passes definitions task before after) :
    after = boundOf (occurrences definitions task) ++ before := by
  induction task using occurrences.induct definitions generalizing before after with
  | _ task ih =>
    have parts := bound_of_threads (fun part member _ _ => ih part member) passed.parts
    rw [occurrences_eq, boundOf_append, List.append_assoc]
    exact parts

private theorem threads_bound (passed : Threads (Passes definitions) tasks before after) :
    after = boundOf (tasks.flatMap (occurrences definitions)) ++ before :=
  bound_of_threads (fun _ _ _ _ => Passes.bound) passed

end bound

section reached

variable {item : Item} {definitions : Definitions} {earlier : List Occurrence} {bound : Bound}
  {task : Task}

/-- Reading the message comes to the task. The occurrences are written out before it, and by then
the identifiers have been given. -/
inductive Reached (item : Item) (definitions : Definitions) :
    List Occurrence → Bound → Task → Prop
  | root {type : StaticType} {third : Item} (opens : Opens item definitions type third) :
      Reached item definitions [] [] (.value type third)
  | part {earlier : List Occurrence} {bound between : Bound} {outer part : Task}
      {front behind : List Task} (reached : Reached item definitions earlier bound outer)
      (listed : parts definitions outer = front ++ part :: behind)
      (passed : Threads (Passes definitions) front (boundOf (own outer) ++ bound) between) :
      Reached item definitions
        (earlier ++ own outer ++ front.flatMap (occurrences definitions)) between part

/-- The task is somewhere in the message. -/
inductive Inside (item : Item) (definitions : Definitions) : Task → Prop
  | root {type : StaticType} {third : Item} (opens : Opens item definitions type third) :
      Inside item definitions (.value type third)
  | part {outer part : Task} (inside : Inside item definitions outer)
      (listed : part ∈ parts definitions outer) : Inside item definitions part

theorem Opens.unique {other : Definitions} {type type' : StaticType} {third third' : Item}
    (opens : Opens item definitions type third) (opens' : Opens item other type' third') :
    definitions = other ∧ type = type' ∧ third = third' := by
  cases opens with
  | defining defined typed =>
    cases opens' with
    | defining defined' typed' =>
      rw [defined] at defined'
      cases defined'
      rw [typed] at typed'
      cases typed'
      exact ⟨rfl, rfl, rfl⟩
  | bare typed =>
    cases opens' with
    | bare typed' =>
      rw [typed] at typed'
      cases typed'
      exact ⟨rfl, rfl, rfl⟩

/-- Whatever there is in a message that is accepted has been reached, and passed. -/
theorem Inside.reached (inside : Inside item definitions task) {v : Value}
    (accepted : message item = .ok v) :
    ∃ earlier bound later, Reached item definitions earlier bound task ∧
      Passes definitions task bound later := by
  induction inside with
  | root opens =>
    obtain ⟨definitions', type', third', after, opens', read⟩ := message_eq_ok.1 accepted
    obtain ⟨rfl, rfl, rfl⟩ := opens.unique opens'
    exact ⟨[], [], after, .root opens, v, read⟩
  | @part outer part _ listed ih =>
    obtain ⟨earlier, bound, later, reached, found⟩ := ih
    obtain ⟨front, behind, parted⟩ := List.append_of_mem listed
    have passed := found.parts
    rw [parted] at passed
    obtain ⟨between, before, rest⟩ := passed.split
    cases rest with
    | cons here _ => exact ⟨_, between, _, .part reached parted before, here⟩

theorem Reached.bound_eq (reached : Reached item definitions earlier bound task) :
    bound = boundOf earlier := by
  induction reached with
  | root => rfl
  | part _ _ passed ih =>
    rw [threads_bound passed, ih, boundOf_append, boundOf_append]

private theorem run_reference (id : List UInt8) (bound : Bound) :
    (typeValue (.tag 184 (.bytes id))).run bound =
      match bound.lookup id with
      | some type => .ok (some (.nominal type), bound)
      | none => .error (.unknownTypeReference id) := by
  unfold typeValue
  simp only [TypeForm.ofValueTag?, boundType, bytes, liftM_ok, pure_bind, StateT.run_map,
    StateT.run_bind, StateT.run_get]
  cases bound.lookup id with
  | some type => rfl
  | none => rfl

/-- What a reference stands for depends only on the types written out before it that were not passed
over. -/
theorem Reached.run_reference {id : List UInt8}
    (reached : Reached item definitions earlier bound (.type (.tag 184 (.bytes id)))) :
    (typeValue (.tag 184 (.bytes id))).run bound =
      match latest? id (outside earlier) with
      | some type => .ok (some (.nominal type), bound)
      | none => .error (.unknownTypeReference id) := by
  rw [Ccf.run_reference, reached.bound_eq, lookup_boundOf]

/-- Reading comes to all that there is in a message it accepts. Where it comes to a reference, this
stands for the type that was last written out under the identifier if, and only if, it is also the
last of those that were not passed over, and it is unknown if, and only if, all of them were. -/
theorem reference_latest (item : Item) (definitions : Definitions) :
    (∀ v task, message item = .ok v → Inside item definitions task →
      ∃ earlier bound later, Reached item definitions earlier bound task ∧
        Passes definitions task bound later) ∧
    ∀ earlier bound id type,
      Reached item definitions earlier bound (.type (.tag 184 (.bytes id))) →
      latest? id earlier = some type →
        (Yields (typeValue (.tag 184 (.bytes id))) bound (some (.nominal type)) bound ↔
          latest? id (outside earlier) = some type) ∧
        ((typeValue (.tag 184 (.bytes id))).run bound = .error (.unknownTypeReference id) ↔
          latest? id (outside earlier) = none) := by
  refine ⟨fun v task accepted inside => inside.reached accepted, ?_⟩
  intro earlier bound id type reached written
  rw [Yields, reached.run_reference]
  cases latest? id (outside earlier) with
  | some other => simp
  | none => simp

end reached

section keyed

/-- A structure without fields, written out. -/
def structItem (id : List UInt8) (name : String) (base initializers : Item) : Item :=
  .tag 208 (.array [.bytes id, .text name, base, .array [], initializers])

/-- A message of a type of dictionaries, whose keys are of a type that is written out and whose
values are of the type of an identifier. -/
def keyedMessage (key : Item) (id : List UInt8) : Item :=
  .tag 130 (.array [.tag 137 (.integer 41), .tag 189 (.array [key, .tag 184 (.bytes id)])])

variable {id : List UInt8} {base initializers : Item}

private theorem occurrences_structItem (id : List UInt8) (name : String)
    (base initializers : Item) : occurrences .empty (.type (structItem id name base initializers)) =
      ⟨id, ⟨.struct, name⟩, false⟩ ::
        (occurrences .empty (.passedOver base) ++
          occurrences .empty (.passedOver initializers)) := by
  have within : parts .empty (.type (structItem id name base initializers)) =
      [.passedOver base, .passedOver initializers] := rfl
  rw [occurrences_eq, within, List.flatMap_cons, List.flatMap_singleton]
  rfl

private theorem occurrences_passedOver (item : Item) :
    occurrences .empty (.passedOver item) =
      own (.passedOver item) ++ (immediate item).flatMap (occurrences .empty ∘ .passedOver) := by
  rw [occurrences_eq, parts, List.flatMap_map]
  rfl

private theorem structItem_yields :
    Yields (typeValue (structItem [1] "S.A" base initializers)) []
      (some (.nominal ⟨.struct, "S.A"⟩)) [([1], ⟨.struct, "S.A"⟩)] :=
  (TypeItem.declared .struct [1] "S.A" base initializers .nil).yields

private theorem keyedMessage_reached :
    Reached (keyedMessage (structItem [1] "S.A" base initializers) id) .empty
      (occurrences .empty (.type (structItem [1] "S.A" base initializers)))
      [([1], ⟨.struct, "S.A"⟩)] (.type (.tag 184 (.bytes id))) := by
  have root : Reached (keyedMessage (structItem [1] "S.A" base initializers) id) .empty [] []
      (.value (.simple .metaType) _) := .root (.bare rfl)
  have outer := Reached.part root (show _ = [] ++ _ from rfl) .nil
  have key : Passes .empty (.type (structItem [1] "S.A" base initializers)) []
      [([1], ⟨.struct, "S.A"⟩)] := ⟨_, structItem_yields⟩
  have inner := Reached.part outer (show _ = [_] ++ _ from rfl) (.cons key .nil)
  simpa [own, written?] using inner

private theorem keyedMessage_inside :
    Inside (keyedMessage (structItem [1] "S.A" base initializers) id) .empty
      (.type (.tag 184 (.bytes id))) := by
  have root : Inside (keyedMessage (structItem [1] "S.A" base initializers) id) .empty
      (.value (.simple .metaType) _) := .root (.bare rfl)
  have outer := Inside.part root (show Task.type _ ∈ [Task.type _] from List.mem_singleton_self _)
  refine .part outer ?_
  change _ ∈ [Task.type _, Task.type _]
  simp

/-- A type that is written out is known by its identifier in what follows it. -/
theorem reference_latest_key :
    message (keyedMessage (structItem [1] "S.A" .null (.array [])) [1]) =
        .ok (.type (some (.dictionary (.nominal ⟨.struct, "S.A"⟩) (.nominal ⟨.struct, "S.A"⟩)))) ∧
      (∃ earlier bound later,
        Reached (keyedMessage (structItem [1] "S.A" .null (.array [])) [1]) .empty earlier bound
          (.type (.tag 184 (.bytes [1]))) ∧
        Passes .empty (.type (.tag 184 (.bytes [1]))) bound later) ∧
      Reached (keyedMessage (structItem [1] "S.A" .null (.array [])) [1]) .empty
        [⟨[1], ⟨.struct, "S.A"⟩, false⟩] [([1], ⟨.struct, "S.A"⟩)] (.type (.tag 184 (.bytes [1]))) ∧
      Yields (typeValue (.tag 184 (.bytes [1]))) [([1], ⟨.struct, "S.A"⟩)]
        (some (.nominal ⟨.struct, "S.A"⟩)) [([1], ⟨.struct, "S.A"⟩)] := by
  have accepted : message (keyedMessage (structItem [1] "S.A" .null (.array [])) [1]) = .ok _ := rfl
  have reached : Reached (keyedMessage (structItem [1] "S.A" .null (.array [])) [1]) _ _ _ _ :=
    keyedMessage_reached
  have own : occurrences .empty (.type (structItem [1] "S.A" .null (.array []))) =
      [⟨[1], ⟨.struct, "S.A"⟩, false⟩] := by
    rw [occurrences_structItem]
    simp [occurrences_passedOver, Ccf.own, written?, immediate]
  rw [own] at reached
  obtain ⟨comes, stands⟩ :=
    reference_latest (keyedMessage (structItem [1] "S.A" .null (.array [])) [1]) .empty
  exact ⟨accepted, comes _ _ accepted keyedMessage_inside, reached,
    (stands _ _ _ _ reached rfl).1.2 rfl⟩

/-- An initializer with a parameter of a type that is written out there. -/
def declaringInitializers : Item :=
  .array [.array [.array [.text "", .text "x", structItem [2] "S.B" .null (.array [])]]]

/-- A type that is written out in an initializer is not known by its identifier in what follows. -/
theorem reference_passedOver :
    ∃ earlier bound,
      Reached (keyedMessage (structItem [1] "S.A" .null declaringInitializers) [2]) .empty earlier
        bound (.type (.tag 184 (.bytes [2]))) ∧
      latest? [2] earlier = some ⟨.struct, "S.B"⟩ ∧
      (typeValue (.tag 184 (.bytes [2]))).run bound = .error (.unknownTypeReference [2]) ∧
      message (keyedMessage (structItem [1] "S.A" .null declaringInitializers) [2]) =
        .error (.unknownTypeReference [2]) := by
  refine ⟨_, _, keyedMessage_reached, ?_, rfl, rfl⟩
  rw [occurrences_structItem]
  simp [occurrences_passedOver, own, declaringInitializers, structItem, written?, writtenKind?,
    immediate, latest?]

end keyed

end CadenceWire.Ccf
