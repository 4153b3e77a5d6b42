import CadenceWire.Proofs.JsonCdc.Passage
import CadenceWire.Proofs.JsonCdc.ValueTree

/-!
Types given by an identifier alone. What a reader has seen where it comes to one are the types that
were declared before in the payload, except for those declared only in initializers.
-/
namespace CadenceWire.JsonCdc

/-- The latest of the declared types of an identifier. -/
def latest? (id : String) (occurrences : List Occurrence) : Option NominalType :=
  (occurrences.map (·.type)).reverse.find? (·.id = id)

/-- What was recorded last with an identifier is the latest of the declared types of it. -/
theorem find?_recorded (types : List NominalType) (id : String) :
    (recorded types).find? id = (types.find? (·.id = id)).map .nominal := by
  unfold Seen.find? recorded
  induction types with
  | nil => rfl
  | cons type types ih =>
    rw [List.map_cons, List.lookup_cons, List.find?_cons, ih]
    by_cases same : type.id = id
    · simp [same]
    · simp [same, beq_eq_false_iff_ne.2 (Ne.symm same)]

/-- Those that are not in initializers. -/
def outside (occurrences : List Occurrence) : List Occurrence :=
  occurrences.filter fun occurrence => !occurrence.inInitializer

/-- What has been seen once the occurrences have been gone through. -/
def seenOf (occurrences : List Occurrence) : Seen :=
  recorded ((outside occurrences).map (·.type)).reverse

section seen

variable {options : Options} {before after : Seen}

private theorem seenOf_append (first second : List Occurrence) :
    seenOf (first ++ second) = seenOf second ++ seenOf first := by
  simp only [seenOf, recorded, outside, List.filter_append, List.map_append, List.reverse_append]

private theorem seenOf_own (task : Task) :
    seenOf ((own task).map (⟨·, false⟩)) = recorded (own task) := by
  cases task with
  | value => rfl
  | type json =>
    rw [own]
    cases declaration? (membersOf json) with
    | none => rfl
    | some type => rfl

private theorem seenOf_declarations_of_initializer {p : Position}
    (passed : p.inInitializer = true) : seenOf (p.declarations options) = [] := by
  have none : outside (p.declarations options) = [] := by
    refine List.filter_eq_nil_iff.2 fun occurrence member => ?_
    obtain ⟨inner, -, rfl⟩ := List.mem_map.1 member
    simp [Position.mark, passed]
  rw [seenOf, none]
  rfl

private theorem declarations_of_read {p : Position} (read : p.inInitializer = false) :
    p.declarations options = declarations options p.task := by
  have same : p.mark = id := by
    funext occurrence
    simp [Position.mark, read]
  rw [Position.declarations, same, List.map_id]

theorem Passes.seen_of {p : Position}
    (inner : Reads options p.task before after →
      after = seenOf (declarations options p.task) ++ before)
    (passed : Passes options p before after) :
    after = seenOf (p.declarations options) ++ before := by
  cases there : p.inInitializer with
  | true =>
    rw [Passes, if_pos there] at passed
    rw [seenOf_declarations_of_initializer there, passed]
    rfl
  | false =>
    rw [Passes, if_neg (by simp [there])] at passed
    rw [declarations_of_read there]
    exact inner passed

private theorem seen_of_threads {positions : List Position}
    (each : ∀ p ∈ positions, ∀ before after, Passes options p before after →
      after = seenOf (p.declarations options) ++ before)
    (passed : Threads (Passes options) positions before after) :
    after = seenOf (positions.flatMap (·.declarations options)) ++ before := by
  induction passed with
  | nil => rfl
  | cons head _ ih =>
    obtain ⟨here, others⟩ := List.forall_mem_cons.1 each
    rw [ih others, here _ _ head, List.flatMap_cons, seenOf_append, List.append_assoc]

/-- A task that is read adds the types declared within it to what has been seen, in the order of the
encoding, except for those in initializers. -/
theorem Reads.seen {task : Task} (read : Reads options task before after) :
    after = seenOf (declarations options task) ++ before := by
  induction task using (measure fun task : Task => sizeOf task.json).wf.induction
    generalizing before after with
  | _ task ih =>
    rw [declarations_eq, seenOf_append, seenOf_own, List.append_assoc]
    exact seen_of_threads (fun p member _ _ =>
      Passes.seen_of (ih p.task (sizeOf_lt_of_mem_parts member))) read.passes

theorem Threads.seen {positions : List Position}
    (passed : Threads (Passes options) positions before after) :
    after = seenOf (positions.flatMap (·.declarations options)) ++ before :=
  seen_of_threads (fun _ _ _ _ => Passes.seen_of Reads.seen) passed

end seen

section reached

variable {options : Options} {payload : Json} {earlier : List Occurrence} {seen : Seen}
  {task : Task}

/-- Reading the payload comes to the task, before which the occurrences are declared in the order of
the encoding, and by which time those types have been seen. -/
inductive Reached (options : Options) (payload : Json) : List Occurrence → Seen → Task → Prop
  | payload : Reached options payload [] [] (.value payload)
  | part {earlier : List Occurrence} {seen between : Seen} {outer part : Task}
      {front behind : List Position} (reached : Reached options payload earlier seen outer)
      (listed : parts options outer = front ++ ⟨part, false⟩ :: behind)
      (passed : Threads (Passes options) front (recorded (own outer) ++ seen) between) :
      Reached options payload (earlier ++ (own outer).map (⟨·, false⟩) ++
        front.flatMap (·.declarations options)) between part

/-- The task is somewhere in the payload, but not in an initializer. -/
inductive Inside (options : Options) (payload : Json) : Task → Prop
  | payload : Inside options payload (.value payload)
  | part {outer part : Task} (inside : Inside options payload outer)
      (listed : ⟨part, false⟩ ∈ parts options outer) : Inside options payload part

/-- Reading a payload with success comes to whatever is in it. -/
theorem Inside.reached (inside : Inside options payload task) {v : Value} {after : Seen}
    (read : Yields (value options payload) [] v after) :
    ∃ earlier seen later, Reached options payload earlier seen task ∧
      Reads options task seen later := by
  induction inside with
  | payload => exact ⟨[], [], after, .payload, v, read⟩
  | @part outer part _ listed ih =>
    obtain ⟨earlier, seen, later, reached, found⟩ := ih
    obtain ⟨front, behind, parted⟩ := List.append_of_mem listed
    have passed := found.passes
    rw [parted] at passed
    obtain ⟨between, before, rest⟩ := passed.split
    cases rest with
    | cons here _ =>
      exact ⟨_, between, _, .part reached parted before, here⟩

theorem Reached.seen_eq (reached : Reached options payload earlier seen task) :
    seen = seenOf earlier := by
  induction reached with
  | payload => rfl
  | part _ _ passed ih =>
    rw [passed.seen, ih, seenOf_append, seenOf_append, seenOf_own]

/-- What an identifier alone stands for depends only on the types declared before it outside of
initializers. -/
theorem Reached.run_identifier {s : String}
    (reached : Reached options payload earlier seen (.type (.string s))) :
    (staticType options (.string s)).run seen =
      match latest? s (outside earlier) with
      | some type => .ok (.nominal type, seen)
      | none =>
        if options.unresolvedTypes then .ok (.unstructured s, seen)
        else .error (.unknownTypeReference s) := by
  have found : seen.find? s = (latest? s (outside earlier)).map .nominal := by
    rw [reached.seen_eq, seenOf, find?_recorded, latest?]
  rw [staticType.eq_def]
  simp only [Json.text?, typeReference, StateT.run_bind, StateT.run_get, pure_bind, found]
  cases latest? s (outside earlier) with
  | some type => rfl
  | none =>
    dsimp only [Option.map_none]
    split
    next => rfl
    next => rfl

/-- An identifier alone stands for the type of that identifier that was declared last before it if,
and only if, no other was the last to be declared outside of initializers. -/
theorem Reached.latest_declared {s : String} {type : NominalType}
    (reached : Reached options payload earlier seen (.type (.string s)))
    (declared : latest? s earlier = some type) :
    type.id = s ∧ (Yields (staticType options (.string s)) seen (.nominal type) seen ↔
      latest? s (outside earlier) = some type) := by
  unfold latest? at declared
  refine ⟨by simpa using List.find?_some declared, ?_⟩
  rw [Yields, reached.run_identifier]
  cases latest? s (outside earlier) with
  | some other => simp
  | none =>
    dsimp only
    split
    next => simp
    next => simp

end reached

section initializer

/-- The members of a declared type without fields, given its initializers. -/
def structMembers (id : String) (initializers : List Json) : Json.Members :=
  [("kind", .string "Struct"), ("typeID", .string id), ("fields", .array []),
    ("initializers", .array initializers), ("type", .string "")]

/-- The members of a type of dictionaries whose keys are of a declared type, and whose values are of
the type of an identifier. -/
def keyedMembers (id : String) (initializers : List Json) : Json.Members :=
  [("kind", .string "Dictionary"), ("key", .object (structMembers "S.A" initializers)),
    ("value", .string id)]

def keyedPayload (id : String) (initializers : List Json) : Json :=
  .object [("type", .string "Type"),
    ("value", .object [("staticType", .object (keyedMembers id initializers))])]

variable {options : Options} {id : String} {initializers : List Json}

private theorem declarations_struct :
    declarations options (.type (.object (structMembers id []))) =
      [⟨⟨.struct, id⟩, false⟩] := by
  rw [declarations_eq]
  rfl

private theorem structMembers_yields :
    Yields (staticType options (.object (structMembers "S.A" initializers))) []
      (.nominal ⟨.struct, "S.A"⟩) [("S.A", .nominal ⟨.struct, "S.A"⟩)] := by
  have declared : TypeTree false [] (.nominal ⟨.struct, "S.A"⟩)
      (.object (structMembers "S.A" initializers)) [("S.A", .nominal ⟨.struct, "S.A"⟩)] :=
    .declared rfl rfl rfl .nil (.empty rfl)
  exact declared.yields (show false = true → options.olderForms = true by simp)

theorem keyedPayload_reached :
    Reached options (keyedPayload id initializers)
      (declarations options (.type (.object (structMembers "S.A" initializers))))
      [("S.A", .nominal ⟨.struct, "S.A"⟩)] (.type (.string id)) := by
  have outer : Reached options (keyedPayload id initializers) [] []
      (.type (.object (keyedMembers id initializers))) :=
    .part .payload (show _ = [] ++ _ from rfl) .nil
  have key : Passes options ⟨.type (.object (structMembers "S.A" initializers)), false⟩ []
      [("S.A", .nominal ⟨.struct, "S.A"⟩)] := ⟨_, structMembers_yields⟩
  have inner := Reached.part outer (show _ = [_] ++ _ from rfl) (.cons key .nil)
  rw [List.flatMap_singleton, declarations_of_read rfl] at inner
  exact inner

private theorem keyedPayload_yields {type : StaticType}
    (found : Yields (staticType options (.string id)) [("S.A", .nominal ⟨.struct, "S.A"⟩)] type
      [("S.A", .nominal ⟨.struct, "S.A"⟩)]) :
    Yields (value options (keyedPayload id initializers)) []
      (.type (some (.dictionary (.nominal ⟨.struct, "S.A"⟩) type)))
      [("S.A", .nominal ⟨.struct, "S.A"⟩)] := by
  have kind : (keyedMembers id initializers).last? "kind" = some (.string "Dictionary") := rfl
  have form : TypeForm.names.lookup "Dictionary" = some .dictionary := by decide
  have key : memberType options (keyedMembers id initializers) "key" = _ := memberType_of_last? rfl
  have entry : memberType options (keyedMembers id initializers) "value" = _ :=
    memberType_of_last? rfl
  have dictionary : Yields (staticType options (.object (keyedMembers id initializers))) []
      (.dictionary (.nominal ⟨.struct, "S.A"⟩) type) [("S.A", .nominal ⟨.struct, "S.A"⟩)] := by
    rw [staticType.eq_def]
    simp only [Json.text?, object, liftM_ok, pure_bind, textMember_of_last? kind, form, key, entry]
    exact structMembers_yields.bind (found.bind (.pure _ _))
  have stated : Json.Members.last? [("staticType", .object (keyedMembers id initializers))]
      "staticType" = some (.object (keyedMembers id initializers)) := rfl
  rw [keyedPayload, show value options _ = payload options .type _ from
    value_of_last? rfl rfl (by simp) (by simp)]
  simp only [payload, typeValue, object, liftM_ok, pure_bind,
    statedType_of_last? stated (by simp) (by simp [Json.text?])]
  exact (dictionary.map some).bind (.pure _ _)

/-- A declared type is known by its identifier in what follows it. -/
theorem latest_declared_key :
    Reached .strict (keyedPayload "S.A" []) [⟨⟨.struct, "S.A"⟩, false⟩]
        [("S.A", .nominal ⟨.struct, "S.A"⟩)] (.type (.string "S.A")) ∧
      Yields (staticType .strict (.string "S.A")) [("S.A", .nominal ⟨.struct, "S.A"⟩)]
        (.nominal ⟨.struct, "S.A"⟩) [("S.A", .nominal ⟨.struct, "S.A"⟩)] := by
  have reached : Reached .strict (keyedPayload "S.A" []) _ _ _ := keyedPayload_reached
  rw [declarations_struct] at reached
  exact ⟨reached, (Reached.latest_declared reached rfl).2.2 rfl⟩

/-- An initializer with a parameter of a type that is declared there. -/
def declaringInitializer : Json :=
  .array [.object [("label", .string ""), ("id", .string "x"),
    ("type", .object (structMembers "S.B" []))]]

/-- A type that is declared in an initializer is not known by its identifier in what follows. -/
theorem latest_declared_passedOver :
    ∃ earlier seen,
      Reached .lenient (keyedPayload "S.B" [declaringInitializer]) earlier seen
        (.type (.string "S.B")) ∧
      latest? "S.B" earlier = some ⟨.struct, "S.B"⟩ ∧
      Yields (staticType .lenient (.string "S.B")) seen (.unstructured "S.B") seen ∧
      (value .lenient (keyedPayload "S.B" [declaringInitializer])).run' [] =
        .ok (.type (some (.dictionary (.nominal ⟨.struct, "S.A"⟩) (.unstructured "S.B")))) := by
  have own : declarations .lenient (.type (.object (structMembers "S.A" [declaringInitializer]))) =
      [⟨⟨.struct, "S.A"⟩, false⟩, ⟨⟨.struct, "S.B"⟩, true⟩] := by
    rw [declarations_eq, show parts _ _ = [_] from rfl, List.flatMap_singleton,
      Position.declarations, declarations_struct]
    rfl
  have reached : Reached .lenient (keyedPayload "S.B" [declaringInitializer]) _ _ _ :=
    keyedPayload_reached
  have unknown : Yields (staticType .lenient (.string "S.B")) [("S.A", .nominal ⟨.struct, "S.A"⟩)]
      (.unstructured "S.B") [("S.A", .nominal ⟨.struct, "S.A"⟩)] := by
    rw [staticType.eq_def]
    rfl
  rw [own] at reached
  exact ⟨_, _, reached, rfl, unknown, run'_eq_ok.2 ⟨_, keyedPayload_yields unknown⟩⟩

end initializer

end CadenceWire.JsonCdc
