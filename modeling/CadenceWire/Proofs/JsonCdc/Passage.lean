import CadenceWire.Proofs.JsonCdc.Occurrence
import CadenceWire.Proofs.JsonCdc.TypeTree

/-!
Readers go through a payload position by position: in the order of the encoding they read what is at
each, and pass over initializers.
-/
namespace CadenceWire.JsonCdc

/-- Steps at the items, one after another, lead from one state to the other. -/
inductive Threads {α σ : Type} (R : α → σ → σ → Prop) : List α → σ → σ → Prop
  | nil {state : σ} : Threads R [] state state
  | cons {item : α} {items : List α} {before between after : σ} (head : R item before between)
      (tail : Threads R items between after) : Threads R (item :: items) before after

namespace Threads

variable {α σ : Type} {R : α → σ → σ → Prop} {first second : List α} {before between after : σ}

theorem append (head : Threads R first before between) (tail : Threads R second between after) :
    Threads R (first ++ second) before after := by
  induction head with
  | nil => exact tail
  | cons step _ ih => exact .cons step (ih tail)

theorem split (whole : Threads R (first ++ second) before after) :
    ∃ between, Threads R first before between ∧ Threads R second between after := by
  induction first generalizing before with
  | nil => exact ⟨before, .nil, whole⟩
  | cons item items ih =>
    cases whole with
    | cons head tail =>
      obtain ⟨between, front, behind⟩ := ih tail
      exact ⟨between, .cons head front, behind⟩

end Threads

section passage

variable (options : Options)

/-- The reader of a task succeeds. -/
def Reads : Task → Seen → Seen → Prop
  | .value json, before, after => ∃ result, Yields (value options json) before result after
  | .type json, before, after => ∃ result, Yields (staticType options json) before result after

def Passes (p : Position) (before after : Seen) : Prop :=
  if p.inInitializer then after = before else Reads options p.task before after

/-- Whenever the reading succeeds, it goes through the positions and reads nothing else. -/
def Visits {α : Type} (reading : Reading α) (positions : List Position) : Prop :=
  ∀ before result after, Yields reading before result after →
    Threads (Passes options) positions before after

end passage

section visits

variable {options : Options} {α β : Type} {positions : List Position} {members : Json.Members}
  {items : List Json} {json : Json}

theorem Visits.pure (result : α) : Visits options (pure result) [] := by
  intro before result after read
  obtain ⟨-, rfl⟩ := yields_pure.1 read
  exact .nil

theorem Visits.throw (failure : Failure) :
    Visits options (throw failure : Reading α) positions := by
  intro before result after read
  exact absurd read not_yields_throw

theorem Visits.bind {first : Reading α} {next : α → Reading β} {front behind : List Position}
    (head : Visits options first front) (tail : ∀ result, Visits options (next result) behind) :
    Visits options (first >>= next) (front ++ behind) := by
  intro before result after read
  obtain ⟨value, between, found, rest⟩ := yields_bind.1 read
  exact (head before value between found).append (tail value between result after rest)

/-- What follows the positions reads nothing. -/
theorem Visits.last {first : Reading α} {next : α → Reading β}
    (head : Visits options first positions) (tail : ∀ result, Visits options (next result) []) :
    Visits options (first >>= next) positions := by
  have whole := head.bind tail
  rwa [List.append_nil] at whole

/-- A step that reads no payload leaves the positions to what follows. -/
theorem Visits.step {part : Except Failure α} {next : α → Reading β}
    (tail : ∀ result, part = .ok result → Visits options (next result) positions) :
    Visits options (liftM part >>= next) positions := by
  intro before result after read
  obtain ⟨value, between, found, rest⟩ := yields_bind.1 read
  obtain ⟨accepted, rfl⟩ := yields_lift.1 found
  exact tail value accepted between result after rest

private theorem visits_lift (part : Except Failure α) :
    Visits options (liftM part : Reading α) [] := by
  intro before result after read
  obtain ⟨-, rfl⟩ := yields_lift.1 read
  exact .nil

private theorem visits_type (json : Json) :
    Visits options (staticType options json) (typesAt [json]) := by
  intro before result after read
  exact .cons ⟨result, read⟩ .nil

theorem visits_value (json : Json) : Visits options (value options json) (valuesAt [json]) := by
  intro before result after read
  exact .cons ⟨result, read⟩ .nil

private theorem memberOf_of_last? {name : String} (found : members.last? name = some json) :
    memberOf members name = [json] := by
  rw [memberOf, found]
  rfl

private theorem listOf_of_last? {name : String} (found : members.last? name = some (.array items)) :
    listOf members name = items := by
  rw [listOf, memberOf_of_last? found, List.flatMap_singleton]
  rfl

private theorem listOf_of_unlisted {name : String} (unlisted : items? members name = none) :
    listOf members name = [] := by
  unfold items? at unlisted
  rw [listOf, memberOf, ← members.map_part?]
  cases found : members.part? name with
  | none => rfl
  | some part =>
    rw [found] at unlisted
    obtain ⟨json, smaller⟩ := part
    cases json with
    | array items => cases unlisted
    | _ => rfl

private theorem itemsOf_of_array {context : String} {list : Part (List Json) json}
    (listed : array context json = .ok list) : itemsOf json = list.val :=
  congrArg itemsOf (eq_of_array listed)

private theorem membersOf_of_object {context : String} {part : Part Json.Members json}
    (found : object context json = .ok part) : membersOf json = part.val :=
  congrArg membersOf (eq_of_object found)

private theorem visits_memberType (members : Json.Members) (name : String) :
    Visits options (memberType options members name) (typesAt (memberOf members name)) := by
  rw [memberType.eq_def]
  refine .step fun part found => ?_
  rw [memberOf_of_last? (member_eq_ok.1 found)]
  exact visits_type part.val

theorem visits_statedType (members : Json.Members) (name : String) :
    Visits options (statedType options members name) (typesAt (statedOf members name)) := by
  rw [statedType.eq_def, statedOf]
  cases stated? members name with
  | none => exact .pure _
  | some part => exact (visits_type part.val).last fun _ => .pure _

private theorem visits_staticTypes (items : List Json) :
    Visits options (staticTypes options items) (typesAt items) := by
  induction items with
  | nil =>
    rw [staticTypes.eq_def]
    exact .pure _
  | cons item items ih =>
    rw [staticTypes.eq_def]
    exact (visits_type item).bind fun _ => ih.last fun _ => .pure _

private theorem visits_memberTypes (members : Json.Members) (name : String) :
    Visits options (memberTypes options members name) (typesAt (listOf members name)) := by
  rw [memberTypes.eq_def]
  have same := members.map_part? name
  split
  next missing =>
    rw [missing] at same
    rw [listOf, memberOf, ← same]
    exact .pure _
  next missing =>
    rw [missing] at same
    rw [listOf, memberOf, ← same]
    exact .pure _
  next json smaller _ found =>
    rw [found] at same
    refine .step fun list listed => ?_
    rw [listOf, memberOf_of_last? same.symm, List.flatMap_singleton, itemsOf_of_array listed]
    exact visits_staticTypes list.val

private theorem visits_fieldTypes (items : List Json) :
    Visits options (fieldTypes options items) (typesAt (eachOf items "type")) := by
  induction items with
  | nil =>
    rw [fieldTypes.eq_def]
    exact .pure _
  | cons item items ih =>
    rw [fieldTypes.eq_def, eachOf, List.flatMap_cons, typesAt, List.map_append]
    refine .step fun part found => ?_
    rw [membersOf_of_object found]
    exact (visits_memberType part.val "type").bind fun _ => ih

private theorem visits_typeParameters (items : List Json) :
    Visits options (typeParameters options items)
      (typesAt (items.flatMap fun item => statedOf (membersOf item) "typeBound")) := by
  induction items with
  | nil =>
    rw [typeParameters.eq_def]
    exact .pure _
  | cons item items ih =>
    rw [typeParameters.eq_def, List.flatMap_cons, typesAt, List.map_append]
    refine .step fun part found => ?_
    rw [membersOf_of_object found]
    exact (visits_statedType part.val "typeBound").bind fun _ =>
      .step fun name _ => ih.last fun _ => .pure _

private theorem visits_parameters (items : List Json) :
    Visits options (parameters options items) (typesAt (eachOf items "type")) := by
  induction items with
  | nil =>
    rw [parameters.eq_def]
    exact .pure _
  | cons item items ih =>
    rw [parameters.eq_def, eachOf, List.flatMap_cons, typesAt, List.map_append]
    refine .step fun part found => ?_
    rw [membersOf_of_object found]
    exact (visits_memberType part.val "type").bind fun _ => ih.last fun _ => .pure _

private theorem visits_declaredFields (members : Json.Members) :
    Visits options (declaredFields options members)
      (typesAt (eachOf (listOf members "fields") "type")) := by
  unfold declaredFields
  cases listed : items? members "fields" with
  | none =>
    rw [listOf_of_unlisted listed]
    exact .pure _
  | some part =>
    rw [listOf_of_last? (last?_of_items? listed)]
    exact visits_fieldTypes part.val

private theorem visits_declaredBase (members : Json.Members) :
    Visits options (declaredBase options members) (typesAt (baseOf members)) := by
  unfold declaredBase baseOf memberOf
  rw [← members.map_part?]
  cases members.part? "type" with
  | none => exact .pure _
  | some part =>
    dsimp only [Option.map_some, Option.toList_some]
    split
    next empty =>
      rw [List.filter_cons_of_neg (by simp [empty])]
      exact .pure _
    next stated =>
      rw [List.filter_cons_of_pos (by simp [stated])]
      exact (visits_type part.val).last fun _ => .pure _

private theorem visits_signatureTypes (members : Json.Members) :
    Visits options (signatureTypes options members)
      (typesAt ((listOf members "typeParameters").flatMap
        fun item => statedOf (membersOf item) "typeBound")) := by
  unfold signatureTypes
  cases listed : items? members "typeParameters" with
  | none =>
    rw [listOf_of_unlisted listed]
    exact .pure _
  | some part =>
    rw [listOf_of_last? (last?_of_items? listed)]
    exact visits_typeParameters part.val

private theorem visits_functionType (members : Json.Members) :
    Visits options (functionType options members)
      (typesAt ((listOf members "typeParameters").flatMap
          fun item => statedOf (membersOf item) "typeBound") ++
        typesAt (eachOf (listOf members "parameters") "type") ++
        typesAt (memberOf members "return")) := by
  rw [functionType_steps, List.append_assoc]
  refine (visits_signatureTypes members).bind fun _ => .step fun part there =>
    .step fun list listed => ?_
  have whole : members.last? "parameters" = some (.array list.val) :=
    (member_eq_ok.1 there).trans (congrArg some (eq_of_array listed))
  rw [listOf_of_last? whole]
  exact (visits_parameters list.val).bind fun _ =>
    (visits_memberType members "return").last fun _ => .pure _

private theorem visits_typeReference (id : String) :
    Visits options (typeReference options id) [] := by
  intro before result after read
  rw [typeReference, yields_bind] at read
  obtain ⟨seen, between, looked, read⟩ := read
  obtain ⟨-, rfl⟩ := yields_get.1 looked
  split at read
  next =>
    obtain ⟨-, rfl⟩ := yields_pure.1 read
    exact .nil
  next =>
    split at read
    next =>
      obtain ⟨-, rfl⟩ := yields_pure.1 read
      exact .nil
    next => exact absurd read not_yields_throw

private theorem visits_memberValue (members : Json.Members) (name context : String) :
    Visits options (memberValue options members name context)
      (valuesAt (memberOf members name)) := by
  rw [memberValue.eq_def]
  refine .step fun part found => ?_
  rw [memberOf_of_last? (member_eq_ok.1 found)]
  exact visits_value part.val

private theorem visits_values (items : List Json) :
    Visits options (values options items) (valuesAt items) := by
  induction items with
  | nil =>
    rw [values.eq_def]
    exact .pure _
  | cons item items ih =>
    rw [values.eq_def]
    exact (visits_value item).bind fun _ => ih.last fun _ => .pure _

private theorem visits_entries (items : List Json) :
    Visits options (entries options items) (items.flatMap fun item =>
      valuesAt (memberOf (membersOf item) "key") ++
        valuesAt (memberOf (membersOf item) "value")) := by
  induction items with
  | nil =>
    rw [entries.eq_def]
    exact .pure _
  | cons item items ih =>
    rw [entries.eq_def, List.flatMap_cons, List.append_assoc]
    refine .step fun part found => ?_
    rw [membersOf_of_object found]
    exact (visits_memberValue part.val "key" _).bind fun _ =>
      (visits_memberValue part.val "value" _).bind fun _ => ih.last fun _ => .pure _

private theorem visits_fields (items : List Json) :
    Visits options (fields options items) (valuesAt (eachOf items "value")) := by
  induction items with
  | nil =>
    rw [fields.eq_def]
    exact .pure _
  | cons item items ih =>
    rw [fields.eq_def, eachOf, List.flatMap_cons, valuesAt, List.map_append]
    refine .step fun part found => .step fun name _ => ?_
    rw [membersOf_of_object found]
    exact (visits_memberValue part.val "value" _).bind fun _ => ih.last fun _ => .pure _

private theorem visits_composite (kind : DeclarationKind) (json : Json) :
    Visits options (composite options kind json)
      (valuesAt (eachOf (listOf (membersOf json) "fields") "value")) := by
  rw [composite.eq_def]
  refine .step fun part found => .step fun id _ => .step fun inside there =>
    .step fun list listed => ?_
  have whole : part.val.last? "fields" = some (.array list.val) :=
    (member_eq_ok.1 there).trans (congrArg some (eq_of_array listed))
  rw [membersOf_of_object found, listOf_of_last? whole]
  exact (visits_fields list.val).last fun _ => .pure _

/-- The path of a capability counts only in the older form, and only without an identifier. -/
theorem visits_capabilityTarget (members : Json.Members) :
    Visits options (capabilityTarget options members)
      (if options.olderForms && !members.has "id" then valuesAt (memberOf members "path")
        else []) := by
  have known : Visits options (do
      return (← capabilityTarget.capabilityId options members, (none : Option Path))) [] :=
    .step fun _ _ => .pure _
  rw [capabilityTarget.eq_def, memberOf, ← members.map_part?]
  cases members.part? "path" with
  | none =>
    rw [Option.map_none, Option.toList_none, valuesAt, List.map_nil, ite_self]
    exact known
  | some part =>
    dsimp only
    split
    next =>
      refine (visits_value part.val).last fun path => ?_
      cases path with
      | path => exact .pure _
      | _ => exact .throw _
    next => exact known

private theorem visits_capability (json : Json) :
    Visits options (capability options json)
      ((if options.olderForms && !(membersOf json).has "id" then
          valuesAt (memberOf (membersOf json) "path") else []) ++
        typesAt (statedOf (membersOf json) "borrowType")) := by
  rw [capability.eq_def]
  refine .step fun part found => ?_
  rw [membersOf_of_object found]
  exact (visits_capabilityTarget part.val).bind fun _ => .step fun _ _ => .step fun _ _ =>
    (visits_statedType part.val "borrowType").last fun _ => .pure _

private theorem visits_range (json : Json) :
    Visits options (range options json)
      (valuesAt (memberOf (membersOf json) "start") ++ valuesAt (memberOf (membersOf json) "end") ++
        valuesAt (memberOf (membersOf json) "step")) := by
  rw [range.eq_def, List.append_assoc]
  refine .step fun part found => ?_
  rw [membersOf_of_object found]
  exact (visits_memberValue part.val "start" _).bind fun _ =>
    (visits_memberValue part.val "end" _).bind fun _ =>
      (visits_memberValue part.val "step" _).last fun _ => .pure _

private theorem visits_typeValue (json : Json) :
    Visits options (typeValue options json)
      (typesAt (statedOf (membersOf json) "staticType")) := by
  refine .step fun part found => ?_
  rw [membersOf_of_object found]
  exact (visits_statedType part.val "staticType").last fun _ => .pure _

private theorem visits_functionValue (json : Json) :
    Visits options (functionValue options json)
      (typesAt (memberOf (membersOf json) "functionType")) := by
  refine .step fun part found => .step fun inside there => ?_
  rw [membersOf_of_object found, memberOf_of_last? (member_eq_ok.1 there)]
  refine (visits_type inside.val).last fun type => ?_
  cases type with
  | function => exact .pure _
  | _ => exact .throw _

/-- Initializers are passed over. -/
theorem passes_initializers (members : Json.Members) (seen : Seen) :
    Threads (Passes options) (initializers members) seen seen := by
  have passed : ∀ p ∈ initializers members, p.inInitializer = true := by
    intro p member
    obtain ⟨list, -, inside⟩ := List.mem_flatMap.1 member
    obtain ⟨json, -, rfl⟩ := List.mem_map.1 inside
    rfl
  generalize initializers members = positions at passed
  induction positions with
  | nil => exact .nil
  | cons p positions ih =>
    obtain ⟨here, others⟩ := List.forall_mem_cons.1 passed
    refine .cons ?_ (ih others)
    rw [Passes, if_pos here]

/-- A declared type has been seen by the time that the types in its declaration are read. -/
theorem nominalType_passes {kind : DeclarationKind} {before after : Seen} {type : NominalType}
    (read : Yields (nominalType options kind members) before type after) :
    type.kind = kind ∧ members.last? "typeID" = some (.string type.id) ∧
      Threads (Passes options) (typesAt (eachOf (listOf members "fields") "type") ++
        initializers members ++ typesAt (baseOf members)) (recorded [type] ++ before) after := by
  rw [nominalType_steps] at read
  obtain ⟨id, named, declared⟩ := yields_lift_bind.1 read
  obtain ⟨_, _, entered, inner⟩ := yields_bind.1 declared
  obtain rfl := yields_modify.1 entered
  obtain ⟨_, between, fields, rest⟩ := yields_bind.1 inner
  obtain ⟨_, last, base, done⟩ := yields_bind.1 rest
  obtain ⟨rfl, rfl⟩ := yields_pure.1 done
  have front := visits_declaredFields members _ _ _ fields
  have behind := visits_declaredBase members _ _ _ base
  exact ⟨rfl, textMember_eq_ok.1 named,
    (front.append (passes_initializers members between)).append behind⟩

end visits

section tasks

variable {options : Options} {members : Json.Members} {json : Json} {before after : Seen}

private theorem text?_of_textMember {name context s : String}
    (read : textMember members name context = .ok s) :
    (members.last? name).bind Json.text? = some s := by
  rw [textMember_eq_ok.1 read]
  rfl

/-- The kinds of declarations are not those of other forms. -/
theorem declaration?_of_form {kind : String} {form : TypeForm}
    (stated : (members.last? "kind").bind Json.text? = some kind)
    (known : TypeForm.names.lookup kind = some form) : declaration? members = none := by
  rw [declaration?, stated]
  cases declared : DeclarationKind.ofName? kind with
  | none => simp [declared]
  | some found =>
    unfold DeclarationKind.ofName? at declared
    have same : found.name = kind := by simpa using List.find?_some declared
    rw [← same, lookup_declared] at known
    cases known

private theorem visits_formType {kind : String} {form : TypeForm}
    (stated : (members.last? "kind").bind Json.text? = some kind)
    (known : TypeForm.names.lookup kind = some form) :
    Visits options (formType options members kind form) (typeParts members) := by
  unfold typeParts
  rw [stated]
  dsimp only
  rw [known]
  cases form with
  | optional => exact (visits_memberType members "type").last fun _ => .pure _
  | variableArray => exact (visits_memberType members "type").last fun _ => .pure _
  | constantArray =>
    exact .step fun _ _ => (visits_memberType members "type").last fun _ => .pure _
  | dictionary =>
    exact (visits_memberType members "key").bind fun _ =>
      (visits_memberType members "value").last fun _ => .pure _
  | reference => exact .step fun _ _ => (visits_memberType members "type").last fun _ => .pure _
  | intersection => exact (visits_memberTypes members "types").last fun _ => .pure _
  | restriction =>
    dsimp only [formType]
    split
    next =>
      refine (visits_statedType members "type").bind fun base => ?_
      cases base with
      | some base => exact (visits_memberTypes members "restrictions").last fun _ => .pure _
      | none => exact (visits_memberTypes members "restrictions").last fun _ => .pure _
    next => exact .throw _
  | capability =>
    refine (visits_statedType members "type").last fun borrowed => ?_
    cases borrowed with
    | some borrowed => exact .pure _
    | none => exact .pure _
  | inclusiveRange => exact (visits_memberType members "element").last fun _ => .pure _
  | function =>
    dsimp only [formType]
    split
    next => exact (visits_functionType members).last fun _ => .pure _
    next => exact .pure _

private theorem wordType_passes {kind : String} {type : StaticType}
    (stated : (members.last? "kind").bind Json.text? = some kind)
    (known : TypeForm.names.lookup kind = none)
    (read : Yields (wordType options members kind) before type after) :
    Threads (Passes options) (typeParts members)
      (recorded (declaration? members).toList ++ before) after := by
  unfold typeParts
  rw [stated]
  dsimp only
  rw [known]
  unfold wordType at read
  cases declared : DeclarationKind.ofName? kind with
  | some _ =>
    rw [declared] at read
    obtain ⟨type, _, found, done⟩ := yields_bind.1 read
    obtain ⟨-, rfl⟩ := yields_pure.1 done
    obtain ⟨rfl, id, passed⟩ := nominalType_passes found
    have own : declaration? members = some type := by
      simp [declaration?, stated, declared, id, Json.text?]
    rw [own]
    exact passed
  | none =>
    rw [declared] at read
    have own : declaration? members = none := by
      simp [declaration?, stated, declared]
    rw [own]
    cases simple : SimpleType.ofId? kind with
    | some type =>
      rw [simple] at read
      obtain ⟨-, rfl⟩ := yields_pure.1 read
      exact .nil
    | none =>
      rw [simple] at read
      exact absurd read not_yields_throw

private theorem staticType_passes {type : StaticType}
    (read : Yields (staticType options json) before type after) :
    Threads (Passes options) (parts options (.type json)) (recorded (own (.type json)) ++ before)
      after := by
  rw [staticType_steps] at read
  cases text : json.text? with
  | some id =>
    rw [text] at read
    cases json with
    | string s => exact visits_typeReference id _ _ _ read
    | _ => cases text
  | none =>
    rw [text] at read
    obtain ⟨part, found, inner⟩ := yields_lift_bind.1 read
    obtain ⟨kind, named, rest⟩ := yields_lift_bind.1 inner
    have stated := text?_of_textMember named
    rw [parts, own, membersOf_of_object found]
    cases known : TypeForm.names.lookup kind with
    | none =>
      rw [known] at rest
      exact wordType_passes stated known rest
    | some form =>
      rw [known] at rest
      rw [declaration?_of_form stated known]
      exact visits_formType stated known _ _ _ rest

private theorem value_passes {v : Value} (read : Yields (value options json) before v after) :
    Threads (Passes options) (parts options (.value json)) before after := by
  rw [value.eq_def] at read
  obtain ⟨part, found, inner⟩ := yields_lift_bind.1 read
  obtain ⟨name, named, rest⟩ := yields_lift_bind.1 inner
  have stated := text?_of_textMember named
  rw [parts, membersOf_of_object found]
  unfold valueParts
  rw [stated, show some name >>= ValueKind.ofName? = ValueKind.ofName? name from rfl]
  refine (?_ : Visits options _ _) before v after rest
  split
  next void =>
    rw [void, ValueKind.ofName?_name]
    cases part.val.last? "value" with
    | none => exact .pure _
    | some payload => exact .pure _
  next =>
    refine .step fun inside there => ?_
    rw [member_eq_ok.1 there]
    obtain ⟨payload, smaller⟩ := inside
    cases ValueKind.ofName? name with
    | none => exact .throw _
    | some kind =>
      cases kind with
      | optional =>
        cases payload with
        | null => exact .pure _
        | _ => exact (visits_value _).last fun _ => .pure _
      | array =>
        refine .step fun list listed => ?_
        dsimp only [payloadParts]
        rw [itemsOf_of_array listed]
        exact (visits_values list.val).last fun _ => .pure _
      | dictionary =>
        refine .step fun list listed => ?_
        dsimp only [payloadParts]
        rw [itemsOf_of_array listed]
        exact (visits_entries list.val).last fun _ => .pure _
      | composite kind =>
        dsimp only
        split
        next => exact .throw _
        next => exact visits_composite kind payload
      | capability => exact visits_capability payload
      | type => exact visits_typeValue payload
      | function => exact visits_functionValue payload
      | inclusiveRange => exact visits_range payload
      | bool | string | character | address | integer | fixedPoint | path => exact visits_lift _
      | void | bytes => exact .throw _

/-- Whatever a task declares has been seen once what is within it is read, and within it nothing is
read but its parts. -/
theorem Reads.passes {task : Task} (read : Reads options task before after) :
    Threads (Passes options) (parts options task) (recorded (own task) ++ before) after := by
  cases task with
  | value json =>
    obtain ⟨v, found⟩ := read
    exact value_passes found
  | type json =>
    obtain ⟨type, found⟩ := read
    exact staticType_passes found

end tasks

end CadenceWire.JsonCdc
