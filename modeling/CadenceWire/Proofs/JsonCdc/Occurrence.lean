import CadenceWire.JsonCdc.Value
import CadenceWire.Proofs.JsonCdc.Declaration

/-!
Where a payload has values and types, in the order of the encoding, and which types it declares
there. Readers pass over the types in initializers.
-/
namespace CadenceWire.JsonCdc

/-- What a reader is to read. -/
inductive Task where
  | value (json : Json)
  | type (json : Json)

def Task.json : Task → Json
  | value json | type json => json

/-- A place within another at which there is something to read, unless it is in an initializer. -/
structure Position where
  task : Task
  inInitializer : Bool

/-- A declaration of a type within a payload. -/
structure Occurrence where
  type : NominalType
  inInitializer : Bool

/-! What members hold, if they hold anything of the form. -/
section members

def membersOf : Json → Json.Members
  | .object members => members
  | _ => []

def itemsOf (json : Json) : List Json := json.items?.getD []

def memberOf (members : Json.Members) (name : String) : List Json :=
  (members.last? name).toList

def statedOf (members : Json.Members) (name : String) : List Json :=
  ((stated? members name).map Subtype.val).toList

def listOf (members : Json.Members) (name : String) : List Json :=
  (memberOf members name).flatMap itemsOf

def baseOf (members : Json.Members) : List Json :=
  (memberOf members "type").filter (·.text? ≠ some "")

/-- The members of a name in each of the items. -/
def eachOf (items : List Json) (name : String) : List Json :=
  items.flatMap fun item => memberOf (membersOf item) name

end members

def valuesAt (jsons : List Json) : List Position := jsons.map fun json => ⟨.value json, false⟩

def typesAt (jsons : List Json) : List Position := jsons.map fun json => ⟨.type json, false⟩

/-- The types of the parameters of all initializers. -/
def initializers (members : Json.Members) : List Position :=
  (listOf members "initializers").flatMap fun list =>
    (eachOf (itemsOf list) "type").map fun json => ⟨.type json, true⟩

/-- The types that the members of a type hold, those of fields in front of those of initializers. -/
def typeParts (members : Json.Members) : List Position :=
  match (members.last? "kind").bind Json.text? with
  | none => []
  | some kind =>
    match TypeForm.names.lookup kind with
    | some .optional | some .variableArray | some .constantArray | some .reference =>
      typesAt (memberOf members "type")
    | some .dictionary => typesAt (memberOf members "key") ++ typesAt (memberOf members "value")
    | some .intersection => typesAt (listOf members "types")
    | some .restriction =>
      typesAt (statedOf members "type") ++ typesAt (listOf members "restrictions")
    | some .capability => typesAt (statedOf members "type")
    | some .inclusiveRange => typesAt (memberOf members "element")
    | some .function =>
      if members.has "return" then
        typesAt ((listOf members "typeParameters").flatMap fun item =>
          statedOf (membersOf item) "typeBound") ++
        typesAt (eachOf (listOf members "parameters") "type") ++ typesAt (memberOf members "return")
      else []
    | none =>
      match DeclarationKind.ofName? kind with
      | some _ =>
        typesAt (eachOf (listOf members "fields") "type") ++ initializers members ++
          typesAt (baseOf members)
      | none => []

/-- The values and types that a payload of a kind holds. The path of a capability is a value in the
older form. -/
def payloadParts (options : Options) (kind : ValueKind) (json : Json) : List Position :=
  match kind with
  | .optional => match json with
    | .null => []
    | _ => valuesAt [json]
  | .array => valuesAt (itemsOf json)
  | .dictionary => (itemsOf json).flatMap fun item =>
    valuesAt (memberOf (membersOf item) "key") ++ valuesAt (memberOf (membersOf item) "value")
  | .composite _ => valuesAt (eachOf (listOf (membersOf json) "fields") "value")
  | .capability =>
    (if options.olderForms && !(membersOf json).has "id" then
      valuesAt (memberOf (membersOf json) "path") else []) ++
      typesAt (statedOf (membersOf json) "borrowType")
  | .type => typesAt (statedOf (membersOf json) "staticType")
  | .function => typesAt (memberOf (membersOf json) "functionType")
  | .inclusiveRange =>
    valuesAt (memberOf (membersOf json) "start") ++ valuesAt (memberOf (membersOf json) "end") ++
      valuesAt (memberOf (membersOf json) "step")
  | _ => []

def valueParts (options : Options) (members : Json.Members) : List Position :=
  match (members.last? "type").bind Json.text? >>= ValueKind.ofName?, members.last? "value" with
  | some kind, some json => payloadParts options kind json
  | _, _ => []

def parts (options : Options) : Task → List Position
  | .value json => valueParts options (membersOf json)
  | .type json => typeParts (membersOf json)

/-- What the members of a type declare, apart from what the types within it do. -/
def declaration? (members : Json.Members) : Option NominalType := do
  let kind ← DeclarationKind.ofName? (← (members.last? "kind").bind Json.text?)
  let id ← (members.last? "typeID").bind Json.text?
  return ⟨kind, id⟩

def own : Task → List NominalType
  | .value _ => []
  | .type json => (declaration? (membersOf json)).toList

/-- What is recorded of declared types: each beside its identifier. -/
def recorded (types : List NominalType) : Seen := types.map fun type => (type.id, .nominal type)

/-! Whatever lies within something is smaller. -/
section size

variable {members : Json.Members} {name : String} {json item : Json} {items : List Json}
  {bound : Nat}

private theorem sizeOf_membersOf_le (json : Json) : sizeOf (membersOf json) ≤ sizeOf json := by
  cases json <;> simp [membersOf]

private theorem sizeOf_lt_of_mem_memberOf (member : json ∈ memberOf members name) :
    sizeOf json < sizeOf members :=
  Json.Members.sizeOf_last? (Option.mem_toList.1 member)

private theorem sizeOf_lt_of_mem_statedOf (member : json ∈ statedOf members name) :
    sizeOf json < sizeOf members := by
  obtain ⟨part, -, rfl⟩ := Option.map_eq_some_iff.1 (Option.mem_toList.1 member)
  exact part.property

private theorem sizeOf_lt_of_mem_itemsOf (member : item ∈ itemsOf json) :
    sizeOf item < sizeOf json := by
  cases json with
  | array items =>
    have inside := List.sizeOf_lt_of_mem (show item ∈ items from member)
    rw [Json.array.sizeOf_spec]
    omega
  | _ => cases member

private theorem sizeOf_lt_of_mem_listOf (member : item ∈ listOf members name) :
    sizeOf item < sizeOf members := by
  obtain ⟨list, found, inside⟩ := List.mem_flatMap.1 member
  exact Nat.lt_trans (sizeOf_lt_of_mem_itemsOf inside) (sizeOf_lt_of_mem_memberOf found)

private theorem sizeOf_lt_of_mem_eachOf (small : ∀ item ∈ items, sizeOf item < bound)
    (member : json ∈ eachOf items name) : sizeOf json < bound := by
  obtain ⟨item, listed, inside⟩ := List.mem_flatMap.1 member
  have smaller := sizeOf_lt_of_mem_memberOf inside
  have within := sizeOf_membersOf_le item
  have whole := small item listed
  omega

/-- What there is to read at the positions is smaller than the bound. -/
def Below (bound : Nat) (positions : List Position) : Prop :=
  ∀ p ∈ positions, sizeOf p.task.json < bound

private theorem below_nil : Below bound [] := by
  intro p member
  cases member

theorem Below.append {first second : List Position} (left : Below bound first)
    (right : Below bound second) : Below bound (first ++ second) := by
  intro p member
  rcases List.mem_append.1 member with inside | inside
  · exact left p inside
  · exact right p inside

theorem Below.mono {positions : List Position} {wider : Nat} (below : Below bound positions)
    (within : bound ≤ wider) : Below wider positions := by
  intro p member
  exact Nat.lt_of_lt_of_le (below p member) within

private theorem below_types (small : ∀ json ∈ items, sizeOf json < bound) :
    Below bound (typesAt items) := by
  intro p member
  obtain ⟨json, listed, rfl⟩ := List.mem_map.1 member
  exact small json listed

private theorem below_values (small : ∀ json ∈ items, sizeOf json < bound) :
    Below bound (valuesAt items) := by
  intro p member
  obtain ⟨json, listed, rfl⟩ := List.mem_map.1 member
  exact small json listed

private theorem below_memberType (name : String) :
    Below (sizeOf members) (typesAt (memberOf members name)) :=
  below_types fun _ => sizeOf_lt_of_mem_memberOf

private theorem below_memberValue (name : String) :
    Below (sizeOf members) (valuesAt (memberOf members name)) :=
  below_values fun _ => sizeOf_lt_of_mem_memberOf

private theorem below_statedType (name : String) :
    Below (sizeOf members) (typesAt (statedOf members name)) :=
  below_types fun _ => sizeOf_lt_of_mem_statedOf

private theorem below_initializers : Below (sizeOf members) (initializers members) := by
  intro p member
  obtain ⟨list, listed, inside⟩ := List.mem_flatMap.1 member
  obtain ⟨json, each, rfl⟩ := List.mem_map.1 inside
  have smaller := sizeOf_lt_of_mem_listOf listed
  exact Nat.lt_trans (sizeOf_lt_of_mem_eachOf (fun _ => sizeOf_lt_of_mem_itemsOf) each) smaller

private theorem below_typeParts : Below (sizeOf members) (typeParts members) := by
  have several (name : String) : Below (sizeOf members) (typesAt (listOf members name)) :=
    below_types fun _ => sizeOf_lt_of_mem_listOf
  have each (list name : String) :
      Below (sizeOf members) (typesAt (eachOf (listOf members list) name)) :=
    below_types fun _ => sizeOf_lt_of_mem_eachOf fun _ => sizeOf_lt_of_mem_listOf
  have bounds : Below (sizeOf members) (typesAt ((listOf members "typeParameters").flatMap
      fun item => statedOf (membersOf item) "typeBound")) := by
    refine below_types fun json member => ?_
    obtain ⟨item, listed, inside⟩ := List.mem_flatMap.1 member
    have smaller := sizeOf_lt_of_mem_statedOf inside
    have within := sizeOf_membersOf_le item
    have whole := sizeOf_lt_of_mem_listOf listed
    omega
  have base : Below (sizeOf members) (typesAt (baseOf members)) :=
    below_types fun _ member => sizeOf_lt_of_mem_memberOf (List.mem_filter.1 member).1
  unfold typeParts
  split
  next => exact below_nil
  next =>
    split
    next => exact below_memberType "type"
    next => exact below_memberType "type"
    next => exact below_memberType "type"
    next => exact below_memberType "type"
    next => exact (below_memberType "key").append (below_memberType "value")
    next => exact several "types"
    next => exact (below_statedType "type").append (several "restrictions")
    next => exact below_statedType "type"
    next => exact below_memberType "element"
    next =>
      split
      next =>
        exact (bounds.append (each "parameters" "type")).append (below_memberType "return")
      next => exact below_nil
    next =>
      split
      next => exact ((each "fields" "type").append below_initializers).append base
      next => exact below_nil

/-- An optional value that is there is the whole of its payload. -/
theorem below_payloadParts (options : Options) (kind : ValueKind) (json : Json) :
    Below (sizeOf json + 1) (payloadParts options kind json) := by
  have members : sizeOf (membersOf json) ≤ sizeOf json + 1 :=
    Nat.le_succ_of_le (sizeOf_membersOf_le json)
  cases kind with
  | optional =>
    cases json with
    | null => exact below_nil
    | _ => exact below_values fun part member => List.mem_singleton.1 member ▸ Nat.lt_succ_self _
  | array =>
    exact below_values fun _ member => Nat.lt_succ_of_lt (sizeOf_lt_of_mem_itemsOf member)
  | dictionary =>
    intro p member
    obtain ⟨item, listed, inside⟩ := List.mem_flatMap.1 member
    have smaller := sizeOf_lt_of_mem_itemsOf listed
    have within := sizeOf_membersOf_le item
    have entry := (below_memberValue "key").append (below_memberValue "value") p inside
    omega
  | composite =>
    refine Below.mono (below_values fun part member => ?_) members
    exact sizeOf_lt_of_mem_eachOf (fun _ => sizeOf_lt_of_mem_listOf) member
  | capability =>
    refine Below.append ?_ ((below_statedType "borrowType").mono members)
    split
    next => exact (below_memberValue "path").mono members
    next => exact below_nil
  | type => exact (below_statedType "staticType").mono members
  | function => exact (below_memberType "functionType").mono members
  | inclusiveRange =>
    exact (((below_memberValue "start").append (below_memberValue "end")).append
      (below_memberValue "step")).mono members
  | _ => exact below_nil

theorem sizeOf_lt_of_mem_parts {options : Options} {task : Task} {p : Position}
    (member : p ∈ parts options task) : sizeOf p.task.json < sizeOf task.json := by
  cases task with
  | type json =>
    exact Nat.lt_of_lt_of_le (below_typeParts p member) (sizeOf_membersOf_le json)
  | value json =>
    have within := sizeOf_membersOf_le json
    unfold parts valueParts at member
    dsimp only at member
    split at member
    next kind payload _ found =>
      have smaller := below_payloadParts options kind payload p member
      have whole := Json.Members.sizeOf_last? found
      show _ < sizeOf json
      omega
    next => cases member

end size

/-- An occurrence as it is within a position. -/
def Position.mark (p : Position) (occurrence : Occurrence) : Occurrence :=
  { occurrence with inInitializer := p.inInitializer || occurrence.inInitializer }

/-- The types that are declared within a task, in the order of the encoding. -/
def declarations (options : Options) (task : Task) : List Occurrence :=
  (own task).map (⟨·, false⟩) ++ (parts options task).attach.flatMap fun ⟨p, _⟩ =>
    (declarations options p.task).map p.mark
termination_by sizeOf task.json
decreasing_by
  rename_i member
  exact sizeOf_lt_of_mem_parts member

/-- The types that are declared at a position. -/
def Position.declarations (options : Options) (p : Position) : List Occurrence :=
  (JsonCdc.declarations options p.task).map p.mark

theorem declarations_eq (options : Options) (task : Task) :
    declarations options task =
      (own task).map (⟨·, false⟩) ++ (parts options task).flatMap (·.declarations options) := by
  rw [declarations]
  simp [Position.declarations, List.flatMap_subtype, List.unattach_attach]

end CadenceWire.JsonCdc
