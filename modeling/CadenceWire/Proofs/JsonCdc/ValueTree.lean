import CadenceWire.JsonCdc.Value
import CadenceWire.Proofs.JsonCdc.TypeTree

/-!
The JSON trees of values. Every tree of a value is read as that value, with the older forms allowed
if there are any in it.
-/
namespace CadenceWire.JsonCdc

/-- What a member says of a type that may be unknown. -/
inductive StatedTree (older : Bool) (members : Json.Members) (name : String) :
    Seen → Option StaticType → Seen → Prop
  | unstated {before : Seen} (unstated : Unstated members name) :
      StatedTree older members name before none before
  | stated {before after : Seen} {type : StaticType} {json : Json}
      (found : members.last? name = some json) (inner : TypeTree older before type json after) :
      StatedTree older members name before (some type) after

mutual

/-- The tree stands for the value. Declared types that are written out in it have been seen behind
it. Older forms occur only if they are allowed. -/
inductive ValueTree (older : Bool) : Seen → Value → Json → Seen → Prop
  | void {before : Seen} {members : Json.Members}
      (kind : members.last? "type" = some (.string "Void")) :
      ValueTree older before .void (.object members) before
  | valued {before after : Seen} {v : Value} {members : Json.Members} {json : Json}
      (kind : members.last? "type" = some (.string v.kind.name))
      (found : members.last? "value" = some json)
      (inner : PayloadTree older before v json after) :
      ValueTree older before v (.object members) after

/-- What a tree holds along with the kind of the value. -/
inductive PayloadTree (older : Bool) : Seen → Value → Json → Seen → Prop
  | nil {before : Seen} : PayloadTree older before .nil .null before
  | present {before after : Seen} {v : Value} {json : Json}
      (inner : ValueTree older before v json after) :
      PayloadTree older before (.present v) json after
  | bool {before : Seen} (b : Bool) : PayloadTree older before (.bool b) (.bool b) before
  | string {before : Seen} (s : String) : PayloadTree older before (.string s) (.string s) before
  | character {before : Seen} (s : String) :
      PayloadTree older before (.character s) (.string s) before
  | address {before : Seen} (owner : Address) :
      PayloadTree older before (.address owner) (.string owner.text) before
  | integer {before : Seen} (n : Integer) :
      PayloadTree older before (.integer n) (.string n.text) before
  | fixedPoint {before : Seen} (n : FixedPoint) :
      PayloadTree older before (.fixedPoint n) (.string n.text) before
  | array {before after : Seen} {elements : List Value} {items : List Json}
      (inner : ValueTrees older before elements items after) :
      PayloadTree older before (.array elements) (.array items) after
  | dictionary {before after : Seen} {pairs : List (Value × Value)} {items : List Json}
      (inner : EntryTrees older before pairs items after) :
      PayloadTree older before (.dictionary pairs) (.array items) after
  | composite {before after : Seen} {declared : NominalType} {parts : List (Field × Value)}
      {members : Json.Members} {items : List Json} (concrete : declared.kind.isInterface = false)
      (id : members.last? "id" = some (.string declared.id))
      (found : members.last? "fields" = some (.array items))
      (inner : PartTrees older before parts items after) :
      PayloadTree older before (.composite declared parts) (.object members) after
  | path {before : Seen} {place : Path} {members : Json.Members}
      (domain : members.last? "domain" = some (.string place.domain.identifier))
      (identifier : members.last? "identifier" = some (.string place.identifier)) :
      PayloadTree older before (.path place) (.object members) before
  | capability {before after : Seen} {id : UInt64} {holder : Address} {borrowed : Option StaticType}
      {members : Json.Members}
      (number : members.last? "id" = some (.string (Decimal.ofNat id.toNat)))
      (owner : members.last? "address" = some (.string holder.text))
      (inner : StatedTree older members "borrowType" before borrowed after) :
      PayloadTree older before (.capability ⟨id, holder, borrowed, none⟩) (.object members) after
  | pathCapability {before between after : Seen} {place : Path} {holder : Address}
      {borrowed : Option StaticType} {members : Json.Members} {json : Json}
      (allowed : older = true) (unnumbered : members.last? "id" = none)
      (found : members.last? "path" = some json)
      (target : ValueTree older before (.path place) json between)
      (owner : members.last? "address" = some (.string holder.text))
      (inner : StatedTree older members "borrowType" between borrowed after) :
      PayloadTree older before (.capability ⟨0, holder, borrowed, some place⟩) (.object members)
        after
  | type {before after : Seen} {known : Option StaticType} {members : Json.Members}
      (inner : StatedTree older members "staticType" before known after) :
      PayloadTree older before (.type known) (.object members) after
  | function {before after : Seen} {signature : FunctionType} {members : Json.Members} {json : Json}
      (found : members.last? "functionType" = some json)
      (inner : TypeTree older before (.function signature) json after) :
      PayloadTree older before (.function signature) (.object members) after
  | range {before second third after : Seen} {start stop step : Value} {members : Json.Members}
      {startTree stopTree stepTree : Json} (foundStart : members.last? "start" = some startTree)
      (first : ValueTree older before start startTree second)
      (foundStop : members.last? "end" = some stopTree)
      (last : ValueTree older second stop stopTree third)
      (foundStep : members.last? "step" = some stepTree)
      (difference : ValueTree older third step stepTree after) :
      PayloadTree older before (.range start stop step) (.object members) after

inductive ValueTrees (older : Bool) : Seen → List Value → List Json → Seen → Prop
  | nil {before : Seen} : ValueTrees older before [] [] before
  | cons {before between after : Seen} {v : Value} {elements : List Value} {json : Json}
      {items : List Json} (head : ValueTree older before v json between)
      (tail : ValueTrees older between elements items after) :
      ValueTrees older before (v :: elements) (json :: items) after

inductive EntryTrees (older : Bool) : Seen → List (Value × Value) → List Json → Seen → Prop
  | nil {before : Seen} : EntryTrees older before [] [] before
  | cons {before middle between after : Seen} {key v : Value} {pairs : List (Value × Value)}
      {members : Json.Members} {first second : Json} {items : List Json}
      (foundKey : members.last? "key" = some first) (name : ValueTree older before key first middle)
      (found : members.last? "value" = some second)
      (head : ValueTree older middle v second between)
      (tail : EntryTrees older between pairs items after) :
      EntryTrees older before ((key, v) :: pairs) (.object members :: items) after

/-- The fields of a composite, which come without their types. -/
inductive PartTrees (older : Bool) : Seen → List (Field × Value) → List Json → Seen → Prop
  | nil {before : Seen} : PartTrees older before [] [] before
  | cons {before between after : Seen} {name : String} {v : Value} {parts : List (Field × Value)}
      {members : Json.Members} {json : Json} {items : List Json}
      (called : members.last? "name" = some (.string name))
      (found : members.last? "value" = some json) (head : ValueTree older before v json between)
      (tail : PartTrees older between parts items after) :
      PartTrees older before ((⟨name, none⟩, v) :: parts) (.object members :: items) after

end

section members

variable {options : Options} {members : Json.Members} {name : String} {json : Json}

private theorem memberValue_of_last? (found : members.last? name = some json) (context : String) :
    memberValue options members name context = value options json := by
  rw [memberValue.eq_def, member_of_last? found]
  rfl

theorem address_text (holder : Address) : address options (.string holder.text) = .ok holder := by
  have digits : addressDigits? options holder.text.toList = some holder.hex.toList := by
    rw [Address.text, String.toList_append]
    rfl
  simp only [address, string, Json.text?, bind, Except.bind, digits, Option.bind_some,
    Address.ofDigits?_hex]
  rfl

private theorem integer_text (n : Integer) : integer options n.kind (.string n.text) = .ok n := by
  simp only [integer, numberText, bind, Except.bind, Integer.ofLiteral?_text]
  rfl

private theorem fixedPoint_text (n : FixedPoint) :
    fixedPoint options n.kind (.string n.text) = .ok n := by
  simp only [fixedPoint, numberText, bind, Except.bind, FixedPoint.ofLiteral?_text]
  rfl

private theorem capabilityId_of_last? {id : UInt64}
    (found : members.last? "id" = some (.string (Decimal.ofNat id.toNat))) :
    capabilityTarget.capabilityId options members = .ok id := by
  have holds : (IntegerKind.uintOf .w64).Holds id.toNat := by
    have small : id.toNat < 2 ^ 64 := id.toNat_lt
    simp only [IntegerKind.Holds, IntegerKind.min, IntegerKind.max, Width.count, Width.bits]
    omega
  have text : Decimal.ofInt id.toNat = Decimal.ofNat id.toNat := by
    rw [Decimal.ofInt, if_neg (by omega), Int.natAbs_natCast]
  have read : integer options (.uintOf .w64) (.string (Decimal.ofInt id.toNat)) =
      .ok ⟨.uintOf .w64, id.toNat, holds⟩ := integer_text ⟨.uintOf .w64, id.toNat, holds⟩
  rw [text] at read
  simp only [capabilityTarget.capabilityId, member_of_last? found, bind, Except.bind, read,
    Int.toNat_natCast, UInt64.ofNat_toNat]
  rfl

private theorem path_of_last? {place : Path}
    (domain : members.last? "domain" = some (.string place.domain.identifier))
    (identifier : members.last? "identifier" = some (.string place.identifier)) :
    path (.object members) = .ok place := by
  simp only [path, object, textMember_of_last? domain, textMember_of_last? identifier, bind,
    Except.bind, PathDomain.ofIdentifier?_identifier]
  rfl

theorem StatedTree.yields {older : Bool} (allowed : older = true → options.olderForms = true)
    {before after : Seen} {known : Option StaticType}
    (tree : StatedTree older members name before known after) :
    Yields (statedType options members name) before known after := by
  cases tree with
  | unstated unstated => simp [statedType_of_unstated unstated]
  | stated found inner =>
    rw [statedType_of_last? found inner.stated.1 inner.stated.2]
    exact yields_map.2 ⟨_, inner.yields allowed, rfl⟩

end members

theorem ValueTree.object_of {older : Bool} {before after : Seen} {v : Value} {json : Json}
    (tree : ValueTree older before v json after) : ∃ members, json = .object members := by
  cases tree <;> exact ⟨_, rfl⟩

theorem ValueKind.name_ne_void {kind : ValueKind} (other : kind ≠ .void) :
    kind.name ≠ ValueKind.void.name := by
  intro same
  have found := ValueKind.ofName?_name kind
  rw [same, ValueKind.ofName?_name] at found
  exact other (Option.some.inj found).symm

/-- What the payload of a value is read by, once its kind is known. -/
def payload (options : Options) : ValueKind → Json → Reading Value
  | .optional, .null => return .nil
  | .optional, json => .present <$> value options json
  | .array, json => do return .array (← values options (← array "Array" json))
  | .dictionary, json => do return .dictionary (← entries options (← array "Dictionary" json))
  | .composite kind, json => composite options kind json
  | .capability, json => capability options json
  | .type, json => typeValue options json
  | .function, json => functionValue options json
  | .inclusiveRange, json => range options json
  | kind, json =>
    match scalar? options kind json with
    | some read => read
    | none => throw (.unknownValueKind kind.name)

section reading

variable {older : Bool} {options : Options}

theorem value_of_last? {kind : ValueKind} {members : Json.Members} {json : Json}
    (named : members.last? "type" = some (.string kind.name))
    (found : members.last? "value" = some json) (stated : kind ≠ .void)
    (concrete : ∀ declared, kind = .composite declared → declared.isInterface = false) :
    value options (.object members) = payload options kind json := by
  rw [value.eq_def]
  simp only [object, liftM_ok, pure_bind, textMember_of_last? named, member_of_last? found,
    ValueKind.ofName?_name, if_neg (ValueKind.name_ne_void stated)]
  cases kind with
  | optional => cases json <;> simp [payload]
  | composite kind => simp [payload, concrete kind rfl]
  | _ => rfl

theorem PayloadTree.kind_ne_void {before after : Seen} {v : Value} {json : Json}
    (tree : PayloadTree older before v json after) : v.kind ≠ .void := by
  cases tree <;> simp [Value.kind]

theorem PayloadTree.concrete {before after : Seen} {v : Value} {json : Json}
    (tree : PayloadTree older before v json after) :
    ∀ declared, v.kind = .composite declared → declared.isInterface = false := by
  intro declared
  cases tree with
  | composite concrete _ _ _ => rintro ⟨⟩; exact concrete
  | _ => nofun

mutual

theorem ValueTree.yields (allowed : older = true → options.olderForms = true) {before after : Seen}
    {v : Value} {json : Json} (tree : ValueTree older before v json after) :
    Yields (value options json) before v after := by
  match tree with
  | .void kind =>
    rw [value.eq_def]
    simp only [object, liftM_ok, pure_bind, textMember_of_last? kind]
    exact .pure _ _
  | .valued kind found inner =>
    rw [value_of_last? kind found inner.kind_ne_void inner.concrete]
    exact inner.yields allowed

theorem PayloadTree.yields (allowed : older = true → options.olderForms = true)
    {before after : Seen} {v : Value} {json : Json} (tree : PayloadTree older before v json after) :
    Yields (payload options v.kind json) before v after := by
  match tree with
  | .nil | .bool _ | .string _ | .character _ => exact .pure _ _
  | .present inner =>
    have read := inner.yields allowed
    obtain ⟨members, rfl⟩ := inner.object_of
    exact read.map Value.present
  | .address owner =>
    exact .lift (congrArg (Value.address <$> ·) (address_text owner)) _
  | .integer n =>
    exact .lift (congrArg (Value.integer <$> ·) (integer_text n)) _
  | .fixedPoint n =>
    exact .lift (congrArg (Value.fixedPoint <$> ·) (fixedPoint_text n)) _
  | .array inner | .dictionary inner =>
    have read := inner.yields allowed
    simp only [Value.kind, payload, array, liftM_ok, pure_bind]
    exact read.bind (.pure _ _)
  | .composite _ id found inner =>
    have read := inner.yields allowed
    rw [Value.kind, payload, composite.eq_def]
    simp only [object, textMember_of_last? id, member_of_last? found, array, liftM_ok, pure_bind]
    exact read.bind (.pure _ _)
  | .path domain identifier =>
    have read := path_of_last? domain identifier
    exact .lift (congrArg (Value.path <$> ·) read) _
  | @PayloadTree.capability _ _ _ id _ _ members number owner inner =>
    have known := inner.yields allowed
    -- With an identifier there, it does not matter whether older forms are allowed.
    have target : capabilityTarget options members = pure (id, none) := by
      have numbered : members.has "id" = true := by
        rw [Json.Members.has, number]
        rfl
      rw [capabilityTarget.eq_def, capabilityId_of_last? number]
      simp only [numbered, Bool.not_true, Bool.and_false]
      split <;> rfl
    rw [Value.kind, payload, capability.eq_def]
    simp only [object, target, member_of_last? owner, address_text, liftM_ok, pure_bind]
    exact known.bind (.pure _ _)
  | @PayloadTree.pathCapability _ _ between _ place _ _ members json isOlder unnumbered found target
      owner inner =>
    have aimed := target.yields allowed
    have known := inner.yields allowed
    have named : Yields (capabilityTarget options members) before (0, some place) between := by
      have missing : members.has "id" = false := by
        rw [Json.Members.has, unnumbered]
        rfl
      rw [capabilityTarget.eq_def, Json.Members.part?_of_last? found]
      simp only [missing, allowed isOlder, Bool.not_false, Bool.and_true, if_true]
      exact aimed.bind (.pure _ _)
    rw [Value.kind, payload, capability.eq_def]
    simp only [object, member_of_last? owner, address_text, liftM_ok, pure_bind]
    exact named.bind (known.bind (.pure _ _))
  | .type inner =>
    have known := inner.yields allowed
    rw [Value.kind, payload, typeValue]
    simp only [object, liftM_ok, pure_bind]
    exact known.bind (.pure _ _)
  | .function found inner =>
    have read := inner.yields allowed
    rw [Value.kind, payload, functionValue]
    simp only [object, member_of_last? found, liftM_ok, pure_bind]
    exact read.bind (.pure _ _)
  | .range foundStart first foundStop last foundStep difference =>
    have start := first.yields allowed
    have stop := last.yields allowed
    have step := difference.yields allowed
    rw [Value.kind, payload, range.eq_def]
    simp only [object, memberValue_of_last? foundStart, memberValue_of_last? foundStop,
      memberValue_of_last? foundStep, liftM_ok, pure_bind]
    exact start.bind (stop.bind (step.bind (.pure _ _)))

theorem ValueTrees.yields (allowed : older = true → options.olderForms = true)
    {before after : Seen} {elements : List Value} {items : List Json}
    (trees : ValueTrees older before elements items after) :
    Yields (values options items) before elements after := by
  match trees with
  | .nil =>
    rw [values.eq_def]
    exact .pure _ _
  | .cons head tail =>
    have first := head.yields allowed
    have others := tail.yields allowed
    rw [values.eq_def]
    exact first.bind (others.bind (.pure _ _))

theorem EntryTrees.yields (allowed : older = true → options.olderForms = true)
    {before after : Seen} {pairs : List (Value × Value)} {items : List Json}
    (trees : EntryTrees older before pairs items after) :
    Yields (entries options items) before pairs after := by
  match trees with
  | .nil =>
    rw [entries.eq_def]
    exact .pure _ _
  | .cons foundKey name found head tail =>
    have key := name.yields allowed
    have first := head.yields allowed
    have others := tail.yields allowed
    rw [entries.eq_def]
    simp only [object, memberValue_of_last? foundKey, memberValue_of_last? found, liftM_ok,
      pure_bind]
    exact key.bind (first.bind (others.bind (.pure _ _)))

theorem PartTrees.yields (allowed : older = true → options.olderForms = true)
    {before after : Seen} {parts : List (Field × Value)} {items : List Json}
    (trees : PartTrees older before parts items after) :
    Yields (fields options items) before parts after := by
  match trees with
  | .nil =>
    rw [fields.eq_def]
    exact .pure _ _
  | .cons called found head tail =>
    have first := head.yields allowed
    have others := tail.yields allowed
    rw [fields.eq_def]
    simp only [object, textMember_of_last? called, memberValue_of_last? found, liftM_ok, pure_bind]
    exact first.bind (others.bind (.pure _ _))

end

end reading

end CadenceWire.JsonCdc
