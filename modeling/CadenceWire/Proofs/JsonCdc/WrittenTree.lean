import CadenceWire.Proofs.JsonCdc.ValueTree
import CadenceWire.Proofs.Value.Every

/-!
Every value that the format has a form for has a tree, and is decoded from any tree it has.
-/
namespace CadenceWire.JsonCdc

/-- The format has a form for the type as such, of the older ones only if they are allowed. -/
def WritableType (older : Bool) : StaticType → Prop
  | .reference .legacy _ | .restricted _ _ => older = true
  | .unstructured _ => False
  | _ => True

/-- The format has a form for the value as such. Composites are written without the types of their
fields, and a capability by a path or by its identifier. -/
def Writable (older : Bool) : Value → Prop
  | .bytes _ => False
  | .composite declared parts =>
    declared.kind.isInterface = false ∧ ∀ part ∈ parts, part.1.type = none
  | .capability held =>
    (held.path.isSome = true → older = true ∧ held.id = 0) ∧
      ∀ borrowed, held.borrowType = some borrowed → borrowed.Every (WritableType older)
  | .type known => ∀ type, known = some type → type.Every (WritableType older)
  | .function signature => signature.Every (WritableType older)
  | _ => True

variable {older : Bool}

private theorem exists_entitlementsTree (entitlements : List String) (kind : String) :
    EntitlementsTree entitlements [("kind", .string kind), ("entitlements", .array
      (entitlements.map fun entitlement => .object [("typeID", .string entitlement)]))] := by
  refine ⟨_, rfl, ?_⟩
  induction entitlements with
  | nil => exact .nil
  | cons entitlement entitlements ih => exact .cons ⟨_, rfl, rfl⟩ ih

private theorem exists_authorizationTree (granted : Authorization)
    (allowed : granted = .legacy → older = true) (type : Json) :
    ∃ members : Json.Members, AuthorizationTree older members granted ∧
      members.last? "kind" = some (.string "Reference") ∧ members.last? "type" = some type := by
  cases granted with
  | legacy =>
    exact ⟨[("kind", .string "Reference"), ("authorized", .bool true), ("type", type)],
      .legacy (allowed rfl) rfl, rfl, rfl⟩
  | unauthorized =>
    exact ⟨[("kind", .string "Reference"),
      ("authorization", .object [("kind", .string "Unauthorized")]), ("type", type)],
      .unauthorized rfl rfl rfl, rfl, rfl⟩
  | conjunction entitlements =>
    exact ⟨[("kind", .string "Reference"), ("authorization", .object _), ("type", type)],
      .conjunction rfl rfl rfl
        (exists_entitlementsTree entitlements "EntitlementConjunctionSet"), rfl, rfl⟩
  | disjunction entitlements =>
    exact ⟨[("kind", .string "Reference"), ("authorization", .object _), ("type", type)],
      .disjunction rfl rfl rfl
        (exists_entitlementsTree entitlements "EntitlementDisjunctionSet"), rfl, rfl⟩
  | mapping entitlementMap =>
    exact ⟨[("kind", .string "Reference"), ("authorization", .object _), ("type", type)],
      .mapping rfl rfl rfl
        (exists_entitlementsTree [entitlementMap] "EntitlementMapAuthorization"), rfl, rfl⟩

mutual

private theorem exists_typeTree (type : StaticType) (form : type.Every (WritableType older))
    (before : Seen) : ∃ json after, TypeTree older before type json after := by
  match type with
  | .simple type =>
    exact ⟨.object [("kind", .string type.id)], before, .simple rfl fun _ => rfl⟩
  | .optional content =>
    obtain ⟨json, after, inner⟩ := exists_typeTree content form.2 before
    exact ⟨.object [("kind", .string "Optional"), ("type", json)], after, .optional rfl rfl inner⟩
  | .variableArray element =>
    obtain ⟨json, after, inner⟩ := exists_typeTree element form.2 before
    exact ⟨.object [("kind", .string "VariableSizedArray"), ("type", json)], after,
      .variableArray rfl rfl inner⟩
  | .constantArray size element =>
    obtain ⟨json, after, inner⟩ := exists_typeTree element form.2 before
    exact ⟨.object [("kind", .string "ConstantSizedArray"),
      ("size", .number (.integer size.toNat)), ("type", json)], after,
      .constantArray rfl rfl rfl inner⟩
  | .dictionary key value =>
    obtain ⟨first, between, keys⟩ := exists_typeTree key form.2.1 before
    obtain ⟨second, after, values⟩ := exists_typeTree value form.2.2 between
    exact ⟨.object [("kind", .string "Dictionary"), ("key", first), ("value", second)], after,
      .dictionary rfl rfl keys rfl values⟩
  | .reference granted referenced =>
    obtain ⟨json, after, inner⟩ := exists_typeTree referenced form.2 before
    have allowed : granted = .legacy → older = true := by
      rintro rfl
      exact form.1
    obtain ⟨members, grant, kind, found⟩ := exists_authorizationTree granted allowed json
    exact ⟨.object members, after, .reference kind grant found inner⟩
  | .intersection types =>
    obtain ⟨items, after, inner⟩ := exists_typeTrees types form.2 before
    exact ⟨.object [("kind", .string "Intersection"), ("types", .array items)], after,
      .intersection rfl rfl inner⟩
  | .restricted base types =>
    obtain ⟨json, between, outer⟩ := exists_typeTree base form.2.1 before
    obtain ⟨items, after, inner⟩ := exists_typeTrees types form.2.2 between
    exact ⟨.object [("kind", .string "Restriction"), ("type", json),
      ("restrictions", .array items)], after,
      .restricted form.1 (.inl rfl) rfl rfl outer rfl inner⟩
  | .capability =>
    exact ⟨.object [("kind", .string "Capability")], before, .capability rfl (.missing rfl)⟩
  | .capabilityOf borrowed =>
    obtain ⟨json, after, inner⟩ := exists_typeTree borrowed form.2 before
    exact ⟨.object [("kind", .string "Capability"), ("type", json)], after,
      .capabilityOf rfl rfl inner⟩
  | .inclusiveRange element =>
    obtain ⟨json, after, inner⟩ := exists_typeTree element form.2 before
    exact ⟨.object [("kind", .string "InclusiveRange"), ("element", json)], after,
      .inclusiveRange rfl rfl inner⟩
  | .nominal type =>
    exact ⟨.object [("kind", .string type.kind.name), ("typeID", .string type.id),
      ("fields", .array [])], (type.id, .nominal type) :: before,
      .declared rfl rfl rfl .nil (.missing rfl)⟩
  | .function signature =>
    obtain ⟨members, after, kind, inner⟩ := exists_signatureTree signature form.2 before
    exact ⟨.object members, after, .function kind inner⟩
  | .unstructured id => exact form.elim

theorem exists_typeTrees (types : List StaticType)
    (form : StaticType.EveryOf (WritableType older) types) (before : Seen) :
    ∃ items after, TypeTrees older before types items after := by
  match types with
  | [] => exact ⟨[], before, .nil⟩
  | type :: rest =>
    obtain ⟨json, between, head⟩ := exists_typeTree type form.1 before
    obtain ⟨items, after, tail⟩ := exists_typeTrees rest form.2 between
    exact ⟨_, _, .cons head tail⟩

private theorem exists_signatureTree (signature : FunctionType)
    (form : signature.Every (WritableType older)) (before : Seen) :
    ∃ (members : Json.Members) (after : Seen),
      members.last? "kind" = some (.string "Function") ∧
        SignatureTree older before signature members after := by
  match signature with
  | .signature isView typeParameters parameters result =>
    obtain ⟨first, middle, outer⟩ := exists_typeParameterTrees typeParameters form.1 before
    obtain ⟨second, later, inner⟩ := exists_parameterTrees parameters form.2.1 middle
    obtain ⟨third, after, last⟩ := exists_typeTree result form.2.2 later
    let members (purity : String) : Json.Members := [("kind", .string "Function"),
      ("purity", .string purity), ("typeParameters", .array first), ("parameters", .array second),
      ("return", third)]
    have written (purity : String) : SignatureTree older before
        (.signature (purity = "view") typeParameters parameters result) (members purity) after :=
      .signature rfl rfl outer rfl inner rfl last
    cases isView with
    | false => exact ⟨_, _, rfl, written ""⟩
    | true => exact ⟨_, _, rfl, written "view"⟩

theorem exists_typeParameterTrees (types : List TypeParameter)
    (form : TypeParameter.EveryOf (WritableType older) types) (before : Seen) :
    ∃ items after, TypeParameterTrees older before types items after := by
  match types with
  | [] => exact ⟨[], before, .nil⟩
  | .named name none :: rest =>
    obtain ⟨items, after, tail⟩ := exists_typeParameterTrees rest form.2 before
    exact ⟨.object [("name", .string name), ("typeBound", .null)] :: items, after,
      .unbounded (.null rfl) rfl tail⟩
  | .named name (some bound) :: rest =>
    obtain ⟨json, between, head⟩ := exists_typeTree bound form.1 before
    obtain ⟨items, after, tail⟩ := exists_typeParameterTrees rest form.2 between
    exact ⟨.object [("name", .string name), ("typeBound", json)] :: items, after,
      .bounded rfl head rfl tail⟩

theorem exists_parameterTrees (types : List Parameter)
    (form : Parameter.EveryOf (WritableType older) types) (before : Seen) :
    ∃ items after, ParameterTrees older before types items after := by
  match types with
  | [] => exact ⟨[], before, .nil⟩
  | .labelled label identifier type :: rest =>
    obtain ⟨json, between, head⟩ := exists_typeTree type form.1 before
    obtain ⟨items, after, tail⟩ := exists_parameterTrees rest form.2 between
    exact ⟨.object [("label", .string label), ("id", .string identifier), ("type", json)] :: items,
      after, .cons rfl head rfl rfl tail⟩

end

private theorem exists_statedTree {known : Option StaticType}
    (form : ∀ type, known = some type → type.Every (WritableType older)) (before : Seen) :
    ∃ json after, ∀ (members : Json.Members) (name : String), members.last? name = some json →
      StatedTree older members name before known after := by
  cases known with
  | none => exact ⟨.string "", before, fun _ _ found => .unstated (.empty found)⟩
  | some type =>
    obtain ⟨json, after, inner⟩ := exists_typeTree type (form type rfl) before
    exact ⟨json, after, fun _ _ found => .stated found inner⟩

private theorem exists_capabilityTree (held : Capability) (form : Writable older (.capability held))
    (before : Seen) : ∃ json after, PayloadTree older before (.capability held) json after := by
  obtain ⟨id, holder, borrowed, place⟩ := held
  obtain ⟨numbered, known⟩ := form
  cases place with
  | none =>
    obtain ⟨json, after, inner⟩ := exists_statedTree known before
    exact ⟨.object [("id", .string (Decimal.ofNat id.toNat)), ("address", .string holder.text),
      ("borrowType", json)], after, .capability rfl rfl (inner _ _ rfl)⟩
  | some place =>
    obtain ⟨allowed, rfl⟩ := numbered rfl
    obtain ⟨json, after, inner⟩ := exists_statedTree known before
    have target : ValueTree older before (.path place)
        (.object [("type", .string "Path"), ("value", .object
          [("domain", .string place.domain.identifier),
            ("identifier", .string place.identifier)])]) before :=
      .valued rfl rfl (.path rfl rfl)
    exact ⟨.object [("path", _), ("address", .string holder.text), ("borrowType", json)], after,
      .pathCapability allowed rfl rfl target rfl (inner _ _ rfl)⟩

def valueObject (v : Value) (payload : Json) : Json :=
  .object [("type", .string v.kind.name), ("value", payload)]

theorem PayloadTree.valued {before after : Seen} {v : Value} {payload : Json}
    (inner : PayloadTree older before v payload after) :
    ValueTree older before v (valueObject v payload) after :=
  .valued rfl rfl inner

mutual

theorem exists_valueTree (v : Value) (form : v.Every (Writable older)) (before : Seen) :
    ∃ json after, ValueTree older before v json after := by
  match v with
  | .void => exact ⟨.object [("type", .string "Void")], before, .void rfl⟩
  | .nil => exact ⟨_, _, PayloadTree.nil.valued⟩
  | .present content =>
    obtain ⟨json, after, inner⟩ := exists_valueTree content form.2 before
    exact ⟨_, _, (PayloadTree.present inner).valued⟩
  | .bool b => exact ⟨_, before, (PayloadTree.bool b).valued⟩
  | .string s => exact ⟨_, before, (PayloadTree.string s).valued⟩
  | .character s => exact ⟨_, before, (PayloadTree.character s).valued⟩
  | .bytes _ => exact form.elim
  | .address owner => exact ⟨_, before, (PayloadTree.address owner).valued⟩
  | .integer n => exact ⟨_, before, (PayloadTree.integer n).valued⟩
  | .fixedPoint n => exact ⟨_, before, (PayloadTree.fixedPoint n).valued⟩
  | .array elements =>
    obtain ⟨items, after, inner⟩ := exists_valueTrees elements form.2 before
    exact ⟨_, _, (PayloadTree.array inner).valued⟩
  | .dictionary pairs =>
    obtain ⟨items, after, inner⟩ := exists_entryTrees pairs form.2 before
    exact ⟨_, _, (PayloadTree.dictionary inner).valued⟩
  | .composite declared parts =>
    obtain ⟨items, after, inner⟩ := exists_partTrees parts form.1.2 form.2 before
    let members : Json.Members := [("id", .string declared.id), ("fields", .array items)]
    have written : PayloadTree older before (.composite declared parts) (.object members) after :=
      .composite form.1.1 rfl rfl inner
    exact ⟨_, _, written.valued⟩
  | .path place =>
    let members : Json.Members :=
      [("domain", .string place.domain.identifier), ("identifier", .string place.identifier)]
    have written : PayloadTree older before (.path place) (.object members) before := .path rfl rfl
    exact ⟨_, _, written.valued⟩
  | .capability held =>
    obtain ⟨json, after, written⟩ := exists_capabilityTree held form before
    exact ⟨_, _, written.valued⟩
  | .type known =>
    obtain ⟨json, after, inner⟩ := exists_statedTree form before
    have written : PayloadTree older before (.type known) (.object [("staticType", json)]) after :=
      .type (inner _ _ rfl)
    exact ⟨_, _, written.valued⟩
  | .function signature =>
    obtain ⟨members, after, kind, inner⟩ := exists_signatureTree signature form before
    have written : PayloadTree older before (.function signature)
        (.object [("functionType", .object members)]) after :=
      .function rfl (.function kind inner)
    exact ⟨_, _, written.valued⟩
  | .range start stop step =>
    obtain ⟨first, second, begins⟩ := exists_valueTree start form.2.1 before
    obtain ⟨last, third, ends⟩ := exists_valueTree stop form.2.2.1 second
    obtain ⟨difference, after, apart⟩ := exists_valueTree step form.2.2.2 third
    have written : PayloadTree older before (.range start stop step)
        (.object [("start", first), ("end", last), ("step", difference)]) after :=
      .range rfl begins rfl ends rfl apart
    exact ⟨_, _, written.valued⟩

theorem exists_valueTrees (elements : List Value) (form : Value.EveryOf (Writable older) elements)
    (before : Seen) : ∃ items after, ValueTrees older before elements items after := by
  match elements with
  | [] => exact ⟨[], before, .nil⟩
  | v :: rest =>
    obtain ⟨json, between, head⟩ := exists_valueTree v form.1 before
    obtain ⟨items, after, tail⟩ := exists_valueTrees rest form.2 between
    exact ⟨_, _, .cons head tail⟩

theorem exists_entryTrees (pairs : List (Value × Value))
    (form : Value.EveryEntry (Writable older) pairs) (before : Seen) :
    ∃ items after, EntryTrees older before pairs items after := by
  match pairs with
  | [] => exact ⟨[], before, .nil⟩
  | (key, v) :: rest =>
    obtain ⟨first, middle, name⟩ := exists_valueTree key form.1 before
    obtain ⟨second, between, head⟩ := exists_valueTree v form.2.1 middle
    obtain ⟨items, after, tail⟩ := exists_entryTrees rest form.2.2 between
    exact ⟨.object [("key", first), ("value", second)] :: items, after,
      .cons rfl name rfl head tail⟩

theorem exists_partTrees (parts : List (Field × Value))
    (untyped : ∀ part ∈ parts, part.1.type = none) (form : Value.EveryField (Writable older) parts)
    (before : Seen) : ∃ items after, PartTrees older before parts items after := by
  match parts with
  | [] => exact ⟨[], before, .nil⟩
  | (⟨name, type⟩, v) :: rest =>
    obtain ⟨rfl, others⟩ : type = none ∧ ∀ part ∈ rest, part.1.type = none :=
      List.forall_mem_cons.1 untyped
    obtain ⟨json, between, head⟩ := exists_valueTree v form.1 before
    obtain ⟨items, after, tail⟩ := exists_partTrees rest others form.2 between
    exact ⟨.object [("name", .string name), ("value", json)] :: items, after,
      .cons rfl rfl head tail⟩

end

theorem decode_of_valueTree {options : Options} (allowed : older = true → options.olderForms = true)
    {v : Value} {json : Json} {after : Seen} (tree : ValueTree older [] v json after)
    {payload : List UInt8} (read : Json.ofBytes? payload = some json) :
    decode options payload = .ok v := by
  simp only [decode, read, run'_eq_ok]
  exact ⟨after, tree.yields allowed⟩

/-- Decoding is inverse to writing. Every value that the format has a form for has a tree; and text
that is read as a tree of a value is decoded to it, with older forms allowed in any case, and
without them if there are none in the tree. -/
theorem decode_tree {older : Bool} {v : Value} :
    (∀ json after payload, ValueTree older [] v json after → Json.ofBytes? payload = some json →
      decode .lenient payload = .ok v ∧ (older = false → decode .strict payload = .ok v)) ∧
    (v.Every (Writable older) → ∃ json after, ValueTree older [] v json after) := by
  constructor
  · intro json after payload tree read
    refine ⟨decode_of_valueTree (fun _ => rfl) tree read, ?_⟩
    rintro rfl
    exact decode_of_valueTree (by simp) tree read
  · intro form
    exact exists_valueTree v form []

set_option maxRecDepth 4000 in
/-- A type whose declaration mentions it by its identifier. -/
theorem decode_tree_node :
    decode .strict (Utf8.encode ("\x7b\"type\":\"Type\",\"value\":\x7b\"staticType\":" ++
        "\x7b\"kind\":\"Struct\",\"typeID\":\"N\"," ++
        "\"fields\":[\x7b\"type\":\"N\"\x7d]\x7d\x7d\x7d")) =
      .ok (.type (some (.nominal ⟨.struct, "N"⟩))) := by
  let node : NominalType := ⟨.struct, "N"⟩
  have mentioned : TypeTree false [("N", .nominal node)] (.nominal node) (.string "N")
      [("N", .nominal node)] :=
    .seen ⟨[], [], rfl, by simp⟩ (by decide)
  have declared : TypeTree false [] (.nominal node) (.object [("kind", .string "Struct"),
      ("typeID", .string "N"), ("fields", .array [.object [("type", .string "N")]])])
      [("N", .nominal node)] :=
    .declared rfl rfl rfl (.cons rfl mentioned .nil) (.missing rfl)
  have tree : ValueTree false [] (.type (some (.nominal node)))
      (.object [("type", .string "Type"), ("value", .object [("staticType", _)])])
      [("N", .nominal node)] :=
    .valued rfl rfl (.type (.stated rfl declared))
  refine (decode_tree.1 _ _ _ tree ?_).2 rfl
  rw [Json.ofBytes?, Utf8.decode?_encode]
  rfl

end CadenceWire.JsonCdc
