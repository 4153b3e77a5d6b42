import CadenceWire.JsonCdc.StaticType
import CadenceWire.Proofs.JsonCdc.Part
import CadenceWire.Proofs.StaticType.Every

/-!
The JSON trees of static types. A declared type is written out with its declaration, and may be
named by its identifier alone from there on.
-/
namespace CadenceWire.JsonCdc

def EntitlementsTree (entitlements : List String) (members : Json.Members) : Prop :=
  ∃ items, members.last? "entitlements" = some (.array items) ∧
    List.Forall₂ (fun entitlement item => ∃ inner : Json.Members,
      item = .object inner ∧ inner.last? "typeID" = some (.string entitlement)) entitlements items

/-- What a reference says of its authorization. The older form is a truth value, which only the
authorization of that form is written as. -/
inductive AuthorizationTree (older : Bool) (reference : Json.Members) : Authorization → Prop
  | legacy (allowed : older = true) (found : reference.last? "authorized" = some (.bool true)) :
      AuthorizationTree older reference .legacy
  | unauthorized {members : Json.Members}
      (modern : (reference.last? "authorized").bind Json.bool? = none)
      (found : reference.last? "authorization" = some (.object members))
      (kind : members.last? "kind" = some (.string "Unauthorized")) :
      AuthorizationTree older reference .unauthorized
  | conjunction {members : Json.Members} {entitlements : List String}
      (modern : (reference.last? "authorized").bind Json.bool? = none)
      (found : reference.last? "authorization" = some (.object members))
      (kind : members.last? "kind" = some (.string "EntitlementConjunctionSet"))
      (listed : EntitlementsTree entitlements members) :
      AuthorizationTree older reference (.conjunction entitlements)
  | disjunction {members : Json.Members} {entitlements : List String}
      (modern : (reference.last? "authorized").bind Json.bool? = none)
      (found : reference.last? "authorization" = some (.object members))
      (kind : members.last? "kind" = some (.string "EntitlementDisjunctionSet"))
      (listed : EntitlementsTree entitlements members) :
      AuthorizationTree older reference (.disjunction entitlements)
  | mapping {members : Json.Members} {entitlementMap : String}
      (modern : (reference.last? "authorized").bind Json.bool? = none)
      (found : reference.last? "authorization" = some (.object members))
      (kind : members.last? "kind" = some (.string "EntitlementMapAuthorization"))
      (listed : EntitlementsTree [entitlementMap] members) :
      AuthorizationTree older reference (.mapping entitlementMap)

/-- The type was declared with the identifier, and none was declared with it since. -/
def Seen.Latest (seen : Seen) (id : String) (type : StaticType) : Prop :=
  ∃ newer older, seen = newer ++ (id, type) :: older ∧ ∀ entry ∈ newer, entry.1 ≠ id

theorem Seen.find?_eq_some_iff {seen : Seen} {id : String} {type : StaticType} :
    seen.find? id = some type ↔ seen.Latest id type := by
  simp only [Seen.find?, Seen.Latest, List.lookup_eq_some_iff, bne_iff_ne, ne_comm]

mutual

/-- The tree stands for the type where the declared types `before` have been seen, and those `after`
have been seen behind it. Older forms occur only if they are allowed. -/
inductive TypeTree (older : Bool) : Seen → StaticType → Json → Seen → Prop
  | seen {before : Seen} {type : NominalType} (latest : before.Latest type.id (.nominal type))
      (named : type.id ≠ "") : TypeTree older before (.nominal type) (.string type.id) before
  | simple {before : Seen} {type : SimpleType} {members : Json.Members}
      (kind : members.last? "kind" = some (.string type.id))
      (bare : type = .function → members.last? "return" = none) :
      TypeTree older before (.simple type) (.object members) before
  | optional {before after : Seen} {content : StaticType} {members : Json.Members} {json : Json}
      (kind : members.last? "kind" = some (.string "Optional"))
      (found : members.last? "type" = some json)
      (inner : TypeTree older before content json after) :
      TypeTree older before (.optional content) (.object members) after
  | variableArray {before after : Seen} {element : StaticType} {members : Json.Members}
      {json : Json} (kind : members.last? "kind" = some (.string "VariableSizedArray"))
      (found : members.last? "type" = some json)
      (inner : TypeTree older before element json after) :
      TypeTree older before (.variableArray element) (.object members) after
  | constantArray {before after : Seen} {size : UInt64} {element : StaticType}
      {members : Json.Members} {json : Json}
      (kind : members.last? "kind" = some (.string "ConstantSizedArray"))
      (count : members.last? "size" = some (.number (.integer size.toNat)))
      (found : members.last? "type" = some json)
      (inner : TypeTree older before element json after) :
      TypeTree older before (.constantArray size element) (.object members) after
  | dictionary {before between after : Seen} {key value : StaticType} {members : Json.Members}
      {first second : Json} (kind : members.last? "kind" = some (.string "Dictionary"))
      (foundKey : members.last? "key" = some first) (keys : TypeTree older before key first between)
      (foundValue : members.last? "value" = some second)
      (values : TypeTree older between value second after) :
      TypeTree older before (.dictionary key value) (.object members) after
  | reference {before after : Seen} {granted : Authorization} {referenced : StaticType}
      {members : Json.Members} {json : Json}
      (kind : members.last? "kind" = some (.string "Reference"))
      (grant : AuthorizationTree older members granted)
      (found : members.last? "type" = some json)
      (inner : TypeTree older before referenced json after) :
      TypeTree older before (.reference granted referenced) (.object members) after
  | intersection {before after : Seen} {types : List StaticType} {members : Json.Members}
      {items : List Json} (kind : members.last? "kind" = some (.string "Intersection"))
      (found : members.last? "types" = some (.array items))
      (inner : TypeTrees older before types items after) :
      TypeTree older before (.intersection types) (.object members) after
  | restricted {before between after : Seen} {base : StaticType} {types : List StaticType}
      {members : Json.Members} {json : Json} {items : List Json} {name : String}
      (allowed : older = true) (legacy : name = "Restriction" ∨ name = "Restricted")
      (kind : members.last? "kind" = some (.string name))
      (foundBase : members.last? "type" = some json)
      (outer : TypeTree older before base json between)
      (found : members.last? "restrictions" = some (.array items))
      (inner : TypeTrees older between types items after) :
      TypeTree older before (.restricted base types) (.object members) after
  | capability {before : Seen} {members : Json.Members}
      (kind : members.last? "kind" = some (.string "Capability"))
      (unstated : Unstated members "type") :
      TypeTree older before .capability (.object members) before
  | capabilityOf {before after : Seen} {borrowed : StaticType} {members : Json.Members}
      {json : Json} (kind : members.last? "kind" = some (.string "Capability"))
      (found : members.last? "type" = some json)
      (inner : TypeTree older before borrowed json after) :
      TypeTree older before (.capabilityOf borrowed) (.object members) after
  | inclusiveRange {before after : Seen} {element : StaticType} {members : Json.Members}
      {json : Json} (kind : members.last? "kind" = some (.string "InclusiveRange"))
      (found : members.last? "element" = some json)
      (inner : TypeTree older before element json after) :
      TypeTree older before (.inclusiveRange element) (.object members) after
  | function {before after : Seen} {signature : FunctionType} {members : Json.Members}
      (kind : members.last? "kind" = some (.string "Function"))
      (inner : SignatureTree older before signature members after) :
      TypeTree older before (.function signature) (.object members) after
  | declared {before between after : Seen} {type : NominalType} {members : Json.Members}
      {items : List Json} (kind : members.last? "kind" = some (.string type.kind.name))
      (id : members.last? "typeID" = some (.string type.id))
      (found : members.last? "fields" = some (.array items))
      (inner : FieldTrees older ((type.id, .nominal type) :: before) items between)
      (raw : RawTree older between members after) :
      TypeTree older before (.nominal type) (.object members) after

inductive TypeTrees (older : Bool) : Seen → List StaticType → List Json → Seen → Prop
  | nil {before : Seen} : TypeTrees older before [] [] before
  | cons {before between after : Seen} {type : StaticType} {types : List StaticType} {json : Json}
      {items : List Json} (head : TypeTree older before type json between)
      (tail : TypeTrees older between types items after) :
      TypeTrees older before (type :: types) (json :: items) after

inductive FieldTrees (older : Bool) : Seen → List Json → Seen → Prop
  | nil {before : Seen} : FieldTrees older before [] before
  | cons {before between after : Seen} {type : StaticType} {members : Json.Members} {json : Json}
      {items : List Json} (found : members.last? "type" = some json)
      (head : TypeTree older before type json between)
      (tail : FieldTrees older between items after) :
      FieldTrees older before (.object members :: items) after

/-- The raw type of a declaration, which only enums have. -/
inductive RawTree (older : Bool) : Seen → Json.Members → Seen → Prop
  | missing {before : Seen} {members : Json.Members} (missing : members.last? "type" = none) :
      RawTree older before members before
  | empty {before : Seen} {members : Json.Members}
      (found : members.last? "type" = some (.string "")) : RawTree older before members before
  | type {before after : Seen} {members : Json.Members} {json : Json} {type : StaticType}
      (found : members.last? "type" = some json) (inner : TypeTree older before type json after) :
      RawTree older before members after

inductive SignatureTree (older : Bool) : Seen → FunctionType → Json.Members → Seen → Prop
  | signature {before middle later after : Seen} {purity : String}
      {typeParameters : List TypeParameter} {parameters : List Parameter} {result : StaticType}
      {members : Json.Members} {first second : List Json} {third : Json}
      (pure : members.last? "purity" = some (.string purity))
      (foundOuter : members.last? "typeParameters" = some (.array first))
      (outer : TypeParameterTrees older before typeParameters first middle)
      (foundInner : members.last? "parameters" = some (.array second))
      (inner : ParameterTrees older middle parameters second later)
      (found : members.last? "return" = some third)
      (last : TypeTree older later result third after) :
      SignatureTree older before
        (.signature (purity = "view") typeParameters parameters result) members after

inductive TypeParameterTrees (older : Bool) :
    Seen → List TypeParameter → List Json → Seen → Prop
  | nil {before : Seen} : TypeParameterTrees older before [] [] before
  | unbounded {before after : Seen} {name : String} {types : List TypeParameter}
      {members : Json.Members} {items : List Json}
      (unstated : Unstated members "typeBound")
      (called : members.last? "name" = some (.string name))
      (tail : TypeParameterTrees older before types items after) :
      TypeParameterTrees older before (.named name none :: types) (.object members :: items) after
  | bounded {before between after : Seen} {name : String} {bound : StaticType}
      {types : List TypeParameter} {members : Json.Members} {json : Json} {items : List Json}
      (found : members.last? "typeBound" = some json)
      (head : TypeTree older before bound json between)
      (called : members.last? "name" = some (.string name))
      (tail : TypeParameterTrees older between types items after) :
      TypeParameterTrees older before (.named name (some bound) :: types)
        (.object members :: items) after

inductive ParameterTrees (older : Bool) : Seen → List Parameter → List Json → Seen → Prop
  | nil {before : Seen} : ParameterTrees older before [] [] before
  | cons {before between after : Seen} {label identifier : String} {type : StaticType}
      {types : List Parameter} {members : Json.Members} {json : Json} {items : List Json}
      (found : members.last? "type" = some json) (head : TypeTree older before type json between)
      (labelled : members.last? "label" = some (.string label))
      (called : members.last? "id" = some (.string identifier))
      (tail : ParameterTrees older between types items after) :
      ParameterTrees older before (.labelled label identifier type :: types)
        (.object members :: items) after

end

section members

variable {options : Options} {members : Json.Members} {name : String} {json : Json}

theorem memberType_of_last? (found : members.last? name = some json) :
    memberType options members name = staticType options json := by
  rw [memberType.eq_def, member_of_last? found]
  rfl

private theorem memberTypes_of_last? {items : List Json}
    (found : members.last? name = some (.array items)) :
    memberTypes options members name = staticTypes options items := by
  rw [memberTypes.eq_def, Json.Members.part?_of_last? found]
  rfl

private theorem unsigned64?_size (size : UInt64) :
    (Json.number (.integer size.toNat)).unsigned64? = some size := by
  have fits : Width.w64.unsigned? size.toNat = some size.toNat :=
    Width.unsigned?_eq_some_iff.2 ⟨rfl, size.toNat_lt⟩
  rw [Json.unsigned64?, fits, Option.map_some, UInt64.ofNat_toNat]

private theorem arraySize_of_last? {size : UInt64} (found : members.last? "size" = some json)
    (fits : json.unsigned64? = some size) : arraySize members = .ok size := by
  rw [arraySize, member_of_last? found]
  simp only [bind, Except.bind, fits]
  rfl

theorem statedType_of_unstated (unstated : Unstated members name) :
    statedType options members name = pure none := by
  rw [statedType.eq_def, stated?_of_unstated unstated]

theorem statedType_of_last? (found : members.last? name = some json) (present : json ≠ .null)
    (stated : json.text? ≠ some "") :
    statedType options members name = some <$> staticType options json := by
  rw [statedType.eq_def, stated?_of_last? found present stated]
  rfl

private theorem entitlements_of_tree {listed : List String}
    (tree : EntitlementsTree listed members) : entitlements members = .ok listed := by
  obtain ⟨items, found, each⟩ := tree
  simp only [entitlements, member_of_last? found, array, bind, Except.bind]
  refine mapM_eq_ok.2 (List.Forall₂.flip (each.imp ?_))
  rintro entitlement _ ⟨inner, rfl, named⟩
  exact textMember_of_last? named "entitlement"

private theorem authorization_of_tree {older : Bool}
    (allowed : older = true → options.olderForms = true)
    {granted : Authorization} (tree : AuthorizationTree older members granted) :
    authorization options members = .ok granted := by
  cases tree with
  | legacy older found =>
    simp only [authorization, found, allowed older]
    rfl
  | unauthorized modern found kind =>
    simp only [authorization, modern, found, object, textMember_of_last? kind, bind, Except.bind]
    cases options.olderForms <;> rfl
  | conjunction modern found kind listed | disjunction modern found kind listed
  | mapping modern found kind listed =>
    simp only [authorization, modern, found, object, textMember_of_last? kind, bind, Except.bind,
      entitlements_of_tree listed]
    cases options.olderForms <;> rfl

end members

theorem TypeTree.stated {older : Bool} {before after : Seen} {type : StaticType} {json : Json}
    (tree : TypeTree older before type json after) : json ≠ .null ∧ json.text? ≠ some "" := by
  cases tree with
  | seen _ named => simpa [Json.text?] using named
  | _ => simp [Json.text?]

theorem SignatureTree.returns {older : Bool} {before after : Seen} {signature : FunctionType}
    {members : Json.Members} (tree : SignatureTree older before signature members after) :
    members.has "return" = true := by
  cases tree with
  | signature _ _ _ _ _ found _ => rw [Json.Members.has, found]; rfl

private theorem lookup_restricted {name : String}
    (legacy : name = "Restriction" ∨ name = "Restricted") :
    TypeForm.names.lookup name = some .restriction := by
  rcases legacy with rfl | rfl <;> decide

theorem lookup_declared (kind : DeclarationKind) : TypeForm.names.lookup kind.name = none := by
  cases kind <;> decide

private theorem lookup_simple {type : SimpleType} (other : type ≠ .function) :
    TypeForm.names.lookup type.id = none ∧ DeclarationKind.ofName? type.id = none := by
  have all : ∀ type ∈ SimpleType.all, type ≠ .function →
      TypeForm.names.lookup type.id = none ∧ DeclarationKind.ofName? type.id = none := by decide
  exact all type type.mem_all other

section reading

variable {older : Bool} {options : Options}

mutual

theorem TypeTree.yields (allowed : older = true → options.olderForms = true) {before after : Seen}
    {type : StaticType} {json : Json} (tree : TypeTree older before type json after) :
    Yields (staticType options json) before type after := by
  match tree with
  | .seen latest _ =>
    rw [staticType.eq_def]
    simp only [Json.text?, typeReference, yields_bind, yields_get]
    exact ⟨_, _, ⟨rfl, rfl⟩, by simp [Seen.find?_eq_some_iff.2 latest]⟩
  | @TypeTree.simple _ _ type members kind bare =>
    rw [staticType.eq_def]
    -- The simple type of all functions shares its name with the form of a signature.
    by_cases isFunction : type = .function
    · subst isFunction
      have form : TypeForm.names.lookup SimpleType.function.id = some .function := by decide
      have missing : members.has "return" = false := by
        rw [Json.Members.has, bare rfl]
        rfl
      simp only [Json.text?, object, liftM_ok, pure_bind, textMember_of_last? kind, form, missing]
      exact .pure _ _
    · obtain ⟨formless, undeclared⟩ := lookup_simple isFunction
      simp only [Json.text?, object, liftM_ok, pure_bind, textMember_of_last? kind, formless,
        undeclared, SimpleType.ofId?_id]
      exact .pure _ _
  | .optional kind found inner =>
    have form : TypeForm.names.lookup "Optional" = some .optional := by decide
    have content := inner.yields allowed
    rw [staticType.eq_def]
    simp only [Json.text?, object, liftM_ok, pure_bind, textMember_of_last? kind, form,
      memberType_of_last? found]
    exact content.bind (.pure _ _)
  | .variableArray kind found inner =>
    have form : TypeForm.names.lookup "VariableSizedArray" = some .variableArray := by decide
    have element := inner.yields allowed
    rw [staticType.eq_def]
    simp only [Json.text?, object, liftM_ok, pure_bind, textMember_of_last? kind, form,
      memberType_of_last? found]
    exact element.bind (.pure _ _)
  | .constantArray kind count found inner =>
    have form : TypeForm.names.lookup "ConstantSizedArray" = some .constantArray := by decide
    have size := arraySize_of_last? count (unsigned64?_size _)
    have element := inner.yields allowed
    rw [staticType.eq_def]
    simp only [Json.text?, object, liftM_ok, pure_bind, textMember_of_last? kind, form, size,
      memberType_of_last? found]
    exact element.bind (.pure _ _)
  | .dictionary kind foundKey keys foundValue values =>
    have form : TypeForm.names.lookup "Dictionary" = some .dictionary := by decide
    have key := keys.yields allowed
    have value := values.yields allowed
    rw [staticType.eq_def]
    simp only [Json.text?, object, liftM_ok, pure_bind, textMember_of_last? kind, form,
      memberType_of_last? foundKey, memberType_of_last? foundValue]
    exact key.bind (value.bind (.pure _ _))
  | .reference kind grant found inner =>
    have form : TypeForm.names.lookup "Reference" = some .reference := by decide
    have granted := authorization_of_tree allowed grant
    have referenced := inner.yields allowed
    rw [staticType.eq_def]
    simp only [Json.text?, object, liftM_ok, pure_bind, textMember_of_last? kind, form, granted,
      memberType_of_last? found]
    exact referenced.bind (.pure _ _)
  | .intersection kind found inner =>
    have form : TypeForm.names.lookup "Intersection" = some .intersection := by decide
    have types := inner.yields allowed
    rw [staticType.eq_def]
    simp only [Json.text?, object, liftM_ok, pure_bind, textMember_of_last? kind, form,
      memberTypes_of_last? found]
    exact types.bind (.pure _ _)
  | .restricted older legacy kind foundBase outer found inner =>
    have base := outer.yields allowed
    have types := inner.yields allowed
    rw [staticType.eq_def]
    simp only [Json.text?, object, liftM_ok, pure_bind, textMember_of_last? kind,
      lookup_restricted legacy, allowed older, if_true,
      statedType_of_last? foundBase outer.stated.1 outer.stated.2, memberTypes_of_last? found]
    exact (base.map some).bind (types.bind (.pure _ _))
  | .capability kind unstated =>
    have form : TypeForm.names.lookup "Capability" = some .capability := by decide
    rw [staticType.eq_def]
    simp only [Json.text?, object, liftM_ok, pure_bind, textMember_of_last? kind, form,
      statedType_of_unstated unstated]
    exact .pure _ _
  | .capabilityOf kind found inner =>
    have form : TypeForm.names.lookup "Capability" = some .capability := by decide
    have borrowed := inner.yields allowed
    rw [staticType.eq_def]
    simp only [Json.text?, object, liftM_ok, pure_bind, textMember_of_last? kind, form,
      statedType_of_last? found inner.stated.1 inner.stated.2]
    exact (borrowed.map some).bind (.pure _ _)
  | .inclusiveRange kind found inner =>
    have form : TypeForm.names.lookup "InclusiveRange" = some .inclusiveRange := by decide
    have element := inner.yields allowed
    rw [staticType.eq_def]
    simp only [Json.text?, object, liftM_ok, pure_bind, textMember_of_last? kind, form,
      memberType_of_last? found]
    exact element.bind (.pure _ _)
  | @TypeTree.function _ _ _ _ members kind inner =>
    have form : TypeForm.names.lookup "Function" = some .function := by decide
    have returns : members.has "return" = true := inner.returns
    have signature := inner.yields allowed
    rw [staticType.eq_def]
    simp only [Json.text?, object, liftM_ok, pure_bind, textMember_of_last? kind, form, returns,
      if_true]
    exact signature.bind (.pure _ _)
  | .declared kind id found inner raw =>
    have fields := inner.yields allowed
    obtain ⟨smaller, listed⟩ := items?_of_last? found
    rw [staticType.eq_def]
    simp only [Json.text?, object, liftM_ok, pure_bind, textMember_of_last? kind, lookup_declared,
      DeclarationKind.ofName?_name]
    rw [nominalType.eq_def]
    simp only [textMember_of_last? id, listed, liftM_ok, pure_bind]
    -- Fields mention the type itself, which has been seen by the time they are read.
    refine Yields.bind (.bind (.modify _ _) (fields.bind ?_)) (.pure _ _)
    match raw with
    | .missing missing =>
      rw [Json.Members.part?_of_missing missing]
      exact .pure _ _
    | .empty found =>
      rw [Json.Members.part?_of_last? found]
      exact .pure _ _
    | .type found inner =>
      have base := inner.yields allowed
      rw [Json.Members.part?_of_last? found]
      simp only [if_neg inner.stated.2]
      exact (base.map _).bind (.pure _ _)

theorem FieldTrees.yields (allowed : older = true → options.olderForms = true) {before after : Seen}
    {items : List Json} (trees : FieldTrees older before items after) :
    Yields (fieldTypes options items) before () after := by
  match trees with
  | .nil =>
    rw [fieldTypes.eq_def]
    exact .pure _ _
  | .cons found head tail =>
    have first := head.yields allowed
    have others := tail.yields allowed
    rw [fieldTypes.eq_def]
    simp only [object, liftM_ok, pure_bind, memberType_of_last? found]
    exact first.bind others

theorem SignatureTree.yields (allowed : older = true → options.olderForms = true)
    {before after : Seen} {signature : FunctionType} {members : Json.Members}
    (tree : SignatureTree older before signature members after) :
    Yields (functionType options members) before signature after := by
  match tree with
  | .signature pure foundOuter outer foundInner inner found last =>
    have types := outer.yields allowed
    have parameters := inner.yields allowed
    have result := last.yields allowed
    obtain ⟨smaller, listed⟩ := items?_of_last? foundOuter
    rw [functionType.eq_def]
    simp only [textOrNone_of_last? pure, listed, member_of_last? foundInner, array,
      memberType_of_last? found, liftM_ok, pure_bind]
    exact types.bind (parameters.bind (result.bind (.pure _ _)))

theorem TypeParameterTrees.yields (allowed : older = true → options.olderForms = true)
    {before after : Seen} {types : List TypeParameter} {items : List Json}
    (trees : TypeParameterTrees older before types items after) :
    Yields (typeParameters options items) before types after := by
  match trees with
  | .nil =>
    rw [typeParameters.eq_def]
    exact .pure _ _
  | .unbounded unstated called tail =>
    have others := tail.yields allowed
    rw [typeParameters.eq_def]
    simp only [object, liftM_ok, pure_bind, statedType_of_unstated unstated,
      textMember_of_last? called]
    exact others.bind (.pure _ _)
  | .bounded found head called tail =>
    have bound := head.yields allowed
    have others := tail.yields allowed
    rw [typeParameters.eq_def]
    simp only [object, liftM_ok, pure_bind, textMember_of_last? called,
      statedType_of_last? found head.stated.1 head.stated.2]
    exact (bound.map some).bind (others.bind (.pure _ _))

theorem ParameterTrees.yields (allowed : older = true → options.olderForms = true)
    {before after : Seen} {types : List Parameter} {items : List Json}
    (trees : ParameterTrees older before types items after) :
    Yields (parameters options items) before types after := by
  match trees with
  | .nil =>
    rw [parameters.eq_def]
    exact .pure _ _
  | .cons found head labelled called tail =>
    have first := head.yields allowed
    have others := tail.yields allowed
    rw [parameters.eq_def]
    simp only [object, liftM_ok, pure_bind, memberType_of_last? found, textOrNone_of_last? labelled,
      textOrNone_of_last? called]
    exact first.bind (others.bind (.pure _ _))

theorem TypeTrees.yields (allowed : older = true → options.olderForms = true) {before after : Seen}
    {types : List StaticType} {items : List Json}
    (trees : TypeTrees older before types items after) :
    Yields (staticTypes options items) before types after := by
  match trees with
  | .nil =>
    rw [staticTypes.eq_def]
    exact .pure _ _
  | .cons head tail =>
    have first := head.yields allowed
    have others := tail.yields allowed
    rw [staticTypes.eq_def]
    exact first.bind (others.bind (.pure _ _))

end

end reading

end CadenceWire.JsonCdc
