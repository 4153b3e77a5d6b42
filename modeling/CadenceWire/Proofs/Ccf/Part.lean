import CadenceWire.Ccf.InlineType
import CadenceWire.Ccf.Scalar
import CadenceWire.Proofs.Cbor.Grammar
import CadenceWire.Proofs.Reading

/-!
Which items the parts of a message are read from. Most parts are written in one way only; numbers
and authorizations in several, which are listed here.
-/
namespace CadenceWire.Ccf

open Cbor (Item)

theorem array_eq_ok {context : String} {item : Item} {items : List Item} :
    array context item = .ok items ↔ item = .array items := by
  cases item <;> simp [array]

theorem bytes_eq_ok {context : String} {item : Item} {content : List UInt8} :
    bytes context item = .ok content ↔ item = .bytes content := by
  cases item <;> simp [bytes]

theorem text_eq_ok {context : String} {item : Item} {s : String} :
    text context item = .ok s ↔ item = .text s := by
  cases item <;> simp [text]

theorem unsigned_eq_ok {context : String} {item : Item} {n : Nat} :
    unsigned context item = .ok n ↔ item = .integer n ∧ n < Width.w64.count := by
  cases item with
  | integer m =>
    simp only [unsigned]
    split
    next natural found =>
      simp only [Except.ok.injEq, Item.integer.injEq]
      rw [Width.unsigned?_eq_some_iff] at found
      omega
    next missing =>
      simp only [reduceCtorEq, Item.integer.injEq, false_iff]
      intro small
      rw [Width.unsigned?_eq_some_iff.2 small] at missing
      cases missing
  | _ => simp [unsigned]

theorem address_eq_ok {item : Item} {owner : Address} :
    address item = .ok owner ↔ item = .bytes owner.bytes := by
  simp only [address, bind_eq_ok, bytes_eq_ok]
  constructor
  · rintro ⟨content, rfl, accepted⟩
    split at accepted
    next found =>
      rw [pure_eq_ok] at accepted
      rw [Address.ofBytes?_eq_some_iff.1 found, accepted]
    next => exact absurd accepted throw_ne_ok
  · rintro rfl
    refine ⟨owner.bytes, rfl, ?_⟩
    rw [Address.ofBytes?_eq_some_iff.2 rfl]
    rfl

/-- The simple types in the order of the numbers that messages give them. Some numbers are of no
type. -/
def simpleTypes : List (Option SimpleType) :=
  [SimpleType.bool, .string, .character, .address,
    .integer .int, .integer (.intOf .w8), .integer (.intOf .w16), .integer (.intOf .w32),
    .integer (.intOf .w64), .integer (.intOf .w128), .integer (.intOf .w256),
    .integer .uint, .integer (.uintOf .w8), .integer (.uintOf .w16), .integer (.uintOf .w32),
    .integer (.uintOf .w64), .integer (.uintOf .w128), .integer (.uintOf .w256),
    .integer (.wordOf .w8), .integer (.wordOf .w16), .integer (.wordOf .w32),
    .integer (.wordOf .w64), .fixedPoint .fix64, .fixedPoint .ufix64,
    .abstract .path, .abstract .capabilityPath,
    .path .storageDomain, .path .publicDomain, .path .privateDomain].map some ++
  List.replicate 6 none ++
  [some (.resident .deployedContract), none] ++
  [SimpleType.resident .block, .abstract .any, .abstract .anyStruct, .abstract .anyResource,
    .metaType, .resident .never, .abstract .number, .abstract .signedNumber, .abstract .integer,
    .abstract .signedInteger, .abstract .fixedPoint, .abstract .signedFixedPoint, .bytes, .void,
    .function, .integer (.wordOf .w128), .integer (.wordOf .w256),
    .abstract .anyStructAttachment, .abstract .anyResourceAttachment,
    .resident .storageCapabilityController, .resident .accountCapabilityController].map some

/-- The number that a simple type has in messages. -/
def simpleNumber (type : SimpleType) : Nat := simpleTypes.idxOf (some type)

private theorem simpleNumber_eq_code (type : SimpleType) : simpleNumber type = type.code := by
  have all : ∀ type ∈ SimpleType.all, simpleNumber type = type.code := by decide
  exact all type type.mem_all

theorem simpleNumber_lt (type : SimpleType) : simpleNumber type < Width.w64.count := by
  have all : ∀ type ∈ SimpleType.all, type.code < Width.w64.count := by decide
  rw [simpleNumber_eq_code]
  exact all type type.mem_all

theorem simpleType_eq_ok {item : Item} {type : SimpleType} :
    simpleType item = .ok type ↔ item = .integer (simpleNumber type) := by
  have small := simpleNumber_lt type
  rw [simpleNumber_eq_code] at small ⊢
  simp only [simpleType, bind_eq_ok, unsigned_eq_ok]
  constructor
  · rintro ⟨code, ⟨rfl, -⟩, accepted⟩
    split at accepted
    next known found =>
      rw [pure_eq_ok] at accepted
      have same : known.code = code := by simpa using List.find?_some found
      rw [← accepted, same]
    next => exact absurd accepted throw_ne_ok
  · rintro rfl
    exact ⟨type.code, ⟨rfl, small⟩, by rw [SimpleType.ofCode?_code]; rfl⟩

theorem arraySize_eq_ok {item : Item} {size : UInt64} :
    arraySize item = .ok size ↔ item = .integer size.toNat := by
  simp only [arraySize, bind_eq_ok, unsigned_eq_ok, pure_eq_ok]
  constructor
  · rintro ⟨n, ⟨rfl, small⟩, rfl⟩
    rw [UInt64.toNat_ofNat_of_lt' small]
  · rintro rfl
    exact ⟨size.toNat, ⟨rfl, size.toNat_lt⟩, UInt64.ofNat_toNat⟩

/-- The items that an authorization is written as. The older forms are truth values, and null. -/
inductive AuthorizationItem : Authorization → Item → Prop
  | null : AuthorizationItem .unauthorized .null
  | unauthorized : AuthorizationItem .unauthorized (.bool false)
  | legacy : AuthorizationItem .legacy (.bool true)
  | conjunction (entitlements : List String) :
      AuthorizationItem (.conjunction entitlements)
        (.tag 146 (.array [.integer 0, .array (entitlements.map .text)]))
  | disjunction (entitlements : List String) :
      AuthorizationItem (.disjunction entitlements)
        (.tag 146 (.array [.integer 1, .array (entitlements.map .text)]))
  | mapping (entitlementMap : String) :
      AuthorizationItem (.mapping entitlementMap) (.tag 147 (.text entitlementMap))
  | listedMapping (entitlementMap : String) :
      AuthorizationItem (.mapping entitlementMap) (.tag 147 (.array [.text entitlementMap]))

private theorem texts_eq_ok {context : String} {items : List Item} {texts : List String} :
    items.mapM (text context) = .ok texts ↔ items = texts.map .text := by
  induction items generalizing texts with
  | nil => cases texts <;> simp [pure, Except.pure]
  | cons item items ih =>
    simp only [List.mapM_cons, bind_eq_ok, text_eq_ok, pure_eq_ok, ih]
    cases texts with
    | nil => simp
    | cons first others =>
      simp only [List.cons.injEq, List.map_cons]
      exact ⟨fun ⟨_, found, _, rest, same⟩ => ⟨same.1 ▸ found, same.2 ▸ rest⟩,
        fun ⟨found, rest⟩ => ⟨first, found, others, rest, rfl, rfl⟩⟩

theorem authorization_eq_ok {item : Item} {granted : Authorization} :
    authorization item = .ok granted ↔ AuthorizationItem granted item := by
  constructor
  · intro accepted
    unfold authorization at accepted
    split at accepted
    · cases accepted; exact .null
    · cases accepted; exact .unauthorized
    · cases accepted; exact .legacy
    next kind list =>
      simp only [bind_eq_ok, array_eq_ok, texts_eq_ok, unsigned_eq_ok] at accepted
      obtain ⟨_, rfl, entitlements, rfl, n, ⟨rfl, -⟩, chosen⟩ := accepted
      split at chosen
      · cases chosen; exact .conjunction entitlements
      · cases chosen; exact .disjunction entitlements
      · exact absurd chosen throw_ne_ok
    · cases accepted
    · simp only [map_eq_ok, text_eq_ok] at accepted
      obtain ⟨entitlementMap, rfl, rfl⟩ := accepted
      exact .listedMapping entitlementMap
    · simp only [map_eq_ok, text_eq_ok] at accepted
      obtain ⟨entitlementMap, rfl, rfl⟩ := accepted
      exact .mapping entitlementMap
    · cases accepted
    · cases accepted
  · intro written
    have listed (entitlements : List String) :
        (entitlements.map Item.text).mapM (text "entitlement") = .ok entitlements :=
      texts_eq_ok.2 rfl
    cases written with
    | null | unauthorized | legacy | mapping | listedMapping => rfl
    | conjunction entitlements | disjunction entitlements =>
      simp only [authorization, array, bind, Except.bind, listed]
      rfl

/-- The items that a number is written as: the number itself, or a byte string of up to 32 bytes
that stands for itself or counts down from -1. -/
inductive NumberItem : Int → Item → Prop
  | integer (n : Int) : NumberItem n (.integer n)
  | counting (content : List UInt8) (short : content.length ≤ 32) :
      NumberItem (Cbor.denoted content) (.tag 2 (.bytes content))
  | countingDown (content : List UInt8) (short : content.length ≤ 32) :
      NumberItem (-1 - Cbor.denoted content) (.tag 3 (.bytes content))

theorem magnitude_eq_ok {kind : String} {item : Item} {n : Nat} :
    magnitude kind item = .ok n ↔
      ∃ content, item = .bytes content ∧ content.length ≤ 32 ∧ Cbor.denoted content = n := by
  simp only [magnitude, maxNumberBytes, bind_eq_ok, bytes_eq_ok, Cbor.bigEndian_eq_denoted]
  constructor
  · rintro ⟨content, rfl, accepted⟩
    split at accepted
    · simp [throw, throwThe, MonadExceptOf.throw, bind, Except.bind] at accepted
    next short => exact ⟨content, rfl, by omega, by simpa [pure, Except.pure] using accepted⟩
  · rintro ⟨content, rfl, short, rfl⟩
    refine ⟨content, rfl, ?_⟩
    rw [if_neg (by omega)]
    rfl

theorem number_eq_ok {kind : String} {item : Item} {n : Int} :
    number kind item = .ok n ↔ NumberItem n item := by
  constructor
  · intro accepted
    unfold number at accepted
    split at accepted
    · cases accepted; exact .integer n
    · simp only [map_eq_ok, magnitude_eq_ok] at accepted
      obtain ⟨_, ⟨content, rfl, short, rfl⟩, rfl⟩ := accepted
      exact .counting content short
    · simp only [map_eq_ok, magnitude_eq_ok] at accepted
      obtain ⟨_, ⟨content, rfl, short, rfl⟩, rfl⟩ := accepted
      exact .countingDown content short
    · cases accepted
  · intro written
    cases written with
    | integer => rfl
    | counting content short | countingDown content short =>
      simp only [number, map_eq_ok, magnitude_eq_ok]
      exact ⟨_, ⟨content, rfl, short, rfl⟩, rfl⟩

theorem integer_eq_ok {kind : IntegerKind} {item : Item} {n : Integer} :
    integer kind item = .ok n ↔ n.kind = kind ∧ NumberItem n.value item := by
  simp only [integer, bind_eq_ok, number_eq_ok]
  constructor
  · rintro ⟨value, written, accepted⟩
    split at accepted
    next found =>
      rw [pure_eq_ok] at accepted
      obtain ⟨rfl, rfl⟩ := Integer.ofInt?_eq_some_iff.1 (accepted ▸ found)
      exact ⟨rfl, written⟩
    next => exact absurd accepted throw_ne_ok
  · rintro ⟨rfl, written⟩
    exact ⟨n.value, written, by rw [Integer.ofInt?_eq_some_iff.2 ⟨rfl, rfl⟩]; rfl⟩

theorem fixedPoint_eq_ok {kind : FixedPointKind} {item : Item} {n : FixedPoint} :
    fixedPoint kind item = .ok n ↔ n.kind = kind ∧ NumberItem n.scaled item := by
  simp only [fixedPoint, bind_eq_ok, number_eq_ok]
  constructor
  · rintro ⟨scaled, written, accepted⟩
    split at accepted
    next found =>
      rw [pure_eq_ok] at accepted
      obtain ⟨rfl, rfl⟩ := FixedPoint.ofScaled?_eq_some_iff.1 (accepted ▸ found)
      exact ⟨rfl, written⟩
    next => exact absurd accepted throw_ne_ok
  · rintro ⟨rfl, written⟩
    exact ⟨n.scaled, written, by rw [FixedPoint.ofScaled?_eq_some_iff.2 ⟨rfl, rfl⟩]; rfl⟩

/-- The number that stands for a domain of paths. -/
def domainNumber : PathDomain → Nat
  | .storageDomain => 1
  | .privateDomain => 2
  | .publicDomain => 3

private theorem domainNumber_eq_code (domain : PathDomain) : domainNumber domain = domain.code := by
  cases domain <;> rfl

theorem domainNumber_lt (domain : PathDomain) : domainNumber domain < Width.w64.count := by
  cases domain <;> decide

theorem path_eq_ok {item : Item} {p : Path} :
    path item = .ok p ↔ item = .array [.integer (domainNumber p.domain), .text p.identifier] := by
  have small := domainNumber_lt p.domain
  rw [domainNumber_eq_code] at small ⊢
  constructor
  · intro accepted
    unfold path at accepted
    split at accepted
    next domain identifier =>
      simp only [bind_eq_ok, unsigned_eq_ok] at accepted
      obtain ⟨code, ⟨rfl, -⟩, accepted⟩ := accepted
      split at accepted
      next known found =>
        simp only [bind_eq_ok, text_eq_ok, pure_eq_ok] at accepted
        obtain ⟨s, rfl, rfl⟩ := accepted
        have same : known.code = code := by simpa using List.find?_some found
        rw [same]
      next => exact absurd accepted throw_ne_ok
    next => cases accepted
  · rintro rfl
    simp only [path, bind_eq_ok, unsigned_eq_ok]
    refine ⟨p.domain.code, ⟨rfl, small⟩, ?_⟩
    rw [PathDomain.ofCode?_code]
    rfl

end CadenceWire.Ccf
