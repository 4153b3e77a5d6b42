import CadenceWire.Proofs.Agreement
import CadenceWire.Proofs.Ccf.Payload
import CadenceWire.Proofs.JsonCdc.Allowed
import CadenceWire.Proofs.Stored
import Mathlib.Algebra.Group.Int.Defs

/-!
What holds of every value that was read, in either format and at every depth.
-/
namespace CadenceWire

namespace Value

/-- The value as such is as values are kept. A composite has a value for each field of its layout,
which it names by that field; zero is without a minus; a path takes the place of an identifier. -/
def Formed : Value → Prop
  | .composite declared fields =>
    declared.kind.isInterface = false ∧
      composite? declared (fields.map Prod.fst) (fields.map Prod.snd) =
        some (.composite declared fields) ∧
      namedValues (fields.map Prod.fst) (fields.map Prod.snd) =
        fields.map fun field => (field.1.name, field.2)
  | .integer n =>
    (n.kind = .intOf .w256 → -2 ^ 255 ≤ n.value ∧ n.value ≤ 2 ^ 255 - 1) ∧
      (n.signMagnitude.negative = true → n.signMagnitude.magnitude ≠ 0)
  | .capability held => held.path ≠ none → held.id = 0
  | _ => True

/-- The value as such holds nothing that JSON has no form for. -/
def OfTree : Value → Prop
  | .bytes _ => False
  | .composite _ fields => ∀ field ∈ fields, field.1.type = none
  | _ => True

/-- The value as such says all that a message tells of it. -/
def OfItem : Value → Prop
  | .composite _ fields => ∀ field ∈ fields, field.1.type ≠ none
  | .capability held => held.path = none
  | _ => True

private theorem formed_composite {declared : NominalType}
    (concrete : declared.kind.isInterface = false)
    (fields : List (Field × Value)) : (composite declared fields).Formed :=
  ⟨concrete, composite?_unzip declared fields, namedValues_unzip fields⟩

private theorem formed_integer (n : Integer) : (integer n).Formed := by
  constructor
  · intro kind
    obtain ⟨low, high⟩ := n.holds
    rw [kind] at low high
    exact ⟨low, high⟩
  · intro negative nothing
    have below : n.value < 0 := of_decide_eq_true negative
    have zero : n.value = 0 := Int.natAbs_eq_zero.1 nothing
    omega

end Value

theorem JsonCdc.Allowed.formed {options : JsonCdc.Options} {v : Value}
    (allowed : JsonCdc.Allowed options v) : v.Formed ∧ v.OfTree := by
  cases v with
  | bytes => exact allowed.elim
  | composite declared fields => exact ⟨Value.formed_composite allowed.1 fields, allowed.2⟩
  | integer n => exact ⟨Value.formed_integer n, trivial⟩
  | capability held => exact ⟨fun path => (allowed.1 path).2, trivial⟩
  | _ => exact ⟨trivial, trivial⟩

namespace Ccf

open Cbor (Item)

section opening

variable {item third : Item} {definitions : Definitions} {type : StaticType}

theorem Opens.closed (opens : Opens item definitions type third) : definitions.Closed := by
  cases opens with
  | defining defined typed => exact Definitions.closed_of_read defined
  | bare typed => exact Definitions.closed_empty

theorem Opens.isInline (opens : Opens item definitions type third) :
    IsInline definitions.table type := by
  cases opens with
  | defining defined typed | bare typed => exact (inlineType_eq_ok.1 typed).isInline

theorem Opens.concrete (opens : Opens item definitions type third) :
    ∀ layout ∈ definitions.layouts, layout.type.kind.isInterface = false := by
  cases opens with
  | defining defined typed =>
    obtain ⟨typedefs, -, rfl⟩ := Definitions.read_eq_ok.1 defined
    intro layout member
    obtain ⟨t, -, concrete, rfl⟩ := Typedef.exists_of_mem_layouts member
    exact concrete
  | bare typed => exact fun layout member => nomatch member

end opening

theorem Inhabits.formed {definitions : Definitions} (closed : definitions.Closed)
    (concrete : ∀ layout ∈ definitions.layouts, layout.type.kind.isInterface = false)
    {type : StaticType} {v : Value} (inhabits : Inhabits definitions type v)
    (inline : IsInline definitions.table type) :
    v.Every fun part => part.Formed ∧ part.OfItem ∧ part.TypesEvery StaticType.HasForm := by
  induction inhabits with
  | simple inhabits =>
    cases inhabits with
    | integer n => exact ⟨Value.formed_integer n, trivial, trivial⟩
    | type structured | function structured => exact ⟨trivial, trivial, structured⟩
    | _ => exact ⟨trivial, trivial, trivial⟩
  | nil content => exact ⟨trivial, trivial, trivial⟩
  | present _ ih => exact ⟨⟨trivial, trivial, trivial⟩, ih inline.2⟩
  | variableArray _ ih | constantArray _ _ ih =>
    refine ⟨⟨trivial, trivial, trivial⟩, Value.everyOf_iff.2 fun v member => ?_⟩
    exact ih v member inline.2
  | dictionary _ _ keys items =>
    refine ⟨⟨trivial, trivial, trivial⟩, Value.everyEntry_iff.2 fun entry member => ?_⟩
    exact ⟨keys entry member inline.2.1, items entry member inline.2.2⟩
  | reference _ ih => exact ih inline.2
  | capability id holder => exact ⟨fun path => absurd rfl path, rfl, trivial⟩
  | capabilityOf borrowed id holder =>
    have known : borrowed.Structured := inline.2.imp fun _ form => form.hasForm
    exact ⟨fun path => absurd rfl path, rfl, known⟩
  | range _ _ _ first last difference =>
    exact ⟨⟨trivial, trivial, trivial⟩, first inline.2, last inline.2, difference inline.2⟩
  | embedded _ own _ ih => exact ih own
  | @composite declared layout fields _ laysOut names _ ih =>
    have laid := laysOut.mem
    refine ⟨⟨Value.formed_composite (concrete layout laid) fields, ?_, ?_⟩,
      Value.everyField_iff.2 ?_⟩
    · intro field member untyped
      obtain ⟨declared, -, typed⟩ := names.exists_type member
      rw [untyped] at typed
      cases typed
    · intro field member
      obtain ⟨declared, inside, typed⟩ := names.exists_type member
      have known : declared.2.Structured :=
        (closed layout laid declared inside).imp fun _ form => form.hasForm
      rw [typed]
      exact known
    · intro field member
      obtain ⟨declared, inside, typed⟩ := names.exists_type member
      exact ih field member declared.2 typed (closed layout laid declared inside)

end Ccf

/-- Every value read is as values are kept, at every depth: one from JSON without bytes and without
the types of fields, one from a message with the type of every field, without paths for
capabilities, and with nothing known by an identifier alone. It makes no difference that composites
are put together of layouts and values that might not fit, nor that numbers are read as a sign and a
magnitude. -/
theorem decode_formed :
    (∀ options payload v, JsonCdc.decode options payload = .ok v →
      v.Every fun part => part.Formed ∧ part.OfTree) ∧
    (∀ payload v, Ccf.decode payload = .ok v →
      v.Every fun part => part.Formed ∧ part.OfItem ∧ part.TypesEvery StaticType.HasForm) ∧
    (∀ options kind json,
      JsonCdc.composite options kind json = JsonCdc.storedComposite options kind json) ∧
    (∀ definitions declared item, declared.kind.isInterface = false →
      Ccf.value definitions (.nominal declared) item =
        Ccf.storedComposite definitions declared item) ∧
    (∀ options kind json n, JsonCdc.integer options kind json = .ok n →
      JsonCdc.bigInteger options kind.name json = .ok n.signMagnitude) ∧
    ∀ kind item n, Ccf.integer kind item = .ok n →
      Ccf.bigInteger kind.name item = .ok n.signMagnitude := by
  refine ⟨?tree, ?item, JsonCdc.composite_eq_stored, ?_, ?_, ?_⟩
  case tree =>
    intro options payload v decoded
    exact (JsonCdc.decode_allowed decoded).imp fun _ => JsonCdc.Allowed.formed
  case item =>
    intro payload v decoded
    obtain ⟨item, -, accepted⟩ := Ccf.decode_eq_ok.1 decoded
    obtain ⟨definitions, type, third, after, opens, read⟩ := Ccf.message_eq_ok.1 accepted
    have inhabits := (Ccf.value_yields.1 read).inhabits opens.closed opens.isInline
    exact inhabits.formed opens.closed opens.concrete opens.isInline
  · exact fun definitions declared item concrete => Ccf.value_nominal definitions concrete item
  · exact fun options kind json n => JsonCdc.bigInteger_of_integer
  · exact fun kind item n => Ccf.bigInteger_of_integer

/-- A zero that is written with a minus in JSON, and a composite of one field in a message. -/
theorem decode_formed_zero :
    let zero : Integer := ⟨.int, 0, by decide⟩
    let field : Field := ⟨"a", some (.simple (.integer .int))⟩
    let whole : Value := .composite ⟨.struct, "S.A"⟩ [(field, .integer zero)]
    JsonCdc.decode .strict (Utf8.encode "\x7b\"type\":\"Int\",\"value\":\"-0\"\x7d") =
        .ok (.integer zero) ∧
      ((Value.integer zero).Every fun part => part.Formed ∧ part.OfTree) ∧
      Ccf.decode [0xd8, 0x81, 0x82, 0x81, 0xd8, 0xa0, 0x83, 0x41, 0x01, 0x63, 0x53, 0x2e, 0x41,
        0x81, 0x82, 0x61, 0x61, 0xd8, 0x89, 0x04, 0x82, 0xd8, 0x88, 0x41, 0x01, 0x81, 0x00] =
        .ok whole ∧
      (whole.Every fun part =>
        part.Formed ∧ part.OfItem ∧ part.TypesEvery StaticType.HasForm) ∧
      Ccf.value .empty (.nominal ⟨.struct, "S.A"⟩) .null =
        Ccf.storedComposite .empty ⟨.struct, "S.A"⟩ .null ∧
      JsonCdc.bigInteger .strict "Int" (.string "-0") = .ok ⟨false, 0⟩ ∧
      Ccf.bigInteger "Int" (.integer 0) = .ok ⟨false, 0⟩ := by
  intro zero field whole
  obtain ⟨tree, item, -, composite, text, number⟩ := decode_formed
  have written : JsonCdc.integer .strict .int (.string "-0") = .ok zero := rfl
  have counted : Ccf.integer .int (.integer 0) = .ok zero := rfl
  have named : Json.Members.last? [("type", .string "Int"), ("value", .string "-0")] "type" =
      some (.string (ValueKind.integer .int).name) := rfl
  have read : JsonCdc.decode .strict (Utf8.encode
      "\x7b\"type\":\"Int\",\"value\":\"-0\"\x7d") = .ok (.integer zero) := by
    have parsed : Json.ofBytes? (Utf8.encode "\x7b\"type\":\"Int\",\"value\":\"-0\"\x7d") =
        some (.object [("type", .string "Int"), ("value", .string "-0")]) := by
      rw [Json.ofBytes?, Utf8.decode?_encode]
      rfl
    rw [JsonCdc.decode, parsed]
    dsimp only
    rw [JsonCdc.value_of_last? named rfl (by simp) (by simp)]
    rfl
  refine ⟨read, tree _ _ _ read, ?message, item _ _ ?message, composite _ _ _ rfl, ?_, ?_⟩
  case message => rfl
  · exact text _ _ _ _ written
  · exact number _ _ _ counted

end CadenceWire
