import CadenceWire.Proofs.Ccf.LossyItem
import CadenceWire.Proofs.Ccf.Message
import CadenceWire.Proofs.Json.Written
import CadenceWire.Proofs.JsonCdc.WrittenTree

/-!
The two formats agree. A value carried in either of them becomes the same plain value, although not
the same value is read from both.
-/
namespace CadenceWire

open Cbor (Item Encodes)
open Ccf (Definitions Inhabits IsInline InlineForm Layout MessageItem Showing Typedef)
open JsonCdc (ValueTree Writable WritableType)

def Value.HasTree : Value → Prop
  | .bytes _ => False
  | _ => True

section trees

variable {table : List (List UInt8 × NominalType)} {definitions : Definitions}

theorem Ccf.InlineForm.hasForm {type : StaticType} (form : InlineForm table type) :
    type.HasForm := by
  cases type with
  | unstructured => exact form
  | _ => trivial

theorem StaticType.HasForm.writable {type : StaticType} (form : type.HasForm) :
    WritableType true type := by
  cases type with
  | unstructured => exact form
  | reference granted => cases granted <;> first | rfl | trivial
  | restricted => rfl
  | _ => trivial

theorem Ccf.Inhabits.writable (closed : definitions.Closed)
    (concrete : ∀ layout ∈ definitions.layouts, layout.type.kind.isInterface = false)
    {type : StaticType} {v : Value} (inhabits : Inhabits definitions type v)
    (inline : IsInline definitions.table type) (tree : v.Every Value.HasTree) :
    (v.erase .ofTrees).Every (Writable true) := by
  induction inhabits with
  | simple inhabits =>
    cases inhabits with
    | bytes content => exact tree.elim
    | unknownType => exact nofun
    | type structured =>
      rintro _ ⟨⟩
      exact structured.imp fun _ => StaticType.HasForm.writable
    | function structured => exact structured.imp fun _ => StaticType.HasForm.writable
    | _ => trivial
  | nil content => trivial
  | present _ ih =>
    rw [Value.erase, Loss.present_ofTrees]
    exact ⟨trivial, ih inline.2 tree.2⟩
  | variableArray _ ih | constantArray _ _ ih =>
    rw [Value.erase, Value.eraseElements_eq_map]
    refine ⟨trivial, Value.everyOf_iff.2 (List.forall_mem_map.2 fun v member => ?_)⟩
    exact ih v member inline.2 (Value.everyOf_iff.1 tree.2 v member)
  | dictionary _ _ keys items =>
    have every := Value.everyEntry_iff.1 tree.2
    rw [Value.erase, Value.eraseEntries_eq_map]
    refine ⟨trivial, Value.everyEntry_iff.2 (List.forall_mem_map.2 fun entry member => ?_)⟩
    exact ⟨keys entry member inline.2.1 (every entry member).1,
      items entry member inline.2.2 (every entry member).2⟩
  | reference _ ih => exact ih inline.2 tree
  | capability id holder => exact ⟨nofun, nofun⟩
  | capabilityOf borrowed id holder =>
    refine ⟨nofun, ?_⟩
    rintro _ ⟨⟩
    exact inline.2.imp fun _ form => form.hasForm.writable
  | range _ _ _ first last difference =>
    exact ⟨trivial, first inline.2 tree.2.1, last inline.2 tree.2.2.1,
      difference inline.2 tree.2.2.2⟩
  | embedded _ own _ ih => exact ih own tree
  | @composite declared layout fields _ laid names _ ih =>
    have every := Value.everyField_iff.1 tree.2
    rw [Value.erase, Value.eraseFields_eq_map]
    have untyped : ∀ field ∈ fields, (Loss.ofTrees.field field.1).type = none := fun _ _ => rfl
    refine ⟨⟨concrete layout laid.mem, List.forall_mem_map.2 untyped⟩,
      Value.everyField_iff.2 (List.forall_mem_map.2 fun field member => ?_)⟩
    obtain ⟨declared, inside, typed⟩ := names.exists_type member
    exact ih field member declared.2 typed (closed.of_laysOut laid declared inside)
      (every field member)

end trees

theorem Ccf.MessageItem.exists_lossless {typedefs : List Typedef} {type : StaticType} {v : Value}
    {item : Item} (written : MessageItem false typedefs type v item) (showing : v.Every Showing) :
    ∃ w, MessageItem true typedefs type w item ∧ w.erase .ofItems = v.erase .ofItems := by
  cases written with
  | message defined typed inner =>
    obtain ⟨w, inner, same⟩ := inner.exists_lossless showing
    exact ⟨w, .message defined typed inner, same⟩

/-- Both formats carry every value that JSON has a form for, and where the value is read back from
both, what is read becomes the same plain value, or fails to for the same key. So do the fields of a
composite. The optionals of the value may be nested, although messages do not tell how deep one that
is not there lies. -/
theorem toPlain_agree {typedefs : List Typedef} {type : StaticType} {v : Value} :
    (∀ older json after text item bytes, v.Every Showing →
      ValueTree older [] (v.erase .ofTrees) json after → Json.ofBytes? text = some json →
      MessageItem false typedefs type v item → item.height ≤ 256 → Encodes item bytes →
        ∃ left right, JsonCdc.decode .lenient text = .ok left ∧ Ccf.decode bytes = .ok right ∧
          left.toPlain = right.toPlain ∧ left.eventFields = right.eventFields) ∧
    (Typedef.WellFormed typedefs → IsInline (Typedef.table typedefs) type →
      Inhabits (Typedef.definitions typedefs) type v → v.Every Value.HasTree →
        (∃ json after, ValueTree true [] (v.erase .ofTrees) json after) ∧
          ∃ item bytes, MessageItem false typedefs type v item ∧ Encodes item bytes) := by
  constructor
  · intro older json after text item bytes showing tree read written shallow encoded
    obtain ⟨w, written, same⟩ := written.exists_lossless showing
    refine ⟨v.erase .ofTrees, w, JsonCdc.decode_of_valueTree (fun _ => rfl) tree read,
      Ccf.decode_of_messageItem written shallow encoded, ?_, ?_⟩
    · calc
        (v.erase .ofTrees).toPlain = v.toPlain := v.toPlain_erase
        _ = (w.erase .ofItems).toPlain := by rw [same, Value.toPlain_erase]
        _ = w.toPlain := w.toPlain_erase
    · calc
        (v.erase .ofTrees).eventFields = v.eventFields := v.eventFields_erase
        _ = (w.erase .ofItems).eventFields := by rw [same, Value.eventFields_erase]
        _ = w.eventFields := w.eventFields_erase
  · intro wellFormed inline inhabits tree
    have concrete : ∀ layout ∈ (Typedef.definitions typedefs).layouts,
        layout.type.kind.isInterface = false := by
      intro layout member
      obtain ⟨t, -, concrete, rfl⟩ := Typedef.exists_of_mem_layouts member
      exact concrete
    obtain ⟨item, written, encodable⟩ :=
      @Ccf.exists_messageItem false _ wellFormed _ inline _ inhabits nofun
    obtain ⟨bytes, encoded⟩ := Cbor.exists_encodes item encodable
    have writable := inhabits.writable (Typedef.closed wellFormed.fields) concrete inline tree
    exact ⟨JsonCdc.exists_valueTree _ writable [], item, bytes, written, encoded⟩

/-- The text of an event of an optional and a structure. -/
def eventText : String :=
  "\x7b\"type\":\"Event\",\"value\":\x7b\"id\":\"E\",\"fields\":[" ++
    "\x7b\"name\":\"a\",\"value\":\x7b\"type\":\"Optional\",\"value\":" ++
      "\x7b\"type\":\"Optional\",\"value\":null\x7d\x7d\x7d," ++
    "\x7b\"name\":\"b\",\"value\":\x7b\"type\":\"Struct\",\"value\":" ++
      "\x7b\"id\":\"S\",\"fields\":[\x7b\"name\":\"n\",\"value\":" ++
        "\x7b\"type\":\"UInt16\",\"value\":\"300\"\x7d\x7d]\x7d\x7d\x7d]\x7d\x7d"

def eventTree : Json :=
  .object [("type", .string "Event"), ("value", .object [("id", .string "E"), ("fields", .array [
    .object [("name", .string "a"), ("value", .object [("type", .string "Optional"),
      ("value", .object [("type", .string "Optional"), ("value", .null)])])],
    .object [("name", .string "b"), ("value", .object [("type", .string "Struct"),
      ("value", .object [("id", .string "S"), ("fields", .array [.object [("name", .string "n"),
        ("value", .object [("type", .string "UInt16"), ("value", .string "300")])]])])])]])])]

set_option maxRecDepth 8000 in
private theorem compact_eventTree : eventTree.compact = eventText := rfl

private theorem ofBytes?_eventText : Json.ofBytes? (Utf8.encode eventText) = some eventTree := by
  have readable : eventTree.Readable Json.maxDepth := by
    simp [eventTree, Json.Readable, Json.maxDepth]
  rw [← compact_eventTree]
  exact Json.ofBytes?_compact readable

/-- An event with a missing optional within one that is there, and with a structure, the type of
which is defined behind that of the event. -/
theorem toPlain_agree_event :
    ∃ left right, JsonCdc.decode .lenient (Utf8.encode eventText) = .ok left ∧
      Ccf.decode [0xd8, 0x81, 0x82, 0x82,
        0xd8, 0xa2, 0x83, 0x41, 0x01, 0x61, 0x45, 0x82,
        0x82, 0x61, 0x61, 0xd8, 0x8a, 0xd8, 0x8a, 0xd8, 0x89, 0x00,
        0x82, 0x61, 0x62, 0xd8, 0x88, 0x41, 0x02,
        0xd8, 0xa0, 0x83, 0x41, 0x02, 0x61, 0x53, 0x81, 0x82, 0x61, 0x6e, 0xd8, 0x89, 0x0d,
        0x82, 0xd8, 0x88, 0x41, 0x01,
        0x82, 0xf6, 0x81, 0x19, 0x01, 0x2c] = .ok right ∧
      left.toPlain = right.toPlain ∧ left.eventFields = right.eventFields := by
  let count : Integer := ⟨.uintOf .w16, 300, by decide⟩
  let event : NominalType := ⟨.event, "E"⟩
  let struct : NominalType := ⟨.struct, "S"⟩
  let twice : StaticType := .optional (.optional (.simple .bool))
  let small : StaticType := .simple (.integer (.uintOf .w16))
  let v : Value := .composite event [(⟨"a", some twice⟩, .present .nil),
    (⟨"b", some (.nominal struct)⟩, .composite struct [(⟨"n", some small⟩, .integer count)])]
  have showing : v.Every Showing :=
    ⟨trivial, ⟨trivial, trivial⟩, ⟨trivial, trivial, trivial⟩, trivial⟩
  have spelled : count.text = "300" := by decide
  have number : JsonCdc.PayloadTree false [] (.integer count) (.string "300") [] :=
    spelled ▸ .integer count
  have tree : ValueTree false [] (v.erase .ofTrees) eventTree [] :=
    .valued rfl rfl (.composite rfl rfl rfl
      (.cons rfl rfl (.valued rfl rfl (.present (.valued rfl rfl .nil)))
      (.cons rfl rfl (.valued rfl rfl (.composite rfl rfl rfl
        (.cons rfl rfl (.valued rfl rfl number) .nil))) .nil)))
  let defined : List Typedef := [⟨[1], event, [("a", twice), ("b", .nominal struct)]⟩,
    ⟨[2], struct, [("n", small)]⟩]
  let definitions := Typedef.definitions defined
  have toEvent : Ccf.InlineItem definitions.table (.nominal event) (.tag 136 (.bytes [1])) :=
    .known rfl
  have toStruct : Ccf.InlineItem definitions.table (.nominal struct) (.tag 136 (.bytes [2])) :=
    .known rfl
  have typedefs : Ccf.TypedefsItem defined _ := .typedefs (by decide)
    (.cons (.composite rfl [1] "E" (.cons (.field "a" (.optional (.optional (.simple .bool))))
        (.cons (.field "b" toStruct) .nil)))
      (.cons (.composite rfl [2] "S" (.cons (.field "n" (.simple _)) .nil)) .nil))
  have ofEvent : definitions.LaysOut "E" ⟨event, _⟩ := ⟨[], [_], rfl, rfl, by simp [struct]⟩
  have ofStruct : definitions.LaysOut "S" ⟨struct, _⟩ := ⟨[_], [], rfl, rfl, by simp⟩
  have counted : Ccf.ValueItem false definitions [] small (.integer count) (.integer 300) [] :=
    .simple (.integer (.integer count.value))
  have inner : Ccf.ValueItem false definitions [] (.nominal struct) _ _ [] :=
    .composite rfl ofStruct (.cons "n" counted .nil)
  have outer : Ccf.ValueItem false definitions [] (.nominal event) _ _ [] :=
    .composite rfl ofEvent (.cons "a" (.present nofun (.nil _)) (.cons "b" inner .nil))
  refine toPlain_agree.1 _ _ _ _ _ _ showing tree ofBytes?_eventText
    (.message typedefs toEvent outer) (by decide) ?_
  have id (b : UInt8) : Encodes (.bytes [b]) [0x41, b] := Cbor.encodes_bytes (by simp)
  have reference (b : UInt8) := Cbor.encodes_tag 136 (id b)
  have natural {n : Nat} (small : n < 24) := Cbor.encodes_tag 137 (Cbor.encodes_natural small)
  have many : Encodes (.integer 300) [0x19, 0x01, 0x2c] :=
    .unsigned (@Cbor.Numbered.following 0 25 [0x01, 0x2c] (by decide))
  have eventFields := Cbor.encodes_pair
    (Cbor.encodes_pair (@Cbor.encodes_text "a" (by decide))
      (Cbor.encodes_tag 138 (Cbor.encodes_tag 138 (@natural 0 (by decide)))))
    (Cbor.encodes_pair (@Cbor.encodes_text "b" (by decide)) (reference 2))
  have structFields := Cbor.encodes_array (.cons
    (Cbor.encodes_pair (@Cbor.encodes_text "n" (by decide)) (@natural 13 (by decide))) .nil)
    (by decide)
  have eventDefined := Cbor.encodes_tag 162
    (Cbor.encodes_triple (id 1) (@Cbor.encodes_text "E" (by decide)) eventFields)
  have structDefined := Cbor.encodes_tag 160
    (Cbor.encodes_triple (id 2) (@Cbor.encodes_text "S" (by decide)) structFields)
  have contents := Cbor.encodes_pair .null (Cbor.encodes_array (.cons many .nil) (by decide))
  exact Cbor.encodes_tag 129 (Cbor.encodes_pair (Cbor.encodes_pair eventDefined structDefined)
    (Cbor.encodes_pair (reference 1) contents))

end CadenceWire
