import CadenceWire.Proofs.Cbor.Complete
import CadenceWire.Proofs.Ccf.WrittenValue

/-!
Whole messages. A value that is written along with its type and the definitions that the type
needs is what the message is decoded to.
-/
namespace CadenceWire.Ccf

open Cbor (Item Encodes)

/-- The item of a message that defines types and brings a value of a type over them. -/
inductive MessageItem (lossless : Bool) (typedefs : List Typedef) (type : StaticType) (v : Value) :
    Item → Prop
  | message {first second third : Item} {after : Bound} (defined : TypedefsItem typedefs first)
      (typed : InlineItem (Typedef.table typedefs) type second)
      (inner : ValueItem lossless (Typedef.definitions typedefs) [] type v third after) :
      MessageItem lossless typedefs type v
        (.tag 129 (.array [first, .array [second, third]]))

/-- The identifiers of types are all different, interfaces are without fields, and the types of
fields are made of what is defined. They may well be those that the fields belong to. -/
structure Typedef.WellFormed (typedefs : List Typedef) : Prop where
  distinct : (typedefs.map (·.id)).Nodup
  interfaces : ∀ t ∈ typedefs, t.type.kind.isInterface = true → t.fields = []
  fields : ∀ t ∈ typedefs, ∀ field ∈ t.fields, IsInline (Typedef.table typedefs) field.2

private theorem message_of_messageItem {typedefs : List Typedef} {type : StaticType} {v : Value}
    {item : Item} (written : MessageItem true typedefs type v item) : message item = .ok v := by
  cases written with
  | @message first second third after defined typed inner =>
    have read : Yields (typeAndValue (Typedef.definitions typedefs) (.array [second, third])) [] v
        after := by
      simp only [typeAndValue, yields_bind, yields_lift]
      exact ⟨type, [], ⟨typed.eq_ok, rfl⟩, inner.yields⟩
    simp only [message, bind_eq_ok, run'_eq_ok]
    exact ⟨_, Definitions.read_eq_ok.2 ⟨typedefs, defined, rfl⟩, after, read⟩

theorem decode_of_messageItem {typedefs : List Typedef} {type : StaticType} {v : Value}
    {item : Item} (written : MessageItem true typedefs type v item)
    (shallow : item.height ≤ Cbor.maxDepth) {payload : List UInt8}
    (encoded : Encodes item payload) : decode payload = .ok v := by
  have read := Cbor.read_of_encodes encoded shallow []
  rw [List.append_nil] at read
  simp only [decode, read, Except.mapError, bind, Except.bind]
  exact message_of_messageItem written

private theorem exists_fieldItems {table : TypeTable} {fields : List (String × StaticType)}
    (inline : ∀ field ∈ fields, IsInline table field.2) :
    ∃ items, List.Forall₂ (FieldItem table) fields items ∧ (Item.array items).Encodable := by
  obtain ⟨items, laid, encodable⟩ : ∃ items, List.Forall₂ (FieldItem table) fields items ∧
      ∀ item ∈ items, item.Encodable := by
    refine exists_forall₂ fun field member => ?_
    obtain ⟨item, typed, encodable⟩ := exists_inlineItem field.2 (inline field member)
    exact ⟨_, .field field.1 typed, trivial, encodable, trivial⟩
  exact ⟨items, laid, Cbor.Item.encodable_array.2 encodable⟩

private theorem exists_typedefItem {table : TypeTable} {t : Typedef}
    (interface : t.type.kind.isInterface = true → t.fields = [])
    (inline : ∀ field ∈ t.fields, IsInline table field.2) :
    ∃ item, TypedefItem table t item ∧ item.Encodable := by
  obtain ⟨id, ⟨kind, name⟩, fields⟩ := t
  have small : definedTag kind < Width.w64.count := by cases kind <;> decide
  by_cases isInterface : kind.isInterface = true
  · obtain rfl : fields = [] := interface isInterface
    exact ⟨_, .interface isInterface id name, small, trivial, trivial, trivial⟩
  · obtain ⟨items, laid, encodable⟩ := exists_fieldItems inline
    exact ⟨_, .composite (Bool.eq_false_iff.2 isInterface) id name laid, small, trivial, trivial,
      encodable, trivial⟩

private theorem exists_typedefsItem {typedefs : List Typedef}
    (wellFormed : Typedef.WellFormed typedefs) :
    ∃ item, TypedefsItem typedefs item ∧ item.Encodable := by
  obtain ⟨items, defined, encodable⟩ := exists_forall₂ fun t member =>
    exists_typedefItem (wellFormed.interfaces t member) (wellFormed.fields t member)
  exact ⟨_, .typedefs wellFormed.distinct defined, Cbor.Item.encodable_array.2 encodable⟩

theorem exists_messageItem {lossless : Bool} {typedefs : List Typedef}
    (wellFormed : Typedef.WellFormed typedefs) {type : StaticType}
    (inline : IsInline (Typedef.table typedefs) type) {v : Value}
    (inhabits : Inhabits (Typedef.definitions typedefs) type v)
    (telling : lossless = true → v.Every Telling) :
    ∃ item, MessageItem lossless typedefs type v item ∧ item.Encodable := by
  obtain ⟨first, defined, encodable⟩ := exists_typedefsItem wellFormed
  obtain ⟨second, typed, encodable'⟩ := exists_inlineItem type inline
  obtain ⟨third, after, inner, encodable''⟩ := exists_valueItem inhabits telling []
  exact ⟨_, .message defined typed inner, by decide,
    encodable_pair.2 ⟨encodable, encodable_pair.2 ⟨encodable', encodable''⟩⟩⟩

/-- Decoding is inverse to writing. Every value of a type has a message, unless it holds an optional
whose content is written as null; and whatever bytes are written for a message with the value, so
long as they nest no deeper than can be read, they are decoded to it. -/
theorem decode_message {typedefs : List Typedef} {type : StaticType} {v : Value} :
    (∀ item payload, MessageItem true typedefs type v item → item.height ≤ 256 →
      Encodes item payload → decode payload = .ok v) ∧
    (Typedef.WellFormed typedefs → IsInline (Typedef.table typedefs) type →
      Inhabits (Typedef.definitions typedefs) type v → v.Every Telling →
        ∃ item payload, MessageItem true typedefs type v item ∧ Encodes item payload) := by
  constructor
  · intro item payload written shallow encoded
    exact decode_of_messageItem written shallow encoded
  · intro wellFormed inline inhabits telling
    obtain ⟨item, written, encodable⟩ :=
      exists_messageItem wellFormed inline inhabits fun _ => telling
    obtain ⟨payload, encoded⟩ := Cbor.exists_encodes item encodable
    exact ⟨item, payload, written, encoded⟩

/-- Two types with fields of each other. The structure that is brought is of the first; it holds a
resource of the second, which holds a structure again and a text that brings its own type. -/
theorem decode_message_mutual :
    let node : NominalType := ⟨.struct, "N"⟩
    let list : NominalType := ⟨.resource, "L"⟩
    let size : Field := ⟨"size", some (.simple (.integer (.uintOf .w16)))⟩
    let rest : Field := ⟨"rest", some (.optional (.nominal list))⟩
    let first : Field := ⟨"first", some (.nominal node)⟩
    let note : Field := ⟨"note", some (.simple (.abstract .anyStruct))⟩
    let small : Value := .composite node
      [(size, .integer ⟨.uintOf .w16, 1, by decide⟩), (rest, .nil)]
    decode [0xd8, 0x81, 0x82, 0x82,
        0xd8, 0xa0, 0x83, 0x41, 0x01, 0x61, 0x4e, 0x82,
        0x82, 0x64, 0x73, 0x69, 0x7a, 0x65, 0xd8, 0x89, 0x0d,
        0x82, 0x64, 0x72, 0x65, 0x73, 0x74, 0xd8, 0x8a, 0xd8, 0x88, 0x41, 0x02,
        0xd8, 0xa1, 0x83, 0x41, 0x02, 0x61, 0x4c, 0x82,
        0x82, 0x65, 0x66, 0x69, 0x72, 0x73, 0x74, 0xd8, 0x88, 0x41, 0x01,
        0x82, 0x64, 0x6e, 0x6f, 0x74, 0x65, 0xd8, 0x89, 0x18, 0x27,
        0x82, 0xd8, 0x88, 0x41, 0x01,
        0x82, 0x19, 0x01, 0x2c, 0x82, 0x82, 0x01, 0xf6,
        0xd8, 0x82, 0x82, 0xd8, 0x89, 0x01, 0x62, 0x68, 0x69] =
      .ok (.composite node [(size, .integer ⟨.uintOf .w16, 300, by decide⟩),
        (rest, .present (.composite list [(first, small), (note, .string "hi")]))]) := by
  intro node list size rest first note small
  let defined : List Typedef := [
    ⟨[1], node, [("size", .simple (.integer (.uintOf .w16))), ("rest", .optional (.nominal list))]⟩,
    ⟨[2], list, [("first", .nominal node), ("note", .simple (.abstract .anyStruct))]⟩]
  let definitions := Typedef.definitions defined
  have toNode : InlineItem definitions.table (.nominal node) (.tag 136 (.bytes [1])) := .known rfl
  have toList : InlineItem definitions.table (.nominal list) (.tag 136 (.bytes [2])) := .known rfl
  have typedefs : TypedefsItem defined _ := .typedefs (by decide)
    (.cons (.composite rfl [1] "N" (.cons (.field "size" (.simple _))
        (.cons (.field "rest" (.optional toList)) .nil)))
      (.cons (.composite rfl [2] "L" (.cons (.field "first" toNode)
        (.cons (.field "note" (.simple _)) .nil))) .nil))
  have ofNode : definitions.LaysOut "N" ⟨node, _⟩ := ⟨[], [_], rfl, rfl, by simp [list]⟩
  have ofList : definitions.LaysOut "L" ⟨list, _⟩ := ⟨[_], [], rfl, rfl, by simp⟩
  have counted (n : Integer) : ValueItem true definitions [] (.simple (.integer n.kind))
      (.integer n) (.integer n.value) [] := .simple (.integer (.integer n.value))
  have inner : ValueItem true definitions [] (.nominal node) _ _ [] :=
    .composite rfl ofNode (.cons "size" (counted ⟨.uintOf .w16, 1, by decide⟩)
      (.cons "rest" (.nil _) .nil))
  have text : ValueItem true definitions [] (.simple (.abstract .anyStruct)) (.string "hi") _ [] :=
    .embedded (.abstract _) (.simple .string) (.simple (.string "hi"))
  have middle : ValueItem true definitions [] (.nominal list) _ _ [] :=
    .composite rfl ofList (.cons "first" inner (.cons "note" text .nil))
  have outer : ValueItem true definitions [] (.nominal node) _ _ [] :=
    .composite rfl ofNode (.cons "size" (counted ⟨.uintOf .w16, 300, by decide⟩)
      (.cons "rest" (.present (by simp) middle) .nil))
  refine decode_message.1 _ _ (.message typedefs toNode outer) (by decide) ?_
  have id (b : UInt8) : Encodes (.bytes [b]) [0x41, b] := Cbor.encodes_bytes (by simp)
  have reference (b : UInt8) := Cbor.encodes_tag 136 (id b)
  have natural := Cbor.encodes_tag 137 (@Cbor.encodes_natural 13 (by decide))
  have string := Cbor.encodes_tag 137 (@Cbor.encodes_natural 1 (by decide))
  have any : Encodes (.integer 39) [0x18, 0x27] :=
    .unsigned (@Cbor.Numbered.following 0 24 [0x27] (by decide))
  have many : Encodes (.integer 300) [0x19, 0x01, 0x2c] :=
    .unsigned (@Cbor.Numbered.following 0 25 [0x01, 0x2c] (by decide))
  have nodeFields := Cbor.encodes_pair
    (Cbor.encodes_pair (@Cbor.encodes_text "size" (by decide)) natural)
    (Cbor.encodes_pair (@Cbor.encodes_text "rest" (by decide)) (Cbor.encodes_tag 138 (reference 2)))
  have listFields := Cbor.encodes_pair
    (Cbor.encodes_pair (@Cbor.encodes_text "first" (by decide)) (reference 1))
    (Cbor.encodes_pair (@Cbor.encodes_text "note" (by decide)) (Cbor.encodes_tag 137 any))
  have nodeDefined := Cbor.encodes_tag 160
    (Cbor.encodes_triple (id 1) (@Cbor.encodes_text "N" (by decide)) nodeFields)
  have listDefined := Cbor.encodes_tag 161
    (Cbor.encodes_triple (id 2) (@Cbor.encodes_text "L" (by decide)) listFields)
  have contents := Cbor.encodes_pair
    (Cbor.encodes_pair (@Cbor.encodes_natural 1 (by decide)) .null)
    (Cbor.encodes_tag 130 (Cbor.encodes_pair string (@Cbor.encodes_text "hi" (by decide))))
  exact Cbor.encodes_tag 129 (Cbor.encodes_pair (Cbor.encodes_pair nodeDefined listDefined)
    (Cbor.encodes_pair (reference 1) (Cbor.encodes_pair many contents)))

end CadenceWire.Ccf
