import CadenceWire.Ccf.Value
import CadenceWire.Proofs.Cbor.Cut

/-!
Payloads that are messages. Where a message ends its own bytes tell, so that bytes too many and
bytes too few are noticed alike.
-/
namespace CadenceWire.Ccf

open Cbor (Item)

variable {payload : List UInt8} {item : Item} {v : Value}

/-- What a message opens with: the definitions by which its types are read, of which there may be
none, and the type of its value. -/
inductive Opens : Item → Definitions → StaticType → Item → Prop
  | defining {definitions : Definitions} {type : StaticType} {first second third : Item}
      (defined : Definitions.read first = .ok definitions)
      (typed : inlineType definitions.table second = .ok type) :
      Opens (.tag 129 (.array [first, .array [second, third]])) definitions type third
  | bare {type : StaticType} {second third : Item}
      (typed : inlineType Definitions.empty.table second = .ok type) :
      Opens (.tag 130 (.array [second, third])) .empty type third

private theorem typeAndValue_yields {definitions : Definitions} {before after : Bound} :
    Yields (typeAndValue definitions item) before v after ↔
      ∃ second third type, item = .array [second, third] ∧
        inlineType definitions.table second = .ok type ∧
        Yields (value definitions type third) before v after := by
  constructor
  · intro read
    unfold typeAndValue at read
    split at read
    next second third =>
      obtain ⟨type, typed, inner⟩ := yields_lift_bind.1 read
      exact ⟨second, third, type, rfl, typed, inner⟩
    next => exact absurd read not_yields_throw
  · intro ⟨second, third, type, same, typed, inner⟩
    rw [same, typeAndValue]
    exact yields_lift_bind.2 ⟨type, typed, inner⟩

/-- A message is read by what it opens with, with no types written out before. -/
theorem message_eq_ok :
    message item = .ok v ↔
      ∃ definitions type third after, Opens item definitions type third ∧
        Yields (value definitions type third) [] v after := by
  constructor
  · intro read
    unfold message at read
    split at read
    next first body =>
      obtain ⟨definitions, defined, inner⟩ := bind_eq_ok.1 read
      obtain ⟨after, yielded⟩ := run'_eq_ok.1 inner
      obtain ⟨second, third, type, rfl, typed, value⟩ := typeAndValue_yields.1 yielded
      exact ⟨definitions, type, third, after, .defining defined typed, value⟩
    next => cases read
    next body =>
      obtain ⟨after, yielded⟩ := run'_eq_ok.1 read
      obtain ⟨second, third, type, rfl, typed, value⟩ := typeAndValue_yields.1 yielded
      exact ⟨.empty, type, third, after, .bare typed, value⟩
    next => cases read
    next => cases read
  · intro ⟨definitions, type, third, after, opens, read⟩
    cases opens with
    | defining defined typed =>
      have inner := run'_eq_ok.2 ⟨after, typeAndValue_yields.2 ⟨_, _, type, rfl, typed, read⟩⟩
      exact bind_eq_ok.2 ⟨definitions, defined, inner⟩
    | bare typed => exact run'_eq_ok.2 ⟨after, typeAndValue_yields.2 ⟨_, _, type, rfl, typed, read⟩⟩

private theorem decode_of_read (whole : Cbor.read payload = .ok (item, [])) :
    decode payload = message item := by
  simp only [decode, whole]
  rfl

theorem decode_eq_ok :
    decode payload = .ok v ↔
      ∃ item, Cbor.read payload = .ok (item, []) ∧ message item = .ok v := by
  constructor
  · intro decoded
    obtain ⟨⟨item, rest⟩, read, accepted⟩ := bind_eq_ok.1 decoded
    have first : Cbor.read payload = .ok (item, rest) := mapError_eq_ok.1 read
    dsimp only at accepted
    by_cases nothing : rest = []
    · rw [if_neg (not_not_intro nothing)] at accepted
      rw [nothing] at first
      exact ⟨item, first, accepted⟩
    · rw [if_pos nothing] at accepted
      cases accepted
  · rintro ⟨item, whole, accepted⟩
    rw [decode_of_read whole]
    exact accepted

private theorem decode_append (whole : Cbor.read payload = .ok (item, [])) {more : List UInt8}
    (some : more ≠ []) : decode (payload ++ more) = .error (.trailingBytes more.length) := by
  have read := Cbor.read_append whole more
  simp only [decode, read, Except.mapError, bind, Except.bind, if_pos some]
  rfl

private theorem decode_front {front behind : List UInt8}
    (whole : Cbor.read (front ++ behind) = .ok (item, [])) (cut : behind ≠ []) :
    decode front = .error (.malformed .endOfInput) := by
  have read := Cbor.read_front whole cut
  simp only [decode, read]
  rfl

/-- Whatever the item that a payload consists of, bytes behind it are counted as trailing, and if it
is cut short anywhere, even within a head or a character, the input comes to its end. Hence no
message begins with another. -/
theorem decode_delimited :
    (∀ payload item, Cbor.read payload = .ok (item, []) →
      (∀ more, more ≠ [] → decode (payload ++ more) = .error (.trailingBytes more.length)) ∧
      ∀ front behind, payload = front ++ behind → behind ≠ [] →
        decode front = .error (.malformed .endOfInput)) ∧
    ∀ payload payload' v v', decode payload = .ok v → decode payload' = .ok v' →
      payload ≠ payload' → ¬ payload <+: payload' := by
  refine ⟨?item, ?message⟩
  case item =>
    intro payload item whole
    refine ⟨fun more some => decode_append whole some, ?_⟩
    rintro front behind rfl cut
    exact decode_front whole cut
  case message =>
    rintro payload _ v v' decoded decoded' different ⟨behind, rfl⟩
    obtain ⟨item, whole, -⟩ := decode_eq_ok.1 decoded
    have longer : behind ≠ [] := by
      rintro rfl
      apply different
      rw [List.append_nil]
    have refused := decode_append whole longer
    rw [decoded'] at refused
    cases refused

/-- A message of a text of two bytes: behind it lies a byte, or the second of its two bytes is cut
off. -/
theorem decode_delimited_character :
    decode [0xd8, 0x82, 0x82, 0xd8, 0x89, 0x01, 0x62, 0xc3, 0xa9] = .ok (.string "é") ∧
      decode [0xd8, 0x82, 0x82, 0xd8, 0x89, 0x01, 0x62, 0xc3, 0xa9, 0] =
        .error (.trailingBytes 1) ∧
      decode [0xd8, 0x82, 0x82, 0xd8, 0x89, 0x01, 0x62, 0xc3] = .error (.malformed .endOfInput) ∧
      decode [0xd8, 0x82, 0x82, 0xd8, 0x89, 0x01, 0x60] = .ok (.string "") ∧
      ¬ [0xd8, 0x82, 0x82, 0xd8, 0x89, 0x01, 0x60] <+:
        [0xd8, 0x82, 0x82, 0xd8, 0x89, 0x01, 0x62, 0xc3, (0xa9 : UInt8)] := by
  have whole : Cbor.read [0xd8, 0x82, 0x82, 0xd8, 0x89, 0x01, 0x62, 0xc3, 0xa9] =
      .ok (.tag 130 (.array [.tag 137 (.integer 1), .text "é"]), []) := rfl
  have decoded : decode [0xd8, 0x82, 0x82, 0xd8, 0x89, 0x01, 0x62, 0xc3, 0xa9] =
      .ok (.string "é") := (decode_of_read whole).trans rfl
  have empty : decode [0xd8, 0x82, 0x82, 0xd8, 0x89, 0x01, 0x60] = .ok (.string "") := rfl
  obtain ⟨longer, shorter⟩ := decode_delimited.1 _ _ whole
  refine ⟨decoded, ?_, ?_, empty, ?_⟩
  · exact longer [0] (by simp)
  · exact shorter _ [0xa9] rfl (by simp)
  · exact decode_delimited.2 _ _ _ _ empty decoded (by simp)

end CadenceWire.Ccf
