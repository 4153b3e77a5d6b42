import CadenceWire.Payload
import CadenceWire.Proofs.Ccf.Payload
import Mathlib.Data.List.TakeDrop

/-!
Payloads of which the format is not known. No bytes are a message of both formats, so it makes no
difference which of the two is tried first.
-/
namespace CadenceWire

theorem Utf8.exists_high_of_encode {s : String} {first : UInt8} {rest : List UInt8}
    (written : first :: rest = encode s) (high : 128 ≤ first.toNat) :
    ∃ c cs, s.toList = c :: cs ∧ 128 ≤ c.toNat := by
  have bytes : first :: rest = s.toList.flatMap String.utf8EncodeChar := by
    rw [written, ← encode_ofList, String.ofList_toList]
  cases chars : s.toList with
  | nil =>
    rw [chars] at bytes
    cases bytes
  | cons c cs =>
    refine ⟨c, cs, rfl, ?_⟩
    by_contra low
    have ascii : c.val.toNat ≤ 127 := by
      change ¬ 128 ≤ c.val.toNat at low
      omega
    have single : String.utf8EncodeChar c = [UInt8.ofNat c.val.toNat] := if_pos ascii
    rw [chars, List.flatMap_cons, single] at bytes
    have same : first.toNat = c.val.toNat % 256 := by
      rw [(List.cons.inj bytes).1, UInt8.toNat_ofNat']
    omega

namespace Json

variable {c : Char} {cs : List Char}

private theorem ne_of_high (high : 128 ≤ c.toNat) {d : Char} (low : d.toNat < 128) : c ≠ d := by
  intro same
  rw [same] at high
  omega

private theorem isBlank_of_high (high : 128 ≤ c.toNat) : Reader.isBlank c = false := by
  have different {d : Char} (low : d.toNat < 128) : c ≠ d := ne_of_high high low
  simp [Reader.isBlank, different]

private theorem isDigit_of_high (high : 128 ≤ c.toNat) : c.isDigit = false := by
  have beyond : ¬ c.val ≤ 57 := by
    intro small
    have least : c.toNat ≤ 57 := small
    omega
  simp [Char.isDigit, beyond]

private theorem number_of_high (high : 128 ≤ c.toNat) : Reader.number (c :: cs) = none := by
  have whole : Reader.whole (c :: cs) = none := by
    simp [Reader.whole, Reader.digits, List.span_eq_takeWhile_dropWhile, isDigit_of_high high]
  unfold Reader.number
  split
  next negative unsigned signed =>
    split at signed
    next same => exact absurd (List.cons.inj same).1 (ne_of_high high (by decide))
    next =>
      obtain ⟨-, rfl⟩ := Prod.mk.inj signed
      rw [whole]
      rfl

private theorem scalar_of_high (high : 128 ≤ c.toNat) : Reader.scalar (c :: cs) = none := by
  unfold Reader.scalar
  split
  next same => exact absurd (List.cons.inj same).1 (ne_of_high high (by decide))
  next same => exact absurd (List.cons.inj same).1 (ne_of_high high (by decide))
  next same => exact absurd (List.cons.inj same).1 (ne_of_high high (by decide))
  next same => exact absurd (List.cons.inj same).1 (ne_of_high high (by decide))
  next =>
    rw [number_of_high high]
    rfl

/-- Neither blanks nor values begin with a character beyond ASCII. -/
theorem ofText?_of_high (high : 128 ≤ c.toNat) : ofText? (c :: cs) = none := by
  have stays : Reader.skipBlanks (c :: cs) = c :: cs := by
    rw [Reader.skipBlanks, List.dropWhile_cons_of_neg (by simp [isBlank_of_high high])]
  have value : Reader.value maxDepth (c :: cs) = none := by
    unfold maxDepth Reader.value
    rw [stays]
    split
    next same => exact absurd (List.cons.inj same).1 (ne_of_high high (by decide))
    next same => exact absurd (List.cons.inj same).1 (ne_of_high high (by decide))
    next => exact scalar_of_high high
  rw [ofText?, value]
  rfl

private theorem ofBytes?_of_high {first : UInt8} {rest : List UInt8} (high : 128 ≤ first.toNat) :
    ofBytes? (first :: rest) = none := by
  cases decoded : Utf8.decode? (first :: rest) with
  | none =>
    rw [ofBytes?, decoded]
    rfl
  | some s =>
    obtain ⟨c, cs, chars, beyond⟩ :=
      Utf8.exists_high_of_encode (Utf8.decode?_eq_some_iff.1 decoded) high
    rw [ofBytes?, decoded]
    change ofText? s.toList = none
    rw [chars]
    exact ofText?_of_high beyond

end Json

theorem Ccf.exists_tag_of_message {item : Cbor.Item} {v : Value} (read : message item = .ok v) :
    ∃ number content, item = .tag number content := by
  cases item with
  | tag number content => exact ⟨number, content, rfl⟩
  | _ => cases read

/-- A message begins with the head of a tag, however wide that is. -/
theorem Ccf.exists_high_of_decode {payload : List UInt8} {v : Value}
    (decoded : decode payload = .ok v) :
    ∃ first rest, payload = first :: rest ∧ 128 ≤ first.toNat := by
  obtain ⟨item, whole, read⟩ := decode_eq_ok.1 decoded
  obtain ⟨number, content, rfl⟩ := exists_tag_of_message read
  obtain ⟨bytes, encoded, -, rfl⟩ := Cbor.read_eq_ok.1 whole
  have high (information : Nat) (short : information < 32) :
      128 ≤ (Cbor.firstByte 6 information).toNat := by
    have major := Cbor.firstByte_div (by decide : 6 < 8) short
    omega
  cases encoded with
  | tag head inner =>
    cases head with
    | immediate small => exact ⟨_, _, rfl, high _ (by omega)⟩
    | @following information argument size =>
      have short : information < 32 := by
        simp only [Cbor.followingSizes, List.mem_cons, Prod.mk.injEq, List.not_mem_nil,
          or_false] at size
        omega
      exact ⟨_, _, rfl, high information short⟩

namespace Format

open JsonCdc (Options)

variable (options : Options) (payload : List UInt8)

/-- CCF, and JSON-CDC if that fails. -/
def decodeReversed : Except Failure Value :=
  match Ccf.decode payload with
  | .ok value => .ok value
  | .error ccfCause => (JsonCdc.decode options payload).mapError (.neither · ccfCause)

variable {options payload}

private theorem json_malformed {v : Value} (decoded : Ccf.decode payload = .ok v) :
    JsonCdc.decode options payload = .error .malformed := by
  obtain ⟨first, rest, rfl, high⟩ := Ccf.exists_high_of_decode decoded
  rw [JsonCdc.decode, Json.ofBytes?_of_high high]

variable (options payload)

/-- What is a message is no JSON at all. So a payload of either format is decoded to the value that
it has in that format, and to the same whichever is tried first; for any other the causes of both
failures are given. -/
theorem decode_auto :
    (∀ v, Ccf.decode payload = .ok v → JsonCdc.decode options payload = .error .malformed) ∧
    (∀ v, auto.decode options payload = .ok v ↔
      JsonCdc.decode options payload = .ok v ∨ Ccf.decode payload = .ok v) ∧
    (∀ failure, auto.decode options payload = .error failure ↔
      ∃ jsonCause ccfCause, JsonCdc.decode options payload = .error jsonCause ∧
        Ccf.decode payload = .error ccfCause ∧ failure = .neither jsonCause ccfCause) ∧
    auto.decode options payload = decodeReversed options payload := by
  refine ⟨fun v => json_malformed, ?_⟩
  unfold decodeReversed Format.decode
  cases json : JsonCdc.decode options payload with
  | ok found =>
    cases ccf : Ccf.decode payload with
    | ok other =>
      have refused : JsonCdc.decode options payload = .error .malformed := json_malformed ccf
      rw [json] at refused
      cases refused
    | error ccfCause => simp [Except.mapError]
  | error jsonCause =>
    cases Ccf.decode payload with
    | ok found => simp [Except.mapError]
    | error ccfCause => simp [Except.mapError, eq_comm]

/-- A truth value. -/
theorem decode_auto_bool :
    JsonCdc.decode .lenient [0xd8, 0x82, 0x82, 0xd8, 0x89, 0x00, 0xf5] = .error .malformed ∧
      auto.decode .lenient [0xd8, 0x82, 0x82, 0xd8, 0x89, 0x00, 0xf5] = .ok (.bool true) := by
  have decoded : Ccf.decode [0xd8, 0x82, 0x82, 0xd8, 0x89, 0x00, 0xf5] = .ok (.bool true) := rfl
  obtain ⟨disjoint, accepted, -⟩ :=
    decode_auto .lenient [0xd8, 0x82, 0x82, 0xd8, 0x89, 0x00, 0xf5]
  exact ⟨disjoint _ decoded, (accepted _).2 (.inr decoded)⟩

end Format

end CadenceWire
