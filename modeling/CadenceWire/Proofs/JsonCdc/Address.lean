import CadenceWire.Proofs.JsonCdc.Numeral
import CadenceWire.Proofs.Text.Address

/-!
Addresses as text. Every number of eight bytes has one address and one text that shows it, which is
read in a payload as it is on its own.
-/
namespace CadenceWire.JsonCdc

open Hex (Numeral IsWritten)

variable {options : Options} {payload : List UInt8} {members : Json.Members}

private theorem decode_shown (a : Address) (read : Json.ofBytes? payload = some (.object members))
    (named : members.last? "type" = some (.string ValueKind.address.name))
    (shown : members.last? "value" = some (.string a.text)) :
    decode options payload = .ok (.address a) := by
  have scalar : JsonCdc.payload options .address (.string a.text) =
      liftM (Value.address <$> address options (.string a.text)) := rfl
  rw [decode, read]
  dsimp only
  rw [value_of_last? named shown (by simp) (by simp), scalar, address_text]
  rfl

/-- Address text is canonical. Read are one to sixteen digits of either case, as the eight bytes of
the number that they denote, so that the number tells the address; with lengths taken in bytes it is
the same. An address is written in sixteen digits of lower case, and read back from them, on their
own and in a payload that shows it. Characters of several bytes are refused. -/
theorem address_canonical :
    (∀ (s : String) (a : Address), Address.ofDigits? s.toList = some a ↔
      ∃ n, Numeral s.toList n ∧ s.toList.length ≤ 16 ∧ Cbor.bigEndian a.bytes = n) ∧
    (∀ s : String, Address.ofEncoded s =
      ((Address.ofDigits? s.toList).map .ok).getD (.error (.refused ()))) ∧
    (∀ (s t : String) (a b : Address) (m n : Nat), Address.ofDigits? s.toList = some a →
      Address.ofDigits? t.toList = some b → Numeral s.toList m → Numeral t.toList n →
      (a = b ↔ m = n)) ∧
    (∀ a : Address, a.hex.toList.length = 16 ∧ (∀ c ∈ a.hex.toList, IsWritten c) ∧
      Address.ofDigits? a.hex.toList = some a) ∧
    (∀ (options : Options) (payload : List UInt8) (members : Json.Members) (a : Address),
      Json.ofBytes? payload = some (.object members) →
      members.last? "type" = some (.string "Address") →
      members.last? "value" = some (.string a.text) →
      decode options payload = .ok (.address a)) ∧
    ∀ s : String, (∃ c ∈ s.toList, 1 < c.utf8Size) →
      Address.ofDigits? s.toList = none ∧ Address.ofEncoded s = .error (.refused ()) := by
  refine ⟨fun s a => Address.ofDigits?_eq_some_iff, Address.ofEncoded_eq,
    fun s t a b m n => Address.eq_iff_of_numeral, fun a => ⟨a.length_hex, ?_, a.ofDigits?_hex⟩,
    fun options payload members a => decode_shown a, fun s multiple => ?_⟩
  · exact fun c => Hex.isWritten_of_mem_encode
  · exact ⟨Address.ofDigits?_of_multiple multiple, Address.ofEncoded_of_multiple multiple⟩

/-- Digits of both cases with zeros in front, those of the next number, and text of as many bytes as
there may be digits. -/
theorem address_canonical_next :
    let a : Address := ⟨[0, 0, 0, 0, 0, 0, 0x12, 0xab], rfl⟩
    let b : Address := ⟨[0, 0, 0, 0, 0, 0, 0x12, 0xac], rfl⟩
    Address.ofDigits? "0012aB".toList = some a ∧ Address.ofDigits? "12AC".toList = some b ∧
      Numeral "0012aB".toList 0x12ab ∧ Numeral "12AC".toList 0x12ac ∧ a ≠ b ∧
      decode .strict (typed .address ("\"" ++ a.text ++ "\"")) = .ok (.address a) ∧
      Address.ofDigits? "éééééééé".toList = none ∧
      Address.ofEncoded "éééééééé" = .error (.refused ()) := by
  intro a b
  obtain ⟨exact_digits, -, tells, -, shown, refused⟩ := address_canonical
  have read : Address.ofDigits? "0012aB".toList = some a := by decide
  have read' : Address.ofDigits? "12AC".toList = some b := by decide
  obtain ⟨n, numeral, -, rfl⟩ := (exact_digits _ a).1 read
  obtain ⟨m, numeral', -, rfl⟩ := (exact_digits _ b).1 read'
  have different : a ≠ b := mt (tells _ _ a b _ _ read read' numeral numeral').1 (by decide)
  obtain ⟨none, stopped⟩ := refused "éééééééé" ⟨'é', by decide, by decide⟩
  have payload := shown .strict _ _ a (@ofBytes?_quoted .address _ (by decide)) rfl rfl
  exact ⟨read, read', numeral, numeral', different, payload, none, stopped⟩

end CadenceWire.JsonCdc
