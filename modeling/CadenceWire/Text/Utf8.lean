/-!
Text and its bytes. Reading and writing are inverse: a byte sequence is read as a text exactly
when it is what that text is written as.
-/
namespace CadenceWire.Utf8

/-- The bytes a text is written as. -/
def encode (s : String) : List UInt8 := s.toByteArray.data.toList

/-- The text that a byte sequence is, if it is well formed. -/
def decode? (bytes : List UInt8) : Option String := String.fromUTF8? ⟨bytes.toArray⟩

theorem decode?_eq_some_iff {bytes : List UInt8} {s : String} :
    decode? bytes = some s ↔ bytes = encode s := by
  unfold decode? encode String.fromUTF8?
  constructor
  · intro h
    split at h
    · cases h; rfl
    · simp at h
  · rintro rfl
    have same : (⟨s.toByteArray.data.toList.toArray⟩ : ByteArray) = s.toByteArray := by simp
    rw [dif_pos (same ▸ s.isValidUTF8)]
    congr 1

@[simp] theorem decode?_encode (s : String) : decode? (encode s) = some s :=
  decode?_eq_some_iff.2 rfl

end CadenceWire.Utf8
