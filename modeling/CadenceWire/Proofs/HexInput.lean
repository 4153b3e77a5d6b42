import CadenceWire.Program
import CadenceWire.Proofs.Text.Spelling
import Mathlib.Data.List.TakeWhile

/-!
Payloads given in hexadecimal. Whichever way the payload is spelled, the program does what it does
with the payload itself, and a text that spells no payload is refused before anything is decoded.
-/
namespace CadenceWire.Invocation

/-- What may stand in front of the digits: nothing, `0x` or `0X`. -/
def marks : List (List UInt8) := [[], [0x30, 0x78], [0x30, 0x58]]

def character (b : UInt8) : Char := Char.ofNat b.toNat

/-- The texts that spell a payload, perhaps with blanks around them. -/
inductive Spells : List UInt8 → List UInt8 → Prop
  | intro {before mark digits after payload : List UInt8}
      (front : ∀ b ∈ before, isBlank b = true) (marked : mark ∈ marks)
      (spelling : Hex.Spelling (digits.map character) payload)
      (back : ∀ b ∈ after, isBlank b = true) :
      Spells (before ++ (mark ++ digits ++ after)) payload

private theorem toNat_character (b : UInt8) : (character b).toNat = b.toNat := by
  have valid : b.toNat.isValidChar := .inl (Nat.lt_trans b.toNat_lt (by decide))
  rw [character, Char.ofNat, dif_pos valid]
  rfl

private theorem eq_of_character {b c : UInt8} (same : character b = character c) : b = c := by
  have codes := congrArg Char.toNat same
  rw [toNat_character, toNat_character] at codes
  exact UInt8.toNat_inj.1 codes

section trim

variable {before middle after : List UInt8}

/-- Blanks are cut off at both ends, and nothing else is. -/
theorem exists_trim (text : List UInt8) : ∃ before after, text = before ++ (trim text ++ after) ∧
    (∀ b ∈ before, isBlank b = true) ∧ ∀ b ∈ after, isBlank b = true := by
  refine ⟨text.takeWhile isBlank, ((text.dropWhile isBlank).reverse.takeWhile isBlank).reverse,
    ?_, ?_, ?_⟩
  · rw [trim, ← List.reverse_append, List.takeWhile_append_dropWhile, List.reverse_reverse,
      List.takeWhile_append_dropWhile]
  · exact List.all_eq_true.1 List.all_takeWhile
  · intro b member
    exact List.all_eq_true.1 List.all_takeWhile b (List.mem_reverse.1 member)

private theorem trim_of_blank (front : ∀ b ∈ before, isBlank b = true)
    (solid : ∀ b ∈ middle, isBlank b = false) (back : ∀ b ∈ after, isBlank b = true) :
    trim (before ++ (middle ++ after)) = middle := by
  have kept : middle.reverse.dropWhile isBlank = middle.reverse := by
    refine List.dropWhile_eq_self_iff.2 fun some => ?_
    rw [solid _ (List.mem_reverse.1 (List.getElem_mem some))]
    decide
  rw [trim, List.dropWhile_append_of_pos front]
  cases middle with
  | nil => simp [List.dropWhile_eq_nil_iff.2 back]
  | cons b rest =>
    rw [List.cons_append, List.dropWhile_cons_of_neg (by simp [solid b]), ← List.cons_append,
      List.reverse_append,
      List.dropWhile_append_of_pos fun b member => back b (List.mem_reverse.1 member), kept,
      List.reverse_reverse]

end trim

section digits

variable {text mark digits payload : List UInt8}

private theorem exists_mark (text : List UInt8) :
    ∃ mark ∈ marks, ∃ digits, trim text = mark ++ digits ∧
    hexDigits text = digits.map character := by
  unfold hexDigits
  generalize trim text = inner
  have marked (second : UInt8) {digits : List Char}
      (shape : inner.map character = '0' :: character second :: digits) :
      ∃ rest, inner = [0x30, second] ++ rest ∧ digits = rest.map character := by
    obtain ⟨b, behind, rfl, zero, shape⟩ := List.map_eq_cons_iff.1 shape
    obtain ⟨c, rest, rfl, letter, rfl⟩ := List.map_eq_cons_iff.1 shape
    obtain rfl : b = 0x30 := eq_of_character zero
    obtain rfl := eq_of_character letter
    exact ⟨rest, rfl, rfl⟩
  split
  next digits shape =>
    obtain ⟨rest, split, same⟩ := marked 0x78 shape
    exact ⟨[0x30, 0x78], by decide, rest, split, same⟩
  next digits shape =>
    obtain ⟨rest, split, same⟩ := marked 0x58 shape
    exact ⟨[0x30, 0x58], by decide, rest, split, same⟩
  next => exact ⟨[], by decide, inner, rfl, rfl⟩

/-- Nothing that stands for a payload is taken for a mark: the letter of a mark is no digit. -/
theorem hexDigits_of_spelling (marked : mark ∈ marks)
    (spelling : Hex.Spelling (digits.map character) payload)
    (inner : trim text = mark ++ digits) : hexDigits text = digits.map character := by
  have letter {c : Char} (none : Hex.digit? c = none) (rest : List Char) :
      digits.map character ≠ '0' :: c :: rest := by
    intro shape
    obtain ⟨d, digit⟩ := spelling.exists_digit c (by simp [shape])
    rw [Hex.digit?_eq_some_iff.2 digit] at none
    cases none
  unfold hexDigits
  rw [inner]
  simp only [marks, List.mem_cons, List.not_mem_nil, or_false] at marked
  rcases marked with rfl | rfl | rfl
  · split
    next shape => exact absurd shape (letter (by decide) _)
    next shape => exact absurd shape (letter (by decide) _)
    next => rfl
  · rfl
  · rfl

private theorem toNat_of_isBlank {b : UInt8} (blank : isBlank b = true) : b.toNat ≤ 32 := by
  simp only [isBlank, Bool.or_eq_true, decide_eq_true_eq] at blank
  rcases blank with (((rfl | rfl) | rfl) | rfl) | rfl <;> decide

private theorem solid_of_spelling (marked : mark ∈ marks)
    (spelling : Hex.Spelling (digits.map character) payload) :
    ∀ b ∈ mark ++ digits, isBlank b = false := by
  have mark_solid (b : UInt8) (member : b ∈ mark) : isBlank b = false := by
    have all : (marks.flatten.all fun b => !isBlank b) = true := by decide
    have solid := List.all_eq_true.1 all b (List.mem_flatten.2 ⟨mark, marked, member⟩)
    rwa [Bool.not_eq_true'] at solid
  refine List.forall_mem_append.2 ⟨mark_solid, fun b member => ?_⟩
  obtain ⟨d, digit⟩ := spelling.exists_digit _ (List.mem_map_of_mem member)
  have code := digit.code_bounds
  rw [toNat_character] at code
  refine Bool.eq_false_iff.2 fun blank => ?_
  have small := toNat_of_isBlank blank
  omega

private theorem decode_eq_ok {text payload : List UInt8} :
    Hex.decode (hexDigits text) = .ok payload ↔ Spells text payload := by
  constructor
  · intro read
    obtain ⟨mark, marked, digits, inner, same⟩ := exists_mark text
    obtain ⟨before, after, split, front, back⟩ := exists_trim text
    rw [split, inner]
    exact .intro front marked (Hex.decode_eq_ok.1 (same ▸ read)) back
  · intro spells
    cases spells with | intro front marked spelling back =>
    have inner := trim_of_blank front (solid_of_spelling marked spelling) back
    rw [hexDigits_of_spelling marked spelling inner]
    exact Hex.decode_eq_ok.2 spelling

end digits

private theorem payload_eq_ok {i : Invocation} (hex : i.hex = true) {text payload : List UInt8} :
    i.payload text = .ok payload ↔ Spells text payload := by
  rw [Invocation.payload, if_pos hex, mapError_eq_ok, decode_eq_ok]

private theorem result_of_payload {i : Invocation} {input payload : List UInt8}
    (given : i.payload input = .ok payload) :
    i.result (.ok input) = i.format.decode i.options payload >>= i.report := by
  change i.payload input >>= (fun payload => i.format.decode i.options payload >>= i.report) = _
  rw [given]
  rfl

private theorem result_of_refused {i : Invocation} {input : List UInt8} {failure : Failure}
    (refused : i.payload input = .error failure) : i.result (.ok input) = .error failure := by
  change i.payload input >>= (fun payload => i.format.decode i.options payload >>= i.report) = _
  rw [refused]
  rfl

/-- How a payload is spelled makes no difference to any run, and a text that spells none is refused
for a fault of the text, whatever the run is for. -/
theorem run_hex (text : List UInt8) :
    (∀ payload, Spells text payload → ∀ i : Invocation,
      { i with hex := true }.run (.ok text) = { i with hex := false }.run (.ok payload)) ∧
    ((∀ payload, ¬ Spells text payload) → ∃ fault : Hex.Fault, ∀ i : Invocation,
      { i with hex := true }.run (.ok text) =
        ⟨1, "", line ("error: " ++ (Failure.hex fault).text)⟩) := by
  constructor
  · intro payload spells i
    have spelled := @result_of_payload { i with hex := true } _ _ ((payload_eq_ok rfl).2 spells)
    have plain := @result_of_payload { i with hex := false } payload payload rfl
    have same := spelled.trans plain.symm
    rw [run, run, same]
  · intro foreign
    cases read : Hex.decode (hexDigits text) with
    | ok payload => exact absurd (decode_eq_ok.1 read) (foreign payload)
    | error fault =>
      refine ⟨fault, fun i => ?_⟩
      have refused : { i with hex := true }.payload text = .error (.hex fault) := by
        rw [Invocation.payload, if_pos rfl, read]
        rfl
      rw [run, result_of_refused refused]

/-- A truth value in digits of either case, and the same digits behind a blank within the text. -/
theorem run_hex_bool :
    let i : Invocation := ⟨.value, true, .ccf, true, false⟩
    let payload : List UInt8 := [0xd8, 0x82, 0x82, 0xd8, 0x89, 0x00, 0xf5]
    let text := Utf8.encode " \t0XD88282d88900F5\r\n"
    let broken := Utf8.encode "0x d88282d88900F5"
    Spells text payload ∧ i.run (.ok text) = ⟨0, "true\n", ""⟩ ∧
      (∀ payload, ¬ Spells broken payload) ∧ (i.run (.ok broken)).exitCode = 1 ∧
      (i.run (.ok broken)).output = "" := by
  intro i payload text broken
  have spelled : Spells text payload := decode_eq_ok.1 (by decide)
  have printed : { i with hex := false }.run (.ok payload) = ⟨0, "true\n", ""⟩ := by rfl
  have foreign (payload : List UInt8) : ¬ Spells broken payload := by
    intro spells
    have refused : Hex.decode (hexDigits broken) = .error .oddLength := by decide
    cases refused.symm.trans (decode_eq_ok.2 spells)
  obtain ⟨fault, refused⟩ := (run_hex broken).2 foreign
  have same := (run_hex text).1 payload spelled i
  exact ⟨spelled, same.trans printed, foreign, congrArg Outcome.exitCode (refused i),
    congrArg Outcome.output (refused i)⟩

end CadenceWire.Invocation
