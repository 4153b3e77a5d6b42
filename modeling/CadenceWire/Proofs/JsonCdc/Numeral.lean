import CadenceWire.Proofs.Json.Pair
import CadenceWire.Proofs.JsonCdc.ValueTree
import CadenceWire.Proofs.Numeric.Rendered

/-!
Literals that stand in a payload as JSON numbers. A number is written out again before it is read as
a literal, so it is read as the literal between quotes, unless its places are too many for a double
of its size. What is refused is only a number below one, and one too large for an integer.
-/
namespace CadenceWire

open Decimal (Written)

namespace Json.Number

variable {l : Written} {n : Number}

private theorem toList_text_double (negative : Bool) (x : Binary64) :
    (double negative x).text.toList = (if negative then ['-'] else []) ++ x.text.toList := by
  rw [text, String.toList_append]
  cases negative <;> rfl

private theorem signed?_text (found : Reader.numberOf? l.negative l.whole l.fraction none = some n)
    (pointless : l.fraction = []) :
    Decimal.signed? n.text.toList = Decimal.signed? l.text ∨
      (l.digits = 0 ∨ Width.w64.half < l.digits) ∧ Decimal.signed? n.text.toList = none := by
  rcases Reader.numberOf?_spec found with ⟨z, rfl, -, sign, digits⟩ | ⟨x, rfl, kept, -⟩
  · left
    rw [text, ← Written.text_ofInt, Written.signed?_text _ rfl, Written.signed?_text _ pointless,
      sign, digits]
  · right
    rw [toList_text_double]
    exact ⟨kept.resolve_left (absurd pointless), Binary64.signed?_text _⟩

private theorem scaled?_text (found : Reader.numberOf? l.negative l.whole l.fraction none = some n)
    (few : l.fraction.length ≤ FixedPoint.places)
    (small : l.digits * 10 ^ (FixedPoint.places - l.fraction.length) < Width.w64.count)
    (separates : 0 < l.fraction.length →
      Binary64.Separates l.fraction.length (l.digits / 10 ^ l.fraction.length)) :
    FixedPoint.scaled? n.text.toList = FixedPoint.scaled? l.text ∨
      l.digits / 10 ^ l.fraction.length = 0 ∧ FixedPoint.scaled? n.text.toList = none := by
  rcases Reader.numberOf?_spec found with
    ⟨z, rfl, pointless, sign, digits⟩ | ⟨x, rfl, kept, scaled⟩
  · left
    rw [text, ← Written.text_ofInt]
    refine Written.scaled?_congr sign (Nat.zero_le _) few ?_
    rw [digits, pointless]
    rfl
  · have short : l.digits < Width.w64.count :=
      Nat.lt_of_le_of_lt (Nat.le_mul_of_pos_right _ (Nat.pow_pos (by decide))) small
    have found := scaled short
    rw [toList_text_double]
    by_cases pointless : l.fraction = []
    · have zero : l.digits = 0 := by
        rcases kept with point | zero | large
        · exact absurd pointless point
        · exact zero
        · rw [pointless] at small
          change l.digits * 10 ^ 8 < 2 ^ 64 at small
          change 2 ^ 63 < l.digits at large
          omega
      refine Binary64.scaled?_text (.inr zero) few ?_ found
      rw [pointless, zero]
      decide
    · exact Binary64.scaled?_text (.inl pointless) few
        (separates (List.length_pos_of_ne_nil pointless)) found

end Json.Number

namespace ValueKind

def isNumber : ValueKind → Bool
  | integer _ | fixedPoint _ => true
  | _ => false

end ValueKind

namespace JsonCdc

/-- The value that a literal stands for. -/
def literal? : ValueKind → String → Option Value
  | .integer kind, t => (Integer.ofLiteral? kind t).map .integer
  | .fixedPoint kind, t => (FixedPoint.ofLiteral? kind t).map .fixedPoint
  | _, _ => none

private theorem literal?_number {kind : ValueKind} {l : Written} {n : Json.Number} {v : Value}
    (found : Json.Reader.numberOf? l.negative l.whole l.fraction none = some n)
    (accepted : literal? kind (String.ofList l.text) = some v)
    (separates : 0 < l.fraction.length →
      Binary64.Separates l.fraction.length (l.digits / 10 ^ l.fraction.length)) :
    literal? kind n.text = some v ∨
      (l.digits / 10 ^ l.fraction.length = 0 ∨
        Width.w64.half < l.digits / 10 ^ l.fraction.length) ∧ literal? kind n.text = none := by
  cases kind with
  | integer kind =>
    have pointless : l.fraction = [] := by
      by_contra point
      have member : '.' ∈ (String.ofList l.text).toList := by
        simp [Written.text, Written.unsigned, point]
      simp only [literal?, Integer.ofLiteral?, Decimal.signed?_foreign (by decide) member]
        at accepted
      cases accepted
    rw [← accepted, pointless, List.length_nil, Nat.pow_zero, Nat.div_one]
    simp only [literal?, Integer.ofLiteral?, String.toList_ofList]
    rcases Json.Number.signed?_text found pointless with same | ⟨size, none⟩
    · rw [same]
      exact .inl rfl
    · rw [none]
      exact .inr ⟨size, rfl⟩
  | fixedPoint kind =>
    obtain ⟨x, read, -⟩ := Option.map_eq_some_iff.1 accepted
    obtain ⟨few, small⟩ := Written.bounds_of_ofLiteral? read
    rw [← accepted]
    simp only [literal?, FixedPoint.ofLiteral?, String.toList_ofList]
    rcases Json.Number.scaled?_text found few small separates with same | ⟨zero, none⟩
    · rw [same]
      exact .inl rfl
    · rw [none]
      exact .inr ⟨.inl zero, rfl⟩
  | _ => cases accepted

/-- A literal of a number has no exponent. -/
theorem not_mem_of_literal? {kind : ValueKind} {t : String} {v : Value}
    (accepted : literal? kind t = some v) {c : Char} (foreign : Decimal.Foreign c)
    (noPoint : c ≠ '.') : c ∉ t.toList := by
  intro member
  cases kind with
  | integer kind =>
    simp only [literal?, Integer.ofLiteral?, Decimal.signed?_foreign foreign member] at accepted
    cases accepted
  | fixedPoint kind =>
    simp only [literal?, FixedPoint.ofLiteral?, Decimal.scaled?_foreign foreign noPoint member]
      at accepted
    cases accepted
  | _ => cases accepted

section payload

variable {options : Options} {kind : ValueKind} {json : Json} {t : String}

/-- How a failure shows a literal of the kind. -/
def shown : ValueKind → String → String
  | .integer kind, t => refused kind t
  | _, t => t

def readLiteral (kind : ValueKind) (t : String) : Except Failure Value :=
  match literal? kind t with
  | some v => .ok v
  | none => .error (.invalidNumber kind.name (shown kind t))

private theorem run'_lift {ε σ α : Type} (read : Except ε α) (before : σ) :
    (liftM read : StateT σ (Except ε) α).run' before = read := by
  cases read <;> rfl

private theorem payload_number (number : kind.isNumber = true)
    (text : numberText options kind.name json = .ok t) (before : Seen) :
    (payload options kind json).run' before = readLiteral kind t := by
  cases kind with
  | integer kind =>
    change numberText options kind.name json = .ok t at text
    change (liftM (Value.integer <$> integer options kind json) : Reading Value).run' before = _
    simp only [run'_lift, integer, text, readLiteral, literal?, bind, Except.bind]
    cases Integer.ofLiteral? kind t <;> rfl
  | fixedPoint kind =>
    change numberText options kind.name json = .ok t at text
    change (liftM (Value.fixedPoint <$> fixedPoint options kind json) : Reading Value).run' before
      = _
    simp only [run'_lift, fixedPoint, text, readLiteral, literal?, bind, Except.bind]
    cases FixedPoint.ofLiteral? kind t <;> rfl
  | _ => cases number

theorem decode_number (number : kind.isNumber = true) {payload : List UInt8}
    {members : Json.Members} (read : Json.ofBytes? payload = some (.object members))
    (named : members.last? "type" = some (.string kind.name))
    (found : members.last? "value" = some json)
    (text : numberText options kind.name json = .ok t) :
    decode options payload = readLiteral kind t := by
  have stated : kind ≠ .void := by
    rintro rfl
    cases number
  have concrete : ∀ declared, kind = .composite declared → declared.isInterface = false := by
    rintro declared rfl
    cases number
  rw [decode, read, ← payload_number number text []]
  exact congrArg (·.run' []) (value_of_last? named found stated concrete)

/-- A payload of the kind, with the text of its value. -/
def typed (kind : ValueKind) (body : String) : List UInt8 :=
  Utf8.encode ("\x7b\"type\": \"" ++ kind.name ++ "\", \"value\": " ++ body ++ "\x7d")

private theorem ofBytes?_typed {body : String}
    (read : Json.Reader.value 126 (' ' :: (body.toList ++ ['\x7d'])) = some (json, ['\x7d'])) :
    Json.ofBytes? (typed kind body) =
      some (.object [("type", .string kind.name), ("value", json)]) := by
  have bare : Json.Bare kind.name.toList := by
    have all : ∀ kind ∈ ValueKind.all, Json.Bare kind.name.toList := by decide
    exact all kind (ValueKind.mem_all kind)
  have text := Json.ofText?_typed bare read
  rw [String.ofList_toList] at text
  rw [typed, Json.ofBytes?, Utf8.decode?_encode]
  simp only [Option.bind_eq_bind, Option.bind_some, String.toList_append, List.append_assoc]
  exact text

theorem ofBytes?_quoted (bare : Json.Bare t.toList) :
    Json.ofBytes? (typed kind ("\"" ++ t ++ "\"")) =
      some (.object [("type", .string kind.name), ("value", .string t)]) := by
  refine ofBytes?_typed ?_
  simpa using Json.Reader.value_string bare 125 ['\x7d']

private theorem decode_typed (number : kind.isNumber = true) {body : String}
    (read : Json.Reader.value 126 (' ' :: (body.toList ++ ['\x7d'])) = some (json, ['\x7d']))
    (text : numberText options kind.name json = .ok t) :
    decode options (typed kind body) = readLiteral kind t :=
  decode_number number (ofBytes?_typed read) rfl rfl text

private theorem decode_quoted (number : kind.isNumber = true) (bare : Json.Bare t.toList) :
    decode options (typed kind ("\"" ++ t ++ "\"")) = readLiteral kind t :=
  decode_number number (ofBytes?_quoted bare) rfl rfl rfl

private theorem decode_token (older : options.olderForms = true) (number : kind.isNumber = true)
    {l : Written} {n : Json.Number} (unpadded : Json.Reader.Unpadded l.whole)
    (found : Json.Reader.numberOf? l.negative l.whole l.fraction none = some n) :
    decode options (typed kind (String.ofList l.text)) = readLiteral kind n.text := by
  have ends : Json.Reader.Ends ['\x7d'] := by
    rintro c ⟨⟩
    decide
  have read : Json.Reader.value 126 (' ' :: (l.text ++ ['\x7d'])) = some (.number n, ['\x7d']) :=
    Json.Reader.value_written unpadded found 126 _ ends
  have written : numberText options kind.name (.number n) = .ok n.text := by
    rw [numberText, if_pos older]
  refine decode_typed number ?_ written
  rw [String.toList_ofList]
  exact read

/-- A literal without quotes is read as it is between quotes; a literal with a point is, if doubles
of its size lie closer than decimals of as many places. Refused is at most a literal with a zero for
its whole part, or one of more than 63 bits. -/
theorem decode_unquoted (older : options.olderForms = true) (number : kind.isNumber = true)
    (token : ∃ n, Json.Reader.number t.toList = some (n, [])) {v : Value}
    (accepted : decode options (typed kind ("\"" ++ t ++ "\"")) = .ok v)
    (separates : 0 < Decimal.places t.toList →
      Binary64.Separates (Decimal.places t.toList) (Decimal.wholePart t.toList)) :
    decode options (typed kind t) = .ok v ∨
      (Decimal.wholePart t.toList = 0 ∨ Width.w64.half < Decimal.wholePart t.toList) ∧
        ∃ literal, decode options (typed kind t) = .error (.invalidNumber kind.name literal) := by
  obtain ⟨n, token⟩ := token
  rw [decode_quoted number (Json.Reader.bare_number token)] at accepted
  have denoted : literal? kind t = some v := by
    unfold readLiteral at accepted
    split at accepted
    next found =>
      cases accepted
      exact found
    next => cases accepted
  have small := not_mem_of_literal? denoted (c := 'e') (by decide) (by decide)
  have large := not_mem_of_literal? denoted (c := 'E') (by decide) (by decide)
  obtain ⟨l, text, unpadded, found⟩ := Json.Reader.exists_written token small large
  obtain rfl : String.ofList l.text = t := by rw [text, String.ofList_toList]
  rw [String.toList_ofList, Written.places_text, Written.wholePart_text] at separates
  rw [decode_token older number unpadded found, String.toList_ofList, Written.wholePart_text]
  unfold readLiteral
  rcases literal?_number found denoted separates with same | ⟨size, none⟩
  · rw [same]
    exact .inl rfl
  · rw [none]
    exact .inr ⟨size, _, rfl⟩

theorem decode_unquoted_halves :
    (∃ n, Json.Reader.number "12.5".toList = some (n, [])) ∧
      decode .lenient (typed (.fixedPoint .fix64) "\"12.5\"") =
        .ok (.fixedPoint ⟨.fix64, 1250000000, by decide⟩) ∧
      (decode .lenient (typed (.fixedPoint .fix64) "12.5") =
          .ok (.fixedPoint ⟨.fix64, 1250000000, by decide⟩) ∨
        (Decimal.wholePart "12.5".toList = 0 ∨
            Width.w64.half < Decimal.wholePart "12.5".toList) ∧
          ∃ literal, decode .lenient (typed (.fixedPoint .fix64) "12.5") =
            .error (.invalidNumber "Fix64" literal)) := by
  have token : ∃ n, Json.Reader.number "12.5".toList = some (n, []) := ⟨_, rfl⟩
  have accepted : decode .lenient (typed (.fixedPoint .fix64) "\"12.5\"") =
      .ok (.fixedPoint ⟨.fix64, 1250000000, by decide⟩) :=
    decode_quoted rfl (t := "12.5") (by decide)
  exact ⟨token, accepted, decode_unquoted rfl rfl token accepted (by decide)⟩

/-- The least decimal of eight places that is read as another. -/
theorem decode_unquoted_rounded :
    (∃ n, Json.Reader.number "67108864.00000002".toList = some (n, [])) ∧
      decode .lenient (typed (.fixedPoint .fix64) "\"67108864.00000002\"") =
        .ok (.fixedPoint ⟨.fix64, 6710886400000002, by decide⟩) ∧
      decode .lenient (typed (.fixedPoint .fix64) "67108864.00000002") =
        .ok (.fixedPoint ⟨.fix64, 6710886400000001, by decide⟩) := by
  let l : Written := ⟨false, "67108864".toList, "00000002".toList, by decide,
    List.all_eq_true.1 (by decide)⟩
  have found : Json.Reader.numberOf? l.negative l.whole l.fraction none =
      some (.double false ⟨2 ^ 52 + 1, -26⟩) := by decide +kernel
  have written : (Json.Number.double false ⟨2 ^ 52 + 1, -26⟩).text = "67108864.00000001" := by
    decide +kernel
  have unpadded : Json.Reader.Unpadded l.whole := by
    rintro c rest ⟨⟩
  have token : decode .lenient (typed (.fixedPoint .fix64) (String.ofList l.text)) =
      readLiteral (.fixedPoint .fix64) "67108864.00000001" := by
    rw [← written]
    exact decode_token rfl rfl unpadded found
  exact ⟨⟨_, rfl⟩, decode_quoted rfl (t := "67108864.00000002") (by decide), token⟩

end payload

end JsonCdc

end CadenceWire
