import CadenceWire.Proofs.JsonCdc.Literal
import CadenceWire.Proofs.Text.FixedPoint
import CadenceWire.Value.Display

/-!
Fixed-point numbers as text. Reading one and writing one are exact, so that a value is what is read
of the text that shows it.
-/
namespace CadenceWire.JsonCdc

open FixedPoint (Literal scaled? checked? render)

variable {options : Options} {payload : List UInt8} {members : Json.Members}

private theorem decode_text (n : FixedPoint) (read : Json.ofBytes? payload = some (.object members))
    (named : members.last? "type" = some (.string n.kind.name))
    (shown : members.last? "value" = some (.string (Value.fixedPoint n).text)) :
    decode options payload = .ok (.fixedPoint n) := by
  have literal : literal? (.fixedPoint n.kind) n.text = some (.fixedPoint n) := by
    rw [literal?, FixedPoint.ofLiteral?_text]
    rfl
  rw [Value.text] at shown
  rw [@decode_number options (.fixedPoint n.kind) _ _ rfl payload members read named shown rfl,
    readLiteral, literal]

/-- Fixed-point text is exact both ways. Read is what a literal denotes, in hundred-millionths, if
128 bits hold it, and the steps on the way decide the same. What is written is read back, but for
a minus in front of zero, and so is every value in a payload that shows it. -/
theorem fixedPoint_exact :
    (∀ (t : String) (s : SignMagnitude), scaled? t.toList = some s ↔
      ∃ minus q, Literal t.toList minus q ∧ (s.magnitude : ℚ) = q * 10 ^ 8 ∧
        s.magnitude < 2 ^ 128 ∧ (s.negative = true ↔ minus = true ∧ s.magnitude ≠ 0)) ∧
    (∀ t : String, checked? t.toList = scaled? t.toList) ∧
    (∀ (negative : Bool) (m : ℕ), m < 2 ^ 128 →
      scaled? (render ⟨negative, m⟩).toList = some ⟨negative && m != 0, m⟩) ∧
    ∀ (options : Options) (payload : List UInt8) (members : Json.Members) (n : FixedPoint),
      Json.ofBytes? payload = some (.object members) →
      members.last? "type" = some (.string n.kind.name) →
      members.last? "value" = some (.string (Value.fixedPoint n).text) →
      decode options payload = .ok (.fixedPoint n) :=
  ⟨fun _ _ => FixedPoint.scaled?_eq_some_iff, fun _ => FixedPoint.checked?_eq _,
    fun _ _ => FixedPoint.scaled?_render, fun _ _ _ => decode_text⟩

/-- The least number of the signed kind. -/
theorem fixedPoint_exact_least :
    let n : FixedPoint := ⟨.fix64, -2 ^ 63, by decide⟩
    let literal := "-92233720368.54775808"
    scaled? literal.toList = some ⟨true, 2 ^ 63⟩ ∧ (Value.fixedPoint n).text = literal ∧
      decode .strict (typed (.fixedPoint .fix64) ("\"" ++ literal ++ "\"")) =
        .ok (.fixedPoint n) := by
  intro n literal
  obtain ⟨-, -, back, shown⟩ := fixedPoint_exact
  have written : render ⟨true, 2 ^ 63⟩ = literal := by decide
  have text : (Value.fixedPoint n).text = literal := by decide
  refine ⟨?_, text, shown .strict _ _ n (ofBytes?_quoted (by decide)) rfl ?_⟩
  · rw [← written]
    exact back true (2 ^ 63) (by decide)
  · rw [text]
    rfl

end CadenceWire.JsonCdc
