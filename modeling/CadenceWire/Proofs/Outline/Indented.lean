import CadenceWire.Proofs.Outline.Layout

/-!
How far the lines of an outline are indented. A value that lies further in has the same lines, each
with as many more spaces in front, and a value behind the name of a field has just one.
-/
namespace CadenceWire.Outline

variable {limits : OutlineLimits} {indent depth : Nat}

private theorem indented_zero (line : String) : indented 0 line = line := by
  simp [indented]

private theorem indented_add (indent further : Nat) (line : String) :
    indented (indent + further) line = indented further (indented indent line) := by
  rw [Nat.add_comm]
  simp only [indented, ← String.append_assoc, ← String.ofList_append,
    List.replicate_append_replicate]

private theorem map_indented_add (indent further : Nat) (lines : List String) :
    lines.map (indented (indent + further)) =
      (lines.map (indented indent)).map (indented further) := by
  rw [List.map_map]
  exact List.map_congr_left fun line _ => indented_add indent further line

private theorem remainder_add (further count : Nat) (what : String) :
    remainder limits (indent + further) count what =
      (remainder limits indent count what).map (indented further) := by
  unfold remainder
  split
  next => rw [List.map_singleton, indented_add]
  next => rfl

theorem Container.lines_add {c : Container} {further : Nat}
    (each : ∀ child ∈ c.children, ∀ piece ∈ child,
      Piece.lines limits (indent + further) depth piece =
        (Piece.lines limits indent depth piece).map (indented further)) :
    c.lines limits (indent + further) depth =
      (c.lines limits indent depth).map (indented further) := by
  have child (child : List Piece) (listed : child ∈ c.children) :
      childLines limits (indent + further) depth child =
        (childLines limits indent depth child).map (indented further) := by
    rw [childLines, childLines, List.map_flatMap]
    exact List.flatMap_congr (each child listed)
  have children : (c.children.take limits.items).flatMap
        (childLines limits (indent + further) depth) =
      ((c.children.take limits.items).flatMap (childLines limits indent depth)).map
        (indented further) := by
    rw [List.map_flatMap]
    exact List.flatMap_congr fun other among => child other (List.mem_of_mem_take among)
  rw [lines, lines, List.map_append, List.map_append, List.map_cons, children, indented_add,
    map_indented_add, Nat.add_right_comm, remainder_add]

private theorem outline_add (further : Nat) (v : Value) :
    v.outline limits (indent + further) depth =
      (v.outline limits indent depth).map (indented further) := by
  -- What is shown further in is at another indent and depth, so the hypothesis is about all.
  induction v using layers_induction limits.textLength generalizing indent depth with
  | leaf v closed =>
    rw [outline_leaf closed, outline_leaf closed, List.map_singleton, indented_add]
  | present content ih =>
    rw [Value.outline, Value.outline, List.map_cons, indented_add, Nat.add_right_comm, ih]
  | container v c found ih =>
    rw [outline_container found, outline_container found]
    split
    next => rw [List.map_singleton, indented_add]
    next =>
      refine c.lines_add fun child listed piece member => ?_
      cases piece with
      | line text =>
        rw [Piece.lines, Piece.lines, List.map_singleton, Nat.add_right_comm, indented_add _ further]
      | value more w =>
        rw [Piece.lines, Piece.lines, Nat.add_right_comm, ih child listed more w member]

/-- Each field has lines of its own, whatever fields there are besides. -/
theorem outlineFields_flatMap (count : Nat) (fields : List (Field × Value)) :
    Value.outlineFields limits indent depth count fields =
      (fields.take count).flatMap fun field => Value.outlineFields limits indent depth 1 [field] := by
  induction fields generalizing count with
  | nil => cases count <;> simp [Value.outlineFields]
  | cons field rest ih => cases count <;> simp [Value.outlineFields, ih]

private theorem outlineFields_leaf {field : Field} {v : Value} (closed : isOpened v = false) :
    Value.outlineFields limits indent depth 1 [(field, v)] =
      [indented indent (field.name ++ " = " ++ leafText limits.textLength v)] := by
  simp [Value.outlineFields, closed, outline_leaf closed, indented_zero]

/-- A value that lies further in has the same lines, each with as many more spaces in front. So the
lines of a value within another begin with the spaces of the other and with two or four more; and a
field that is no container and no present optional has one line, which its join leaves as it is. -/
theorem outline_uniform (limits : OutlineLimits) :
    (∀ (v : Value) (indent depth further : Nat), v.outline limits (indent + further) depth =
      (v.outline limits indent depth).map (indented further)) ∧
    (∀ n m : Node, Shows limits n m → (m.indent = n.indent + 2 ∨ m.indent = n.indent + 4) ∧
      m.lines limits <:+: n.lines limits ∧
      ∀ line ∈ m.lines limits, ∃ text, line = indented m.indent text) ∧
    (∀ indent depth count fields, Value.outlineFields limits indent depth count fields =
      (fields.take count).flatMap fun field => Value.outlineFields limits indent depth 1 [field]) ∧
    ∀ v : Value, isOpened v = false → ∃ entry,
      (∀ indent depth, v.outline limits indent depth = [indented indent entry]) ∧
      ∀ (field : Field) indent depth, Value.outlineFields limits indent depth 1 [(field, v)] =
        [indented indent (field.name ++ " = " ++ entry)] := by
  refine ⟨fun v indent depth further => outline_add further v, fun n m shows => ?_,
    fun indent depth => outlineFields_flatMap, fun v closed => ?_⟩
  · refine ⟨shows.indent_eq, shows.lines_infix, fun line member => ?_⟩
    have shifted := @outline_add limits 0 m.depth m.indent m.value
    rw [Nat.zero_add] at shifted
    rw [Node.lines, shifted] at member
    obtain ⟨text, -, same⟩ := List.mem_map.1 member
    exact ⟨text, same.symm⟩
  · exact ⟨leafText limits.textLength v, fun _ _ => outline_leaf closed,
      fun _ _ _ => outlineFields_leaf closed⟩

/-- An absent optional and an array as fields, the array behind four more spaces. -/
theorem outline_uniform_fields :
    let array : Value := .array [.bool true]
    let fields : List (Field × Value) := [(⟨"a", none⟩, .nil), (⟨"b", none⟩, array)]
    let whole : Value := .composite ⟨.struct, "S.A"⟩ fields
    isOpened .nil = false ∧ Shows .standard ⟨whole, 3, 0⟩ ⟨array, 7, 1⟩ ∧
      whole.outline .standard (0 + 3) 0 = ["   Struct S.A \x7b", "     a = Optional: nil",
        "     b =", "       Array[1]", "         Bool: true", "   \x7d"] ∧
      array.outline .standard 7 1 <:+: whole.outline .standard 3 0 ∧
      Value.outlineFields .standard 5 1 1 [(⟨"a", none⟩, .nil)] = ["     a = Optional: nil"] := by
  intro array fields whole
  obtain ⟨shifted, shown, -, single⟩ := outline_uniform .standard
  have shows : Shows .standard ⟨whole, 3, 0⟩ ⟨array, 7, 1⟩ := by
    have among : [.line "b =", .value 4 array] ∈ (fields.map (fieldPieces 200)).take 32 :=
      List.mem_cons_of_mem _ List.mem_cons_self
    have opened : 0 < OutlineLimits.standard.depth := by decide
    exact @Shows.child .standard whole 3 0 _ rfl opened _ among _ _
      (List.mem_cons_of_mem _ List.mem_cons_self)
  obtain ⟨entry, alone, joined⟩ := single .nil rfl
  refine ⟨rfl, shows, ?_, (shown _ _ shows).2.1, ?_⟩
  · rw [shifted whole 0 0 3]
    decide
  · have written : ["Optional: nil"] = [indented 0 entry] := alone 0 1
    rw [indented_zero] at written
    rw [joined ⟨"a", none⟩ 5 1, ← List.singleton_inj.1 written]
    decide

end CadenceWire.Outline
