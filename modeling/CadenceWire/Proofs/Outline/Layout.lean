import CadenceWire.Outline
import CadenceWire.Proofs.Value.Nesting
import Mathlib.Data.List.Flatten

/-!
Outlines layer by layer. A value is one line, or an optional around another, or a container: a title
over its children, of which each shows lines of the container and the lines of values further in.
-/
namespace CadenceWire.Outline

/-- What a child of a container shows: a line of the container, or a value that lies further in. -/
inductive Piece where
  | line (text : String)
  | value (further : Nat) (value : Value)

structure Container where
  /-- What is shown of a container that is not opened. -/
  summary : String
  title : String
  children : List (List Piece)
  /-- What the children are called where some are left out. -/
  what : String
  /-- The lines behind the last child. -/
  closing : List String

/-- The text of a value that gets one line. -/
def leafText (textLength : Nat) : Value → String
  | .string s => "String: " ++ Quoted.text (shortened textLength s)
  | .character s => "Character: " ++ Quoted.text (shortened textLength s)
  | other => other.kind.name ++ ": " ++ other.text

def entryPieces (entry : Value × Value) : List Piece :=
  [.line "key:", .value 4 entry.1, .line "value:", .value 4 entry.2]

def fieldPieces (textLength : Nat) (field : Field × Value) : List Piece :=
  if isOpened field.2 then [.line (field.1.name ++ " ="), .value 4 field.2]
  else [.line (field.1.name ++ " = " ++ leafText textLength field.2)]

def container? (textLength : Nat) : Value → Option Container
  | .array elements =>
    let count := Decimal.ofNat elements.length
    some ⟨"Array[... " ++ count ++ " items]", "Array[" ++ count ++ "]",
      elements.map fun element => [.value 2 element], "", []⟩
  | .dictionary entries =>
    let count := Decimal.ofNat entries.length
    some ⟨"Dictionary\x7b... " ++ count ++ " pairs\x7d", "Dictionary\x7b" ++ count ++ "\x7d",
      entries.map entryPieces, " pairs", []⟩
  | .composite declared fields =>
    let title := declared.kind.name ++ " " ++ declared.id ++ " \x7b"
    some ⟨title ++ " ... \x7d", title, fields.map (fieldPieces textLength), " fields", ["\x7d"]⟩
  | _ => none

variable {limits : OutlineLimits} {indent depth : Nat} {v : Value} {c : Container}

def Piece.lines (limits : OutlineLimits) (indent depth : Nat) : Piece → List String
  | .line text => [indented (indent + 2) text]
  | .value further v => v.outline limits (indent + further) (depth + 1)

theorem outline_leaf (closed : isOpened v = false) :
    v.outline limits indent depth = [indented indent (leafText limits.textLength v)] := by
  cases v with
  | present | array | dictionary | composite => cases closed
  | _ => simp only [Value.outline, leafText]

/-- The lines that children show, the container being at the indent and depth. -/
def childLines (limits : OutlineLimits) (indent depth : Nat) (child : List Piece) : List String :=
  child.flatMap (Piece.lines limits indent depth)

private theorem outlineElements_eq (count : Nat) (elements : List Value) :
    Value.outlineElements limits (indent + 2) (depth + 1) count elements =
      (elements.take count).flatMap fun element =>
        childLines limits indent depth [.value 2 element] := by
  induction elements generalizing count with
  | nil => cases count <;> simp [Value.outlineElements]
  | cons element rest ih =>
    cases count <;> simp [Value.outlineElements, childLines, Piece.lines, ih]

private theorem outlineEntries_eq (count : Nat) (entries : List (Value × Value)) :
    Value.outlineEntries limits (indent + 2) (depth + 1) count entries =
      (entries.take count).flatMap fun entry =>
        childLines limits indent depth (entryPieces entry) := by
  induction entries generalizing count with
  | nil => cases count <;> simp [Value.outlineEntries]
  | cons entry rest ih =>
    cases count <;> simp [Value.outlineEntries, childLines, entryPieces, Piece.lines, ih]

private theorem outlineFields_eq (count : Nat) (fields : List (Field × Value)) :
    Value.outlineFields limits (indent + 2) (depth + 1) count fields =
      (fields.take count).flatMap fun field =>
        childLines limits indent depth (fieldPieces limits.textLength field) := by
  induction fields generalizing count with
  | nil => cases count <;> simp [Value.outlineFields]
  | cons field rest ih =>
    cases count with
    | zero => simp [Value.outlineFields]
    | succ count =>
      rw [Value.outlineFields, List.take_succ_cons, List.flatMap_cons, ih, childLines, fieldPieces]
      cases opened : isOpened field.2 with
      | true => simp [Piece.lines]
      | false => simp [Piece.lines, outline_leaf opened, indented]

/-- All lines of an opened container. -/
def Container.lines (c : Container) (limits : OutlineLimits) (indent depth : Nat) : List String :=
  indented indent c.title :: (c.children.take limits.items).flatMap (childLines limits indent depth)
    ++ remainder limits (indent + 2) c.children.length c.what ++ c.closing.map (indented indent)

theorem outline_container (found : container? limits.textLength v = some c) :
    v.outline limits indent depth =
      if limits.depth ≤ depth then [indented indent c.summary] else c.lines limits indent depth := by
  cases v with
  | array elements =>
    cases found
    simp [Value.outline, Container.lines, outlineElements_eq, ← List.map_take, List.flatMap_map]
  | dictionary entries =>
    cases found
    simp [Value.outline, Container.lines, outlineEntries_eq, ← List.map_take, List.flatMap_map]
  | composite declared fields =>
    cases found
    simp [Value.outline, Container.lines, outlineFields_eq, ← List.map_take, List.flatMap_map]
  | _ => cases found

/-- Children show parts of the value, and show them two or four spaces further in. -/
theorem piece_spec (textLength : Nat) (found : container? textLength v = some c)
    {child : List Piece} (listed : child ∈ c.children) {further : Nat} {w : Value}
    (member : .value further w ∈ child) : w ∈ v.parts ∧ (further = 2 ∨ further = 4) := by
  cases v with
  | array elements =>
    cases found
    obtain ⟨element, among, rfl⟩ := List.mem_map.1 listed
    cases List.mem_singleton.1 member
    exact ⟨among, .inl rfl⟩
  | dictionary entries =>
    cases found
    obtain ⟨entry, among, rfl⟩ := List.mem_map.1 listed
    simp only [entryPieces, List.mem_cons, List.not_mem_nil, or_false, reduceCtorEq, false_or,
      Piece.value.injEq] at member
    rcases member with ⟨rfl, rfl⟩ | ⟨rfl, rfl⟩
    · exact ⟨Value.key_mem_parts among, .inr rfl⟩
    · exact ⟨Value.item_mem_parts among, .inr rfl⟩
  | composite declared fields =>
    cases found
    obtain ⟨field, among, rfl⟩ := List.mem_map.1 listed
    unfold fieldPieces at member
    split at member
    next =>
      obtain ⟨rfl, rfl⟩ : further = 4 ∧ w = field.2 := by simpa using member
      exact ⟨List.mem_map_of_mem among, .inr rfl⟩
    next => simp at member
  | _ => cases found

/-- What holds of values of one line, and of others whenever it holds of what they show further in,
holds of every value. -/
@[elab_as_elim]
theorem layers_induction (textLength : Nat) {p : Value → Prop}
    (leaf : ∀ v, isOpened v = false → p v) (present : ∀ content, p content → p (.present content))
    (container : ∀ v c, container? textLength v = some c →
      (∀ child ∈ c.children, ∀ further w, .value further w ∈ child → p w) → p v)
    (v : Value) : p v := by
  induction v using Value.parts_induction with | whole v ih =>
  cases opened : isOpened v with
  | false => exact leaf v opened
  | true =>
    cases v with
    | present content => exact present content (ih content (List.mem_singleton.2 rfl))
    | array | dictionary | composite =>
      exact container _ _ rfl fun child listed further w member =>
        ih w (piece_spec textLength rfl listed member).1
    | _ => cases opened

/-- A value at its place in an outline. -/
structure Node where
  value : Value
  indent : Nat
  depth : Nat

def Node.lines (limits : OutlineLimits) (n : Node) : List String :=
  n.value.outline limits n.indent n.depth

/-- The values that a value shows further in, among its own lines. -/
inductive Shows (limits : OutlineLimits) : Node → Node → Prop
  | content {content : Value} {indent depth : Nat} :
      Shows limits ⟨.present content, indent, depth⟩ ⟨content, indent + 2, depth + 1⟩
  | child {v : Value} {indent depth : Nat} {c : Container}
      (found : container? limits.textLength v = some c) (opened : depth < limits.depth)
      {child : List Piece} (among : child ∈ c.children.take limits.items)
      {further : Nat} {w : Value} (member : .value further w ∈ child) :
      Shows limits ⟨v, indent, depth⟩ ⟨w, indent + further, depth + 1⟩

theorem outline_opened (found : container? limits.textLength v = some c)
    (opened : depth < limits.depth) : v.outline limits indent depth = c.lines limits indent depth :=
  (outline_container found).trans (if_neg (Nat.not_le.2 opened))

private theorem infix_flatMap {α β : Type} {a : α} {as : List α} (f : α → List β)
    (member : a ∈ as) : f a <:+: as.flatMap f :=
  List.infix_of_mem_flatten (List.mem_map_of_mem member)

variable {n m : Node}

/-- The lines of what is shown stand together. -/
theorem Shows.lines_infix (shows : Shows limits n m) : m.lines limits <:+: n.lines limits := by
  cases shows with
  | content =>
    rw [Node.lines, Node.lines, Value.outline]
    exact (List.suffix_cons _ _).isInfix
  | @child v indent depth c found opened child among further w member =>
    have inside : Piece.lines limits indent depth (.value further w) <:+:
        (c.children.take limits.items).flatMap (childLines limits indent depth) :=
      (infix_flatMap _ member).trans (infix_flatMap _ among)
    rw [Node.lines, Node.lines, outline_opened found opened, Container.lines, List.append_assoc]
    exact inside.trans ⟨[indented indent c.title], _, rfl⟩

theorem Shows.indent_eq (shows : Shows limits n m) :
    m.indent = n.indent + 2 ∨ m.indent = n.indent + 4 := by
  cases shows with
  | content => exact .inl rfl
  | child found _ among member =>
    have further := (piece_spec _ found (List.mem_of_mem_take among) member).2
    exact further.imp (congrArg _) (congrArg _)

end CadenceWire.Outline
