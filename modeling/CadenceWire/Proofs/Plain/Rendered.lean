import CadenceWire.Program
import CadenceWire.Proofs.Json.Written
import CadenceWire.Proofs.Plain.Sorted

/-!
Plain values as JSON text. The text is read back as the tree that mirrors the plain value, on one
line or over several, if the integers that are written as numbers are of 64 bits.
-/
namespace CadenceWire.Plain

mutual

/-- How many lists and maps lie within each other. -/
def depth : Plain → Nat
  | list items => depthOf items + 1
  | map entries => depthOfEntries entries + 1
  | absent | bool _ | text _ | bytes _ | integer _ => 0

def depthOf : List Plain → Nat
  | [] => 0
  | item :: rest => max item.depth (depthOf rest)

def depthOfEntries : List (String × Plain) → Nat
  | [] => 0
  | (_, item) :: rest => max item.depth (depthOfEntries rest)

end

private theorem depth_le_depthOf {items : List Plain} {item : Plain} (member : item ∈ items) :
    item.depth ≤ depthOf items := by
  induction items with
  | nil => cases member
  | cons first rest ih =>
    rw [depthOf]
    rcases List.mem_cons.1 member with rfl | member
    · exact Nat.le_max_left _ _
    · exact Nat.le_trans (ih member) (Nat.le_max_right _ _)

private theorem depthOfEntries_eq (entries : List (String × Plain)) :
    depthOfEntries entries = depthOf (entries.map Prod.snd) := by
  induction entries with
  | nil => rfl
  | cons entry rest ih => rw [depthOfEntries, ih, List.map_cons, depthOf]

private theorem depth_lt_of_mem_parts {p part : Plain} (member : part ∈ p.parts) :
    part.depth < p.depth := by
  cases p with
  | list items =>
    rw [depth, Nat.lt_succ_iff]
    exact depth_le_depthOf member
  | map entries =>
    rw [depth, Nat.lt_succ_iff, depthOfEntries_eq]
    exact depth_le_depthOf member
  | _ => cases member

private theorem parts_induction {motive : Plain → Prop}
    (whole : ∀ p, (∀ part ∈ p.parts, motive part) → motive p) (p : Plain) : motive p := by
  induction p using (measure depth).wf.induction with
  | _ p ih => exact whole p fun part member => ih part (depth_lt_of_mem_parts member)

/-- Integers of 128 bits at most have the size of those of 64 bits, with a sign or without. -/
def WordSized (p : Plain) : Prop :=
  ∀ n, p.Contains (.integer n) → n.width ≠ .w256 →
    -Width.w64.half ≤ n.value ∧ n.value < Width.w64.count

private theorem jsonItems_eq_map (items : List Plain) : jsonItems items = items.map json := by
  induction items with
  | nil => rfl
  | cons item items ih => rw [jsonItems, ih, List.map_cons]

private theorem jsonEntries_eq_map (entries : List (String × Plain)) :
    jsonEntries entries = entries.map fun entry => (entry.1, entry.2.json) := by
  induction entries with
  | nil => rfl
  | cons entry entries ih => rw [jsonEntries, ih, List.map_cons]

private theorem wordSized_of_parts {p : Plain} (noInteger : ∀ n, p ≠ integer n)
    (inner : ∀ part ∈ p.parts, part.WordSized) : p.WordSized := by
  intro n contains narrow
  cases contains with
  | refl => exact absurd rfl (noInteger n)
  | part member inside => exact inner _ member n inside narrow

private theorem wordSized_integer {n : PlainInteger}
    (fits : -Width.w64.half ≤ n.value ∧ n.value < Width.w64.count) : (integer n).WordSized := by
  intro m contains _
  cases contains with
  | refl => exact fits
  | part member _ => cases member

theorem WordSized.part {p part : Plain} (sized : p.WordSized) (member : part ∈ p.parts) :
    part.WordSized :=
  fun n contains => sized n (.part member contains)

private theorem readable_integer {n : PlainInteger} (sized : (integer n).WordSized) (depth : Nat) :
    n.json.Readable depth := by
  unfold PlainInteger.json
  split
  next => cases depth <;> trivial
  next narrow =>
    have fits := sized n (.refl _) narrow
    cases depth <;> exact fits

private theorem readable_json {depth : Nat} {p : Plain} (deep : p.depth ≤ depth)
    (sized : p.WordSized) : p.json.Readable depth := by
  induction depth generalizing p with
  | zero =>
    cases p with
    | list items => cases deep
    | map entries => cases deep
    | integer n => exact readable_integer sized 0
    | _ => trivial
  | succ depth ih =>
    have inner : ∀ part ∈ p.parts, part.json.Readable depth := by
      intro part member
      have shallow := depth_lt_of_mem_parts member
      exact ih (by omega) (sized.part member)
    cases p with
    | list items =>
      rw [json, jsonItems_eq_map]
      exact List.forall_mem_map.2 inner
    | map entries =>
      rw [json, jsonEntries_eq_map]
      exact List.forall_mem_map.2 fun entry member => inner entry.2 (List.mem_map_of_mem member)
    | integer n => exact readable_integer sized (depth + 1)
    | _ => trivial

/-- Digits as hexadecimal is written: none of them is of upper case. -/
def LowerHex (digits : List Char) : Prop := ∀ c ∈ digits, c.isDigit = true ∨ 'a' ≤ c ∧ c ≤ 'f'

/-- What a plain value is as JSON. -/
inductive Mirrors : Plain → Json → Prop
  | absent : Mirrors absent .null
  | bool (b : Bool) : Mirrors (bool b) (.bool b)
  | text (s : String) : Mirrors (text s) (.string s)
  | bytes {content : List UInt8} {digits : List Char} (spelled : Hex.decode digits = .ok content)
      (lower : LowerHex digits) :
      Mirrors (bytes content) (.string (String.ofList ('0' :: 'x' :: digits)))
  | number {n : PlainInteger} (narrow : n.width ≠ .w256) :
      Mirrors (integer n) (.number (.integer n.value))
  | decimal {n : PlainInteger} (wide : n.width = .w256) :
      Mirrors (integer n) (.string (Decimal.ofInt n.value))
  | list {items : List Plain} {trees : List Json} (each : List.Forall₂ Mirrors items trees) :
      Mirrors (list items) (.array trees)
  | map {entries : List (String × Plain)} {members : Json.Members}
      (keys : members.map Prod.fst = entries.map Prod.fst)
      (each : List.Forall₂ Mirrors (entries.map Prod.snd) (members.map Prod.snd))
      (ascending : members.Pairwise fun a b => Utf8.encode a.1 < Utf8.encode b.1) :
      Mirrors (map entries) (.object members)

private theorem mirrors_bytes (content : List UInt8) :
    Mirrors (bytes content) (.string ("0x" ++ Hex.encode content)) := by
  have all : ∀ n < 16, (Hex.digit n).isDigit = true ∨ 'a' ≤ Hex.digit n ∧ Hex.digit n ≤ 'f' := by
    decide
  have lower : LowerHex (Hex.encode content).toList := by
    intro c member
    rw [Hex.encode, String.toList_ofList] at member
    obtain ⟨b, -, digit⟩ := List.mem_flatMap.1 member
    have small : b.toNat < 256 := b.toNat_lt
    simp only [Hex.ofByte, List.mem_cons, List.not_mem_nil, or_false] at digit
    rcases digit with rfl | rfl
    · exact all _ (by omega)
    · exact all _ (by omega)
  have spelled : "0x" ++ Hex.encode content =
      String.ofList ('0' :: 'x' :: (Hex.encode content).toList) := by
    rw [← String.toList_inj]
    simp
  rw [spelled]
  exact .bytes (Hex.decode_encode content) lower

private theorem mirrors_json {p : Plain} (sorted : p.Sorted) : p.Mirrors p.json := by
  induction p using parts_induction with | whole p ih =>
  cases p with
  | absent => exact .absent
  | bool b => exact .bool b
  | text s => exact .text s
  | bytes content => exact mirrors_bytes content
  | integer n =>
    rw [json, PlainInteger.json]
    split
    next wide => exact .decimal wide
    next narrow => exact .number narrow
  | list items =>
    rw [json, jsonItems_eq_map]
    refine .list ?_
    rw [List.forall₂_map_right_iff, List.forall₂_same]
    exact fun item member => ih item member (sorted.part member)
  | map entries =>
    rw [json, jsonEntries_eq_map]
    refine .map ?_ ?_ ?_
    · rw [List.map_map]
      rfl
    · rw [List.map_map, List.forall₂_map_left_iff, List.forall₂_map_right_iff, List.forall₂_same]
      intro entry member
      have inside : entry.2 ∈ (map entries).parts := List.mem_map_of_mem member
      exact ih entry.2 inside (sorted.part inside)
    · rw [List.pairwise_map]
      exact TextMap.ordered_iff.1 sorted.ordered

private theorem ofBytes?_line {p : Plain} (shallow : p.depth ≤ 127) (sized : p.WordSized)
    (i : Invocation) : Json.ofBytes? (Utf8.encode (i.json p.json)) = some p.json := by
  have readable := readable_json shallow sized
  have blank : ∀ c ∈ "\n".toList, Json.Reader.isBlank c = true := by simp [Json.Reader.isBlank]
  rw [Invocation.json, Invocation.line]
  split
  next => exact Json.ofBytes?_value Json.Writer.blank_pretty readable blank
  next => exact Json.ofBytes?_value Json.Writer.blank_compact readable blank

/-- A plain value of maps in order, nested as deep as readers go at most, is written as JSON that
is read back as its mirror, on one line or over several. -/
theorem rendering_mirrored {p : Plain} (sorted : p.Sorted) (shallow : p.depth ≤ 127)
    (sized : p.WordSized) :
    ∃ json, Mirrors p json ∧ Json.ofBytes? (Utf8.encode p.json.compact) = some json ∧
      Json.ofBytes? (Utf8.encode p.json.pretty) = some json ∧
      ∀ i : Invocation, Json.ofBytes? (Utf8.encode (i.json p.json)) = some json := by
  have readable : p.json.Readable Json.maxDepth := readable_json shallow sized
  exact ⟨p.json, mirrors_json sorted, Json.ofBytes?_compact readable, Json.ofBytes?_pretty readable,
    ofBytes?_line shallow sized⟩

/-- A list in a map, with an absent value and a negative integer, under a key that has to be escaped
and in front of one beyond ASCII. -/
theorem rendering_mirrored_nested :
    let p : Plain := map [("\"\n", list [absent, integer ⟨true, .w64, -1, by decide⟩]),
      ("é", bytes [0xff])]
    p.Sorted ∧ p.depth = 2 ∧ p.WordSized ∧
      p.json.compact = "\x7b\"\\\"\\n\":[null,-1],\"é\":\"0xff\"\x7d" ∧
      ∃ json, Mirrors p json ∧ Json.ofBytes? (Utf8.encode p.json.compact) = some json ∧
        Json.ofBytes? (Utf8.encode p.json.pretty) = some json := by
  intro p
  have converted : (Value.dictionary [(.string "é", .bytes [0xff]), (.string "\"\n",
      .array [.nil, .integer ⟨.intOf .w64, -1, by decide⟩])]).plain = .ok p := rfl
  have sorted : p.Sorted := Value.sorted_of_plain converted
  have number : (integer ⟨true, .w64, -1, by decide⟩).WordSized := wordSized_integer (by decide)
  have items : (list [absent, integer ⟨true, .w64, -1, by decide⟩]).WordSized := by
    refine wordSized_of_parts (by simp) ?_
    simpa [parts] using ⟨wordSized_of_parts (by simp) (by simp [parts]), number⟩
  have sized : p.WordSized := by
    refine wordSized_of_parts (by simp [p]) ?_
    simpa [p, parts] using ⟨items, wordSized_of_parts (by simp) (by simp [parts])⟩
  obtain ⟨json, mirrors, compact, pretty, -⟩ := rendering_mirrored sorted (by decide) sized
  exact ⟨sorted, rfl, sized, by decide, json, mirrors, compact, pretty⟩

/-- What is printed as JSON of a value, or of the fields of a composite, is read back as the mirror
of what they become. -/
theorem printed_mirrored {i : Invocation} {v : Value} {output : String}
    (printed : i.report v = .ok output) (document : ∀ limits, i.command ≠ .inspect limits) :
    ∃ p : Plain, p.Sorted ∧ (p.depth ≤ 127 → p.WordSized →
      ∃ json, Mirrors p json ∧ Json.ofBytes? (Utf8.encode output) = some json) := by
  have mirrored {p : Plain} (sorted : p.Sorted) (shown : i.json p.json = output) :
      ∃ p : Plain, p.Sorted ∧ (p.depth ≤ 127 → p.WordSized →
        ∃ json, Mirrors p json ∧ Json.ofBytes? (Utf8.encode output) = some json) :=
    ⟨p, sorted, fun shallow sized =>
      ⟨p.json, mirrors_json sorted, shown ▸ ofBytes?_line shallow sized i⟩⟩
  rw [Invocation.report] at printed
  cases command : i.command with
  | value =>
    rw [command] at printed
    obtain ⟨p, converted, shown⟩ := bind_eq_ok.1 printed
    exact mirrored (Value.sorted_of_plain (mapError_eq_ok.1 converted)) (pure_eq_ok.1 shown)
  | event =>
    rw [command] at printed
    obtain ⟨entries, read, shown⟩ := bind_eq_ok.1 printed
    exact mirrored (Value.sorted_of_eventFields read) (pure_eq_ok.1 shown)
  | inspect limits => exact absurd command (document limits)

end CadenceWire.Plain
