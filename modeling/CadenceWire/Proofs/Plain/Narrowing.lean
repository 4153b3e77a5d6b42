import CadenceWire.Proofs.Plain.Reordering
import CadenceWire.Proofs.Plain.Sorted

/-!
Narrowing is exact. It gives the texts that stand in a map and makes none of anything else, and
where it fails, it does so for the first value of another kind in the order of the keys.
-/
namespace CadenceWire

namespace Plain

/-- The plain value is no text, as the mismatch says. -/
inductive NoText : Plain → Mismatch → Prop
  | other {p : Plain} (other : ∀ s, p ≠ .text s) : NoText p ⟨"string", p.kindName⟩

/-- The plain value is no list, or an item of the list, before which there are texts only, is no
text. -/
inductive NoTexts : Plain → Mismatch → Prop
  | other {p : Plain} (other : ∀ items, p ≠ .list items) : NoTexts p ⟨"list", p.kindName⟩
  | item {front : List String} {item : Plain} {back : List Plain} {mismatch : Mismatch}
      (first : NoText item mismatch) : NoTexts (.list (front.map .text ++ item :: back)) mismatch

/-- The plain value is no map, or one that has a faulty value under a key and no faulty one under
any key before it in the order of bytes. -/
inductive Unfit (faulty : Plain → Mismatch → Prop) : Plain → Mismatch → Prop
  | other {p : Plain} (other : ∀ entries, p ≠ .map entries) : Unfit faulty p ⟨"map", p.kindName⟩
  | entry {entries : List (String × Plain)} {entry : String × Plain} {mismatch : Mismatch}
      (member : entry ∈ entries) (here : faulty entry.2 mismatch)
      (first : ∀ other ∈ entries, Utf8.encode other.1 < Utf8.encode entry.1 →
        ∀ mismatch, ¬ faulty other.2 mismatch) : Unfit faulty (.map entries) mismatch

/-- The step gives what stands in a plain value, and fails for a fault of it. -/
structure Narrows {α : Type} (narrow : Plain → Except Mismatch α) (widen : α → Plain)
    (faulty : Plain → Mismatch → Prop) : Prop where
  ok {p : Plain} {a : α} : narrow p = .ok a ↔ p = widen a
  error {p : Plain} {mismatch : Mismatch} : narrow p = .error mismatch ↔ faulty p mismatch

private theorem narrows_string : Narrows string .text NoText where
  ok {p s} := by
    cases p with
    | text t => exact ⟨fun same => congrArg text (Except.ok.inj same),
        fun same => congrArg Except.ok (text.inj same)⟩
    | _ => simp [string]
  error {p mismatch} := by
    constructor
    · intro failed
      cases p with
      | text t => cases failed
      | _ =>
        obtain rfl := Except.error.inj failed
        exact .other (by simp)
    · rintro ⟨other⟩
      cases p with
      | text t => exact absurd rfl (other t)
      | _ => rfl

private theorem forall₂_eq_iff {α β : Type} {f : β → α} {items : List α} {results : List β} :
    List.Forall₂ (fun item result => item = f result) items results ↔ items = results.map f := by
  rw [← List.forall₂_eq_eq_eq, List.forall₂_map_right_iff]

private theorem narrows_strings :
    Narrows strings (fun texts => .list (texts.map .text)) NoTexts where
  ok {p texts} := by
    cases p with
    | list items =>
      rw [strings, mapM_eq_ok, list.injEq]
      simp only [narrows_string.ok]
      exact forall₂_eq_iff
    | _ => simp [strings]
  error {p mismatch} := by
    constructor
    · intro failed
      cases p with
      | list items =>
        obtain ⟨front, item, back, texts, rfl, read, first⟩ := mapM_eq_error.1 failed
        simp only [narrows_string.ok] at read
        rw [forall₂_eq_iff.1 read]
        exact .item (narrows_string.error.1 first)
      | _ =>
        obtain rfl := Except.error.inj failed
        exact .other (by simp)
    · rintro (⟨other⟩ | @⟨front, item, back, mismatch, first⟩)
      · cases p with
        | list items => exact absurd rfl (other items)
        | _ => rfl
      · refine mapM_eq_error.2 ⟨_, item, back, front, rfl, ?_, narrows_string.error.2 first⟩
        simp only [narrows_string.ok]
        exact forall₂_eq_iff.2 rfl

section entries

variable {α : Type} {narrow : Plain → Except Mismatch α} {widen : α → Plain}
  {faulty : Plain → Mismatch → Prop} {p : Plain} {mismatch : Mismatch}

private theorem entry_eq_ok (narrows : Narrows narrow widen faulty) {entry : String × Plain}
    {result : String × α} :
    (do return (entry.1, ← narrow entry.2) : Except Mismatch (String × α)) = .ok result ↔
      entry = (result.1, widen result.2) := by
  simp only [bind_eq_ok, pure_eq_ok, narrows.ok]
  constructor
  · rintro ⟨a, same, rfl⟩
    exact Prod.ext rfl same
  · rintro rfl
    exact ⟨result.2, rfl, rfl⟩

private theorem entry_eq_error (narrows : Narrows narrow widen faulty) {entry : String × Plain} :
    (do return (entry.1, ← narrow entry.2) : Except Mismatch (String × α)) = .error mismatch ↔
      faulty entry.2 mismatch := by
  rw [← narrows.error]
  cases narrow entry.2 <;> simp [bind, Except.bind, pure, Except.pure]

private theorem narrowEntries_eq_ok (narrows : Narrows narrow widen faulty)
    {map : List (String × α)} : narrowEntries narrow p = .ok map ↔
      p = .map (map.map fun entry => (entry.1, widen entry.2)) := by
  cases p with
  | map entries =>
    rw [Plain.map.injEq, ← forall₂_eq_iff]
    simp only [← entry_eq_ok narrows]
    exact mapM_eq_ok
  | _ => simp [narrowEntries, entries, bind, Except.bind]

/-- What is before an entry of a map in its list are the entries with a lesser key. -/
theorem mem_front_iff {entries front back : List (String × Plain)} {entry other : String × Plain}
    (ordered : TextMap.Ordered entries) (split : entries = front ++ entry :: back) :
    other ∈ front ↔ other ∈ entries ∧ other.1 < entry.1 := by
  subst split
  obtain ⟨-, behind, before⟩ := List.pairwise_append.1 ordered
  constructor
  · intro member
    exact ⟨List.mem_append_left _ member, before other member entry List.mem_cons_self⟩
  · rintro ⟨member, less⟩
    rcases List.mem_append.1 member with member | member
    · exact member
    · rcases List.mem_cons.1 member with rfl | member
      · exact absurd less (String.lt_irrefl _)
      · have more := (List.pairwise_cons.1 behind).1 other member
        exact absurd (String.lt_trans less more) (String.lt_irrefl _)

private theorem narrowEntries_eq_error (narrows : Narrows narrow widen faulty) (sorted : p.Sorted) :
    narrowEntries narrow p = .error mismatch ↔ Unfit faulty p mismatch := by
  constructor
  · intro failed
    cases p with
    | map entries =>
      obtain ⟨front, entry, back, results, split, read, failed⟩ := mapM_eq_error.1 failed
      have member : entry ∈ entries := split ▸ List.mem_append_right _ List.mem_cons_self
      refine .entry member ((entry_eq_error narrows).1 failed) fun other inside less fault => ?_
      have before := (mem_front_iff sorted.ordered split).2 ⟨inside, Utf8.encode_lt_iff.1 less⟩
      obtain ⟨result, -, fine⟩ := exists_mem_of_forall₂ read before
      intro faulty'
      cases fine.symm.trans ((entry_eq_error narrows).2 faulty')
    | _ =>
      obtain rfl := Except.error.inj failed
      exact .other (by simp)
  · rintro (⟨other⟩ | @⟨entries, entry, mismatch, member, here, first⟩)
    · cases p with
      | map entries => exact absurd rfl (other entries)
      | _ => rfl
    · obtain ⟨front, back, split⟩ := List.append_of_mem member
      have fine : ∀ other ∈ front, ∃ result, (do return (other.1, ← narrow other.2) :
          Except Mismatch (String × α)) = .ok result ∧ True := by
        intro other before
        obtain ⟨inside, less⟩ := (mem_front_iff sorted.ordered split).1 before
        cases read : narrow other.2 with
        | ok a => exact ⟨_, rfl, trivial⟩
        | error fault =>
          exact absurd (narrows.error.1 read) (first other inside (Utf8.encode_lt less) fault)
      obtain ⟨results, read, -⟩ := exists_forall₂ fine
      exact mapM_eq_error.2
        ⟨front, entry, back, results, split, read, (entry_eq_error narrows).2 here⟩

end entries

end Plain

/-- A plain value narrows to a map of texts, or of lists of texts, if and only if it is just that
map. Otherwise what is named is the first fault in the order of bytes of the keys. A dictionary
narrows as what it becomes does, in whichever order its entries come, and nothing but a dictionary
does, whether or not it becomes anything. -/
theorem narrowing_exact :
    (∀ p : Plain,
      (∀ map, p.textMap = .ok map ↔ p = .map (map.map fun entry => (entry.1, .text entry.2))) ∧
      ∀ map, p.textListMap = .ok map ↔
        p = .map (map.map fun entry => (entry.1, .list (entry.2.map .text)))) ∧
    (∀ p : Plain, p.Sorted → ∀ mismatch,
      (p.textMap = .error mismatch ↔ p.Unfit Plain.NoText mismatch) ∧
      (p.textListMap = .error mismatch ↔ p.Unfit Plain.NoTexts mismatch)) ∧
    (∀ v : Value, v.kind = .dictionary →
      (∀ p, v.toPlain = .ok p → p.Sorted) ∧
      v.textMap = (v.toPlain >>= fun p => p.textMap.mapError .mismatch) ∧
      v.textListMap = (v.toPlain >>= fun p => p.textListMap.mapError .mismatch)) ∧
    (∀ entries others p, entries.Perm others → (Value.dictionary entries).toPlain = .ok p →
      (Value.dictionary others).textMap = p.textMap.mapError .mismatch ∧
      (Value.dictionary others).textListMap = p.textListMap.mapError .mismatch) ∧
    ∀ v : Value, v.kind ≠ .dictionary →
      v.textMap = .error (.mismatch ⟨"Dictionary", v.kind.name⟩) ∧
      v.textListMap = .error (.mismatch ⟨"Dictionary", v.kind.name⟩) := by
  have whole (v : Value) (kind : v.kind = .dictionary) : v.plainDictionary = v.toPlain := by
    rw [Value.plainDictionary, if_pos kind]
  refine ⟨fun p => ⟨?_, ?_⟩, fun p sorted mismatch => ⟨?_, ?_⟩, fun v kind => ⟨?_, ?_, ?_⟩, ?_, ?_⟩
  · exact fun map => Plain.narrowEntries_eq_ok Plain.narrows_string
  · exact fun map => Plain.narrowEntries_eq_ok Plain.narrows_strings
  · exact Plain.narrowEntries_eq_error Plain.narrows_string sorted
  · exact Plain.narrowEntries_eq_error Plain.narrows_strings sorted
  · exact fun p converted => Value.sorted_of_plain (mapError_eq_ok.1 converted)
  · rw [Value.textMap, whole v kind]
  · rw [Value.textListMap, whole v kind]
  · intro entries others p moved converted
    have same : (Value.dictionary others).toPlain = .ok p :=
      mapError_eq_ok.2 (Value.plain_dictionary_perm moved (mapError_eq_ok.1 converted))
    rw [Value.textMap, Value.textListMap, whole _ rfl, same]
    exact ⟨rfl, rfl⟩
  · intro v kind
    rw [Value.textMap, Value.textListMap, Value.plainDictionary, if_neg kind]
    exact ⟨rfl, rfl⟩

/-- The key that comes first in the payload is not the first one at fault. -/
theorem narrowing_exact_unordered :
    let b : Value × Value := (.string "b", .bool true)
    let a : Value × Value := (.string "a", .array [.string "x", .nil])
    let p := Plain.map [("a", .list [.text "x", .absent]), ("b", .bool true)]
    (Value.dictionary [b, a]).toPlain = .ok p ∧ p.Sorted ∧
      p.Unfit Plain.NoText ⟨"string", "list"⟩ ∧ p.textMap = .error ⟨"string", "list"⟩ ∧
      p.Unfit Plain.NoTexts ⟨"string", "absent"⟩ ∧ p.textListMap = .error ⟨"string", "absent"⟩ ∧
      (Value.dictionary [a, b]).textListMap = .error (.mismatch ⟨"string", "absent"⟩) ∧
      Value.nil.textMap = .error (.mismatch ⟨"Dictionary", "Optional"⟩) := by
  intro b a p
  obtain ⟨-, errors, dictionaries, reordered, others⟩ := narrowing_exact
  have converted : (Value.dictionary [b, a]).toPlain = .ok p := rfl
  have sorted : p.Sorted := (dictionaries (.dictionary [b, a]) rfl).1 p converted
  have text : p.textMap = .error ⟨"string", "list"⟩ := rfl
  have texts : p.textListMap = .error ⟨"string", "absent"⟩ := rfl
  have moved : [b, a].Perm [a, b] := .swap _ _ _
  refine ⟨converted, sorted, (errors p sorted _).1.1 text, text, (errors p sorted _).2.1 texts,
    texts, ?_, (others .nil (by simp [Value.kind])).1⟩
  rw [(reordered _ _ p moved converted).2, texts]
  rfl

end CadenceWire
