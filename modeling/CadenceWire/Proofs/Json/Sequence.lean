import CadenceWire.Json.Reader
import Mathlib.Data.List.Forall2
import Mathlib.Data.List.TakeDrop

/-!
Parts between brackets, with commas and blanks between them. If a reader takes each part off the
front of whatever may follow it, the parts are read together.
-/
namespace CadenceWire.Json.Reader

variable {α : Type} {item : Reader α} {close : Char} {follows : List Char → Prop}
  {gap tail rest : List Char} {texts : List (List Char)} {results : List α}

/-- What has the property is told from what does not behind it. -/
theorem span_append {p : Char → Bool} {front rest : List Char} (all : ∀ c ∈ front, p c = true)
    (ends : ∀ c ∈ rest.head?, p c = false) : (front ++ rest).span p = (front, rest) := by
  rw [List.span_eq_takeWhile_dropWhile, List.takeWhile_append_of_pos all,
    List.dropWhile_append_of_pos all]
  cases rest with
  | nil => simp
  | cons c rest => simp [ends c rfl]

/-- The reader takes the text for the value, whatever stands behind it of what may follow. -/
def Takes (item : Reader α) (follows : List Char → Prop) (text : List Char) (a : α) : Prop :=
  ∀ rest, follows rest → item (text ++ rest) = some (a, rest)

theorem skipBlanks_append (blank : ∀ c ∈ gap, isBlank c = true) (text : List Char) :
    skipBlanks (gap ++ text) = skipBlanks text :=
  List.dropWhile_append_of_pos blank

theorem skipBlanks_of_start {c : Char} (printed : isBlank c = false) (text : List Char) :
    skipBlanks (c :: text) = c :: text :=
  List.dropWhile_cons_of_neg (by simp [printed])

theorem separated_last {text : List Char} {a : α} (read : item text = some (a, tail))
    (closes : skipBlanks tail = close :: rest) (comma : close ≠ ',') (bound : Nat) :
    separated item close (bound + 1) text = some ([a], rest) := by
  simp only [separated, read, Option.bind_eq_bind, Option.bind_some]
  split
  next same => exact absurd (List.cons.inj (closes.symm.trans same)).1 comma
  next same =>
    cases closes.symm.trans same
    exact if_pos rfl
  next same => cases closes.symm.trans same

theorem separated_more {text text' : List Char} {a : α} (read : item text = some (a, ',' :: text'))
    (bound : Nat) : separated item close (bound + 1) text =
      (separated item close bound text').map fun found => (a :: found.1, found.2) := by
  rw [separated, read]
  change (separated item close bound text').bind _ = _
  cases separated item close bound text' <;> rfl

/-- Behind a part, something else than a comma or the closing bracket is refused. -/
theorem separated_stopped {text : List Char} {a : α} {c : Char}
    (read : item text = some (a, c :: rest)) (printed : isBlank c = false) (comma : c ≠ ',')
    (other : c ≠ close) (bound : Nat) : separated item close bound text = none := by
  cases bound with
  | zero => rfl
  | succ bound =>
    have closes : skipBlanks (c :: rest) = c :: rest := skipBlanks_of_start printed rest
    simp only [separated, read, Option.bind_eq_bind, Option.bind_some]
    split
    next same => exact absurd (List.cons.inj (closes.symm.trans same)).1 comma
    next same =>
      cases closes.symm.trans same
      exact if_neg other
    next => rfl

private theorem separated_gap (skips : ∀ text, item (gap ++ text) = item text) (bound : Nat)
    (text : List Char) :
    separated item close bound (gap ++ text) = separated item close bound text := by
  cases bound with
  | zero => rfl
  | succ bound => rw [separated, separated, skips]

private theorem separated_parts (skips : ∀ text, item (gap ++ text) = item text)
    (comma : close ≠ ',')
    (taken : List.Forall₂ (Takes item follows) texts results) (some_parts : texts ≠ [])
    (next : ∀ text, follows (',' :: text)) (last : follows tail)
    (closes : skipBlanks tail = close :: rest) {bound : Nat} (enough : texts.length ≤ bound) :
    separated item close bound ((',' :: gap).intercalate texts ++ tail) = some (results, rest) := by
  induction taken generalizing bound with
  | nil => exact absurd rfl some_parts
  | @cons text a texts results first others ih =>
    obtain ⟨bound, rfl⟩ := Nat.exists_eq_add_of_le' (Nat.le_trans (Nat.succ_pos _) enough)
    cases others with
    | nil =>
      rw [List.intercalate_singleton]
      exact separated_last (first tail last) closes comma bound
    | cons second others =>
      have behind := ih (List.cons_ne_nil _ _) (Nat.le_of_succ_le_succ enough)
      rw [List.intercalate_cons_cons, List.append_assoc, List.append_assoc, List.cons_append,
        separated_more (first _ (next _)), separated_gap skips, behind]
      rfl

private theorem length_le_intercalate (texts : List (List Char)) (separator : List Char)
    (written : ∀ text ∈ texts, text ≠ []) :
    texts.length ≤ (separator.intercalate texts).length := by
  induction texts with
  | nil => exact Nat.zero_le _
  | cons text texts ih =>
    obtain ⟨here, behind⟩ := List.forall_mem_cons.1 written
    have short := ih behind
    have some_text := List.length_pos_of_ne_nil here
    cases texts with
    | nil =>
      rw [List.intercalate_singleton]
      exact some_text
    | cons text' texts =>
      rw [List.intercalate_cons_cons, List.length_append, List.length_append]
      simp only [List.length_cons] at *
      omega

/-- A part starts with a character that is neither a blank nor the closing bracket. -/
def Starts (close : Char) (text : List Char) : Prop :=
  ∃ c rest, text = c :: rest ∧ isBlank c = false ∧ c ≠ close

theorem bracketed_nil (printed : isBlank close = false) :
    bracketed item close (close :: rest) = some ([], rest) := by
  rw [bracketed, skipBlanks_of_start printed]
  exact if_pos rfl

theorem bracketed_of_starts (gap : List Char) (blank : ∀ c ∈ gap, isBlank c = true)
    {text : List Char} (starts : Starts close text) :
    bracketed item close (gap ++ text) = separated item close (gap ++ text).length text := by
  obtain ⟨c, rest, rfl, printed, other⟩ := starts
  rw [bracketed, skipBlanks_append blank, skipBlanks_of_start printed]
  exact if_neg other

theorem bracketed_parts (gap : List Char) (skips : ∀ text, item (gap ++ text) = item text)
    (comma : close ≠ ',')
    (blank : ∀ c ∈ gap, isBlank c = true) (taken : List.Forall₂ (Takes item follows) texts results)
    (some_parts : texts ≠ []) (starts : ∀ text ∈ texts, Starts close text)
    (next : ∀ text, follows (',' :: text)) (last : follows tail)
    (closes : skipBlanks tail = close :: rest) :
    bracketed item close (gap ++ ((',' :: gap).intercalate texts ++ tail)) =
      some (results, rest) := by
  have written : ∀ text ∈ texts, text ≠ [] := by
    intro text member
    obtain ⟨c, more, rfl, -⟩ := starts text member
    exact List.cons_ne_nil _ _
  have enough : texts.length ≤ (gap ++ ((',' :: gap).intercalate texts ++ tail)).length := by
    have short := length_le_intercalate texts (',' :: gap) written
    simp only [List.length_append]
    omega
  have read := separated_parts skips comma taken some_parts next last closes enough
  have front : Starts close ((',' :: gap).intercalate texts ++ tail) := by
    obtain ⟨text, others, rfl⟩ := List.exists_cons_of_ne_nil some_parts
    obtain ⟨c, more, rfl, start⟩ := starts _ List.mem_cons_self
    cases others with
    | nil => exact ⟨c, _, rfl, start⟩
    | cons text' others =>
      rw [List.intercalate_cons_cons]
      exact ⟨c, _, rfl, start⟩
  rw [bracketed_of_starts gap blank front]
  exact read

end CadenceWire.Json.Reader
