import CadenceWire.Proofs.Json.Quoted
import CadenceWire.Proofs.Json.Token

/-!
The text of an object of two members, and what is read of it.
-/
namespace CadenceWire.Json

open Decimal (Written)

/-- Text that stands between quotes as it is. -/
def Bare (text : List Char) : Prop := ∀ c ∈ text, c ≠ '"' ∧ c ≠ '\\' ∧ 0x20 ≤ c.toNat

instance (text : List Char) : Decidable (Bare text) := List.decidableBAll _ text

theorem Bare.append {front rest : List Char} (bare : Bare front) (bare' : Bare rest) :
    Bare (front ++ rest) :=
  fun c member => (List.mem_append.1 member).elim (bare c) (bare' c)

private theorem bare_of_isDigit {text : List Char} (digit : ∀ c ∈ text, c.isDigit = true) :
    Bare text := by
  intro c member
  have range := Char.isDigit_iff_toNat.1 (digit c member)
  refine ⟨?_, ?_, Nat.le_trans (by decide) range.1⟩
  · rintro rfl
    exact absurd range (by decide)
  · rintro rfl
    exact absurd range (by decide)

namespace Reader

private theorem bare_written (l : Written) : Bare l.text := by
  have sign : Bare (if l.negative then ['-'] else []) := by
    split <;> decide
  have point : Bare (if l.fraction = [] then [] else '.' :: l.fraction) := by
    split
    next => decide
    next =>
      exact @Bare.append ['.'] _ (by decide) (bare_of_isDigit l.isDigit_fraction)
  exact sign.append ((bare_of_isDigit l.isDigit_whole).append point)

private theorem bare_of_splitSign {text : List Char} (bare : Bare (Decimal.splitSign text).2) :
    Bare text := by
  unfold Decimal.splitSign at bare
  split at bare
  next => exact @Bare.append ['-'] _ (by decide) bare
  next => exact @Bare.append ['+'] _ (by decide) bare
  next => exact bare

/-- A token may be put between quotes. -/
theorem bare_number {text : List Char} {n : Number} (read : number text = some (n, [])) :
    Bare text := by
  obtain ⟨l, tail, power, rfl, -, behind, -⟩ := number_split read
  refine (bare_written l).append ?_
  rcases exponent_split behind with ⟨mark, rest, rfl, known, digit⟩ | ⟨rfl, -⟩
  · have letter : Bare [mark] := by
      rcases known with rfl | rfl <;> decide
    exact letter.append (bare_of_splitSign (bare_of_isDigit digit))
  · exact (by decide : Bare [])

private theorem stringRest_bare {text : List Char} (bare : Bare text) (read rest : List Char) :
    stringRest read (text ++ '"' :: rest) =
      some (String.ofList (read.reverse ++ text), rest) := by
  induction text generalizing read with
  | nil => simp [stringRest]
  | cons c text ih =>
    obtain ⟨noQuote, noEscape, printed⟩ := bare c List.mem_cons_self
    have behind : Bare text := fun c member => bare c (List.mem_cons_of_mem _ member)
    rw [List.cons_append, stringRest_bare_cons noQuote noEscape printed, ih behind,
      List.reverse_cons, List.append_assoc]
    rfl

theorem value_string {text : List Char} (bare : Bare text) (depth : Nat) (rest : List Char) :
    value (depth + 1) (' ' :: '"' :: (text ++ '"' :: rest)) =
      some (.string (String.ofList text), rest) := by
  change (stringRest [] (text ++ '"' :: rest)).map _ = _
  rw [stringRest_bare bare]
  rfl

theorem member_named {item : Reader Json} {text behind : List Char} {name : String}
    (named : string (skipBlanks text) = some (name, ':' :: behind)) :
    member item text = (item behind).map fun found => ((name, found.1), found.2) := by
  rw [member, named]
  change (item behind).bind _ = _
  cases item behind <;> rfl

private theorem member_text {name : List Char} (bare : Bare name) (item : Reader Json)
    (rest : List Char) : member item ('"' :: (name ++ '"' :: ':' :: rest)) =
      (item rest).map fun found => ((String.ofList name, found.1), found.2) := by
  have read : string (skipBlanks ('"' :: (name ++ '"' :: ':' :: rest))) =
      some (String.ofList name, ':' :: rest) := stringRest_bare bare [] (':' :: rest)
  exact member_named read

private theorem separated_pair {α : Type} {item : Reader α} {a b : α} {text text' rest : List Char}
    (bound : Nat) (first : item text = some (a, ',' :: text'))
    (second : item text' = some (b, '\x7d' :: rest)) :
    separated item '\x7d' (bound + 2) text = some ([a, b], rest) := by
  rw [separated_more first, separated_last second rfl (by decide)]
  rfl

end Reader

/-- An object that names a kind and holds a payload. -/
theorem ofText?_typed {kind body : List Char} (bare : Bare kind) {json : Json}
    (read : Reader.value 126 (' ' :: (body ++ ['\x7d'])) = some (json, ['\x7d'])) :
    ofText? ("\x7b\"type\": \"".toList ++ (kind ++ ("\", \"value\": ".toList ++
        (body ++ ['\x7d'])))) =
      some (.object [("type", .string (String.ofList kind)), ("value", json)]) := by
  obtain ⟨behind, second⟩ : ∃ behind, behind = ' ' :: '"' :: ("value".toList ++
    '"' :: ':' :: ' ' :: (body ++ ['\x7d'])) := ⟨_, rfl⟩
  obtain ⟨members, first⟩ : ∃ members, members = '"' :: ("type".toList ++
    '"' :: ':' :: ' ' :: '"' :: (kind ++ '"' :: ',' :: behind)) := ⟨_, rfl⟩
  have named : Reader.member (Reader.value 126) members =
      some (("type", .string (String.ofList kind)), ',' :: behind) := by
    rw [first, Reader.member_text (by decide), Reader.value_string bare]
    rfl
  have valued : Reader.member (Reader.value 126) behind = some (("value", json), ['\x7d']) := by
    have skipped : Reader.member (Reader.value 126) behind = Reader.member (Reader.value 126)
        ('"' :: ("value".toList ++ '"' :: ':' :: ' ' :: (body ++ ['\x7d']))) := by
      rw [second]
      rfl
    rw [skipped, Reader.member_text (by decide), read]
    rfl
  obtain ⟨bound, length⟩ : ∃ bound, members.length = bound + 2 := by
    rw [first]
    exact ⟨_, rfl⟩
  have listed := Reader.separated_pair bound named valued
  rw [← length] at listed
  have text : "\x7b\"type\": \"".toList ++ (kind ++ ("\", \"value\": ".toList ++
      (body ++ ['\x7d']))) = '\x7b' :: members := by
    rw [first, second]
    rfl
  have bracketed : Reader.bracketed (Reader.member (Reader.value 126)) '\x7d' members =
      Reader.separated (Reader.member (Reader.value 126)) '\x7d' members.length members := by
    rw [first]
    rfl
  rw [text, ofText?]
  change ((Reader.bracketed (Reader.member (Reader.value 126)) '\x7d' members).map _).bind _ = _
  rw [bracketed, listed]
  rfl

end CadenceWire.Json
