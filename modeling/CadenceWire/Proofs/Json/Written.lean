import CadenceWire.Json.Writer
import CadenceWire.Proofs.Json.Pair

/-!
Trees of JSON, written and read. Whichever way the parts are set, what is written of a tree without
doubles is read as that tree, if arrays and objects are open no deeper than a reader goes.
-/
namespace CadenceWire.Json

open Decimal (Written)

/-- Arrays and objects are open no deeper than this, and every number is an integer of 64 bits. -/
def Readable : Nat → Json → Prop
  | _, null | _, bool _ | _, string _ => True
  | _, number (.integer n) => -Width.w64.half ≤ n ∧ n < Width.w64.count
  | _, number (.double _ _) => False
  | 0, array _ | 0, object _ => False
  | depth + 1, array items => ∀ item ∈ items, Readable depth item
  | depth + 1, object members => ∀ member ∈ members, Readable depth member.2

namespace Writer

/-- Nothing but blanks is set around the punctuation. -/
structure Style.Blank (style : Style) : Prop where
  opening (level : Nat) : ∀ c ∈ (style.opening level).toList, Reader.isBlank c = true
  between (level : Nat) : style.between level = "," ++ style.opening level
  closing (level : Nat) : ∀ c ∈ (style.closing level).toList, Reader.isBlank c = true
  naming : ∃ gap : List Char, style.naming.toList = ':' :: gap ∧ ∀ c ∈ gap, Reader.isBlank c = true

theorem blank_compact : Style.compact.Blank :=
  ⟨fun _ => by simp [Style.compact], fun _ => rfl, fun _ => by simp [Style.compact],
    [], rfl, by simp⟩

theorem blank_pretty : Style.pretty.Blank := by
  have broken (level : Nat) : ∀ c ∈ (lineBreak level).toList, Reader.isBlank c = true := by
    intro c member
    rw [lineBreak, String.toList_append] at member
    rcases List.mem_append.1 member with first | indent
    · rw [List.mem_singleton.1 first]
      decide
    · rw [String.toList_ofList] at indent
      rw [List.eq_of_mem_replicate indent]
      decide
  exact ⟨fun level => broken (level + 1), fun _ => rfl, broken, [' '], rfl,
    by simp [Reader.isBlank]⟩

private theorem brackets_of_ne_nil (style : Style) (level : Nat) (opening closing : String)
    {parts : List String} (some_parts : parts ≠ []) :
    brackets style level opening closing parts = opening ++ style.opening level ++
      (style.between level).intercalate parts ++ style.closing level ++ closing := by
  obtain ⟨part, others, rfl⟩ := List.exists_cons_of_ne_nil some_parts
  rfl

end Writer

namespace Reader

variable {rest : List Char}

private theorem ends_cons {c : Char} (known : c.isDigit = false ∧ c ≠ '.' ∧ c ≠ 'e' ∧ c ≠ 'E')
    (rest : List Char) : Ends (c :: rest) := by
  intro d member
  cases member
  exact known

private theorem ends_blank {gap : List Char} (blank : ∀ c ∈ gap, isBlank c = true)
    (ends : Ends rest) : Ends (gap ++ rest) := by
  cases gap with
  | nil => exact ends
  | cons c gap =>
    have here := blank c List.mem_cons_self
    simp only [isBlank, Bool.or_eq_true, decide_eq_true_eq] at here
    refine ends_cons ?_ _
    rcases here with ((rfl | rfl) | rfl) | rfl <;> decide

/-- Digits of a number other than zero do not start with a zero. -/
theorem head?_toDigits {n : Nat} (positive : 0 < n) : (Nat.toDigits 10 n).head? ≠ some '0' := by
  induction n using Nat.strongRecOn with
  | _ n ih =>
    by_cases single : n < 10
    · have all : ∀ n < 10, 0 < n → [n.digitChar].head? ≠ some '0' := by decide
      rw [Nat.toDigits_of_lt_base single]
      exact all n single positive
    · have shorter : 0 < n / 10 := by omega
      have front := ih (n / 10) (by omega) shorter
      rw [Nat.toDigits_of_base_le (by decide) (Nat.le_of_not_lt single)]
      obtain ⟨c, rest, same⟩ := List.exists_cons_of_ne_nil (@Nat.toDigits_ne_nil (n / 10) 10)
      rw [same] at front ⊢
      exact front

private theorem unpadded_ofInt (n : Int) : Unpadded (Written.ofInt n).whole := by
  intro c rest same
  have same : Nat.toDigits 10 n.natAbs = '0' :: c :: rest := same
  rcases Nat.eq_zero_or_pos n.natAbs with zero | positive
  · rw [zero] at same
    cases same
  · exact head?_toDigits positive (by rw [same]; rfl)

/-- An integer of 64 bits, with a sign or without one, is read as it is written. -/
theorem numberOf?_ofInt {n : Int} (least : -Width.w64.half ≤ n) (most : n < Width.w64.count) :
    numberOf? (Written.ofInt n).negative (Written.ofInt n).whole (Written.ofInt n).fraction none =
      some (.integer n) := by
  have half := Width.half_lt_count .w64
  have digits : Nat.ofDigitChars 10 (Nat.toDigits 10 n.natAbs) 0 = n.natAbs :=
    Nat.ofDigitChars_ten_toDigits
  have filled : fillSignificand 0 (Nat.toDigits 10 n.natAbs) = (n.natAbs, []) := by
    rw [fillSignificand_of_lt (by rw [digits]; omega), digits]
  simp only [numberOf?, Written.ofInt, filled, true_and, and_true]
  by_cases negative : n < 0
  · have fits : 0 < n.natAbs ∧ n.natAbs ≤ Width.w64.half := by omega
    simp only [negative, decide_true, fits, and_self, or_true, if_true, Option.some.injEq,
      Number.integer.injEq]
    omega
  · simp only [negative, decide_false, Bool.not_false, true_or, if_true, Bool.false_eq_true,
      if_false, Option.some.injEq, Number.integer.injEq]
    omega

private theorem value_ofInt {n : Int} (least : -Width.w64.half ≤ n) (most : n < Width.w64.count)
    (depth : Nat) : Takes (value depth) Ends (Decimal.ofInt n).toList (.number (.integer n)) := by
  rw [← Written.text_ofInt]
  exact value_written (unpadded_ofInt n) (numberOf?_ofInt least most) depth

private theorem starts_string (s : String) (close : Char) (other : close ≠ '"') :
    Starts close (Writer.string s).toList :=
  ⟨'"', s.toList.flatMap Writer.escape ++ ['"'], by simp [Writer.string], by decide, other.symm⟩

private theorem value_string_text (s : String) (depth : Nat) :
    Takes (value depth) Ends (Writer.string s).toList (.string s) := by
  intro rest ends
  have read := string_text s Ends rest ends
  have shown : (Writer.string s).toList ++ rest =
      '"' :: (s.toList.flatMap Writer.escape ++ '"' :: rest) := by simp [Writer.string]
  rw [shown, string] at read
  rw [shown, value_scalar (by decide) (by decide) (by decide)]
  change (stringRest [] _).map _ = _
  rw [read]
  rfl

private theorem member_gap {gap : List Char} (blank : ∀ c ∈ gap, isBlank c = true)
    (item : Reader Json) (text : List Char) : member item (gap ++ text) = member item text := by
  rw [member, member, skipBlanks_append blank]

/-- The reader takes a member as it is written, if it takes what the member holds. -/
theorem member_written {item : Reader Json} {json : Json} {gap text : List Char}
    (skips : ∀ text, item (gap ++ text) = item text) (takes : Takes item Ends text json)
    (name : String) :
    Takes (member item) Ends ((Writer.string name).toList ++ ':' :: (gap ++ text))
      (name, json) := by
  intro rest ends
  obtain ⟨c, behind, front, printed, -⟩ := starts_string name ',' (by decide)
  have named : string (skipBlanks ((Writer.string name).toList ++ ':' :: (gap ++ text) ++ rest)) =
      some (name, ':' :: (gap ++ (text ++ rest))) := by
    have read := string_text name (fun _ => True) (':' :: (gap ++ (text ++ rest))) trivial
    rw [front, List.cons_append] at read
    rw [front, List.append_assoc, List.cons_append, skipBlanks_of_start printed, List.cons_append,
      List.append_assoc]
    exact read
  rw [member_named named, skips, takes rest ends]
  rfl

/-- A bracket that closes is no part of what is written before it. -/
def IsClosing (close : Char) : Prop :=
  isBlank close = false ∧ close ≠ ',' ∧
    close.isDigit = false ∧ close ≠ '.' ∧ close ≠ 'e' ∧ close ≠ 'E'

instance (close : Char) : Decidable (IsClosing close) := inferInstanceAs (Decidable (_ ∧ _))

private theorem bracketed_brackets {α : Type} {item : Reader α} {style : Writer.Style}
    (spaced : style.Blank) (level : Nat) {parts : List String} {results : List α}
    (skips : ∀ gap, (∀ c ∈ gap, isBlank c = true) → ∀ text, item (gap ++ text) = item text)
    (taken : List.Forall₂ (Takes item Ends) (parts.map String.toList) results)
    (opening closing : String) (close : Char) (last : closing.toList = [close])
    (closes : IsClosing close) (starts : ∀ text ∈ parts.map String.toList, Starts close text)
    (rest : List Char) :
    ∃ behind, (Writer.brackets style level opening closing parts).toList ++ rest =
        opening.toList ++ behind ∧ bracketed item close behind = some (results, rest) := by
  obtain ⟨printed, comma, known⟩ := closes
  by_cases none : parts = []
  · subst none
    cases taken
    exact ⟨close :: rest, by simp [Writer.brackets, last], bracketed_nil printed⟩
  · have some_texts : parts.map String.toList ≠ [] := by simpa using none
    have ends : Ends ((style.closing level).toList ++ close :: rest) :=
      ends_blank (spaced.closing level) (ends_cons known rest)
    have closed : skipBlanks ((style.closing level).toList ++ close :: rest) = close :: rest := by
      rw [skipBlanks_append (spaced.closing level), skipBlanks_of_start printed]
    have read := bracketed_parts _ (skips _ (spaced.opening level)) comma (spaced.opening level)
      taken some_texts starts (ends_cons (by decide)) ends closed
    refine ⟨_, ?_, read⟩
    rw [Writer.brackets_of_ne_nil _ _ _ _ none]
    simp [spaced.between, last, String.toList_intercalate]

end Reader

namespace Writer

variable {style : Style}

private theorem values_eq_map (level : Nat) (items : List Json) :
    values style level items = items.map (value style level) := by
  induction items with
  | nil => rfl
  | cons item items ih => rw [values, ih, List.map_cons]

private theorem named_eq_map (level : Nat) (members : Json.Members) :
    named style level members = members.map fun member =>
      string member.1 ++ style.naming ++ value style level member.2 := by
  induction members with
  | nil => rfl
  | cons member members ih => rw [named, ih, List.map_cons]

end Writer

namespace Reader

private theorem starts_brackets {style : Writer.Style} {close : Char} (level : Nat)
    {opening : String}
    (starts : Starts close opening.toList) (closing : String) (parts : List String) :
    Starts close (Writer.brackets style level opening closing parts).toList := by
  obtain ⟨c, front, same, start⟩ := starts
  cases parts with
  | nil => exact ⟨c, front ++ closing.toList, by simp [Writer.brackets, same], start⟩
  | cons part parts =>
    rw [Writer.brackets_of_ne_nil _ _ _ _ (List.cons_ne_nil part parts), String.append_assoc,
      String.append_assoc, String.append_assoc, String.toList_append, same]
    exact ⟨c, _, rfl, start⟩

private theorem starts_ofInt (n : Int) : Starts ']' (Decimal.ofInt n).toList := by
  obtain ⟨c, others, text, start⟩ := exists_cons_text (Written.ofInt n)
  rw [Written.text_ofInt] at text
  have other {d : Char} (minus : d ≠ '-') (digit : d.isDigit = false) : c ≠ d :=
    ne_of_start start minus digit
  refine ⟨c, others, text, ?_, other (by decide) rfl⟩
  simp [isBlank, other (d := ' ') (by decide) rfl, other (d := '\t') (by decide) rfl,
    other (d := '\n') (by decide) rfl, other (d := '\r') (by decide) rfl]

private theorem starts_value {style : Writer.Style} {depth : Nat} {json : Json}
    (readable : json.Readable depth) (level : Nat) :
    Starts ']' (Writer.value style level json).toList := by
  cases json with
  | null => exact ⟨'n', ['u', 'l', 'l'], by simp [Writer.value], by decide⟩
  | bool b =>
    cases b with
    | true => exact ⟨'t', ['r', 'u', 'e'], by simp [Writer.value], by decide⟩
    | false => exact ⟨'f', ['a', 'l', 's', 'e'], by simp [Writer.value], by decide⟩
  | string s => exact starts_string s ']' (by decide)
  | number n =>
    cases n with
    | integer n => exact starts_ofInt n
    | double negative magnitude => cases depth <;> cases readable
  | array items => exact starts_brackets level ⟨'[', [], rfl, by decide⟩ _ _
  | object members => exact starts_brackets level ⟨'\x7b', [], rfl, by decide⟩ _ _

/-- What is written of a tree that holds no others is read as that tree. -/
theorem value_leaf {style : Writer.Style} (depth level : Nat) {json : Json}
    (readable : json.Readable depth) (noArray : ∀ items, json ≠ .array items)
    (noObject : ∀ members, json ≠ .object members) :
    Takes (value depth) Ends (Writer.value style level json).toList json := by
  cases json with
  | null =>
    intro rest _
    simp only [Writer.value]
    exact value_scalar (c := 'n') (by decide) (by decide) (by decide) depth
  | bool b =>
    intro rest _
    cases b with
    | true =>
      simp only [Writer.value, if_true]
      exact value_scalar (c := 't') (by decide) (by decide) (by decide) depth
    | false =>
      simp only [Writer.value, Bool.false_eq_true, if_false]
      exact value_scalar (c := 'f') (by decide) (by decide) (by decide) depth
  | string s => exact value_string_text s depth
  | number n =>
    cases n with
    | integer n =>
      have fits : -Width.w64.half ≤ n ∧ n < Width.w64.count := by
        cases depth <;> exact readable
      exact value_ofInt fits.1 fits.2 depth
    | double negative magnitude => cases depth <;> cases readable
  | array items => exact absurd rfl (noArray items)
  | object members => exact absurd rfl (noObject members)

section containers

variable {style : Writer.Style} (spaced : style.Blank) {depth level : Nat}

include spaced

private theorem value_array {items : List Json} (readable : ∀ item ∈ items, item.Readable depth)
    (inner : ∀ item ∈ items,
      Takes (value depth) Ends (Writer.value style (level + 1) item).toList item) :
    Takes (value (depth + 1)) Ends (Writer.value style level (.array items)).toList
      (.array items) := by
  have taken : List.Forall₂ (Takes (value depth) Ends)
      ((Writer.values style (level + 1) items).map String.toList) items := by
    rw [Writer.values_eq_map, List.map_map, List.forall₂_map_left_iff, List.forall₂_same]
    exact inner
  have starts : ∀ text ∈ (Writer.values style (level + 1) items).map String.toList,
      Starts ']' text := by
    rw [Writer.values_eq_map, List.map_map, List.forall_mem_map]
    exact fun item member => starts_value (readable item member) (level + 1)
  intro rest _
  obtain ⟨behind, text, read⟩ := bracketed_brackets spaced level
    (fun gap blank => value_gap blank depth) taken "[" "]" ']'
    rfl (by decide) starts rest
  rw [Writer.value, text]
  change (bracketed (value depth) ']' behind).map _ = _
  rw [read]
  rfl

private theorem value_object {members : Json.Members}
    (inner : ∀ member ∈ members,
      Takes (value depth) Ends (Writer.value style (level + 1) member.2).toList member.2) :
    Takes (value (depth + 1)) Ends (Writer.value style level (.object members)).toList
      (.object members) := by
  obtain ⟨gap, naming, blank⟩ := spaced.naming
  have text (member : String × Json) : (Writer.string member.1 ++ style.naming ++
      Writer.value style (level + 1) member.2).toList = (Writer.string member.1).toList ++
        ':' :: (gap ++ (Writer.value style (level + 1) member.2).toList) := by
    simp [naming]
  have taken : List.Forall₂ (Takes (member (value depth)) Ends)
      ((Writer.named style (level + 1) members).map String.toList) members := by
    rw [Writer.named_eq_map, List.map_map, List.forall₂_map_left_iff, List.forall₂_same]
    intro member inside
    rw [Function.comp_apply, text]
    exact member_written (value_gap blank depth) (inner member inside) member.1
  have starts : ∀ text ∈ (Writer.named style (level + 1) members).map String.toList,
      Starts '\x7d' text := by
    rw [Writer.named_eq_map, List.map_map, List.forall_mem_map]
    intro member _
    obtain ⟨c, rest, front, start⟩ := starts_string member.1 '\x7d' (by decide)
    rw [Function.comp_apply, text, front]
    exact ⟨c, _, rfl, start⟩
  intro rest _
  obtain ⟨behind, text, read⟩ := bracketed_brackets spaced level
    (fun gap blank => member_gap blank (value depth)) taken "\x7b" "\x7d" '\x7d'
    rfl (by decide) starts rest
  rw [Writer.value, text]
  change (bracketed (member (value depth)) '\x7d' behind).map _ = _
  rw [read]
  rfl

/-- What is written of a tree is read as that tree, whatever stands behind it. -/
theorem value_tree (level : Nat) {json : Json} (readable : json.Readable depth) :
    Takes (value depth) Ends (Writer.value style level json).toList json := by
  induction depth generalizing json level with
  | zero =>
    cases json with
    | array items => cases readable
    | object members => cases readable
    | _ => exact value_leaf 0 level readable nofun nofun
  | succ depth ih =>
    cases json with
    | array items =>
      exact value_array spaced readable fun item member => ih (level + 1) (readable item member)
    | object members =>
      exact value_object spaced fun member inside => ih (level + 1) (readable member inside)
    | _ => exact value_leaf (depth + 1) level readable nofun nofun

end containers

end Reader

/-- The text of a tree is read as the tree, with blanks behind it or without. -/
theorem ofText?_value {style : Writer.Style} (spaced : style.Blank) {json : Json}
    (readable : json.Readable maxDepth) {behind : List Char}
    (blank : ∀ c ∈ behind, Reader.isBlank c = true) :
    ofText? ((Writer.value style 0 json).toList ++ behind) = some json := by
  have ends : Reader.Ends behind := by
    rw [← List.append_nil behind]
    exact Reader.ends_blank blank (by simp [Reader.Ends])
  have read := Reader.value_tree spaced 0 readable behind ends
  have skipped : Reader.skipBlanks behind = [] := by
    rw [← List.append_nil behind, Reader.skipBlanks_append blank]
    rfl
  simp only [ofText?, read, Option.bind_eq_bind, Option.bind_some, skipped, if_true]

/-- Whichever way a tree is set, the bytes of its text are read as the tree. -/
theorem ofBytes?_value {style : Writer.Style} (spaced : style.Blank) {json : Json}
    (readable : json.Readable maxDepth) {behind : String}
    (blank : ∀ c ∈ behind.toList, Reader.isBlank c = true) :
    ofBytes? (Utf8.encode (Writer.value style 0 json ++ behind)) = some json := by
  rw [ofBytes?, Utf8.decode?_encode, Option.bind_eq_bind, Option.bind_some, String.toList_append]
  exact ofText?_value spaced readable blank

theorem ofBytes?_compact {json : Json} (readable : json.Readable maxDepth) :
    ofBytes? (Utf8.encode json.compact) = some json := by
  have read := ofBytes?_value Writer.blank_compact readable (show ∀ c ∈ "".toList, _ by simp)
  rwa [String.append_empty] at read

theorem ofBytes?_pretty {json : Json} (readable : json.Readable maxDepth) :
    ofBytes? (Utf8.encode json.pretty) = some json := by
  have read := ofBytes?_value Writer.blank_pretty readable (show ∀ c ∈ "".toList, _ by simp)
  rwa [String.append_empty] at read

end CadenceWire.Json
