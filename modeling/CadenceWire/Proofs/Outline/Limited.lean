import CadenceWire.Proofs.Outline.Layout
import CadenceWire.Proofs.Text.Literal
import Mathlib.Logic.Relation

/-!
What a limit on the number of children leaves of an outline. Containers are cut and tell by how
much; apart from the lines that tell it, a smaller limit only takes lines away.
-/
namespace CadenceWire.Outline

open Relation (ReflTransGen)

/-- What children are called where some are left out. -/
def whats : List String := ["", " pairs", " fields"]

/-- Whether a line only tells how many children of a container are left out. -/
def isRemainder (line : String) : Bool :=
  let text := line.toList.dropWhile (· = ' ')
  let behind := text.drop 4
  text.take 4 = "... ".toList && behind.takeWhile Char.isDigit ≠ [] &&
    whats.any fun what => behind.dropWhile Char.isDigit = (" more" ++ what).toList

/-- Whatever spaces there are in front, the number is told in digits. -/
theorem isRemainder_iff {line : String} : isRemainder line = true ↔
    ∃ spaces digits what, (∀ c ∈ spaces, c = ' ') ∧ (∀ c ∈ digits, c.isDigit = true) ∧
      digits ≠ [] ∧ what ∈ whats ∧
      line.toList = spaces ++ ("... ".toList ++ (digits ++ (" more" ++ what).toList)) := by
  constructor
  · intro told
    simp only [isRemainder, Bool.and_eq_true, decide_eq_true_eq, List.any_eq_true] at told
    obtain ⟨⟨dots, some_digits⟩, what, listed, behind⟩ := told
    refine ⟨line.toList.takeWhile (· = ' '), _, what, fun c member => ?_,
      List.all_eq_true.1 List.all_takeWhile, some_digits, listed, ?_⟩
    · exact of_decide_eq_true (List.all_eq_true.1 List.all_takeWhile c member)
    · rw [← behind, List.takeWhile_append_dropWhile, ← dots, List.take_append_drop,
        List.takeWhile_append_dropWhile]
  · rintro ⟨spaces, digits, what, blank, digit, some_digits, listed, text⟩
    have start : line.toList.dropWhile (· = ' ') =
        "... ".toList ++ (digits ++ (" more" ++ what).toList) := by
      rw [text, List.dropWhile_append_of_pos fun c member => decide_eq_true (blank c member)]
      exact List.dropWhile_cons_of_neg (by decide)
    have number : (digits ++ (" more" ++ what).toList).takeWhile Char.isDigit = digits := by
      rw [List.takeWhile_append_of_pos digit]
      simp
    have behind : (digits ++ (" more" ++ what).toList).dropWhile Char.isDigit =
        (" more" ++ what).toList := by
      rw [List.dropWhile_append_of_pos digit]
      simp
    have dots : ("... ".toList ++ (digits ++ (" more" ++ what).toList)).drop 4 =
        digits ++ (" more" ++ what).toList := rfl
    rw [isRemainder, start, dots, number, behind]
    simp only [Bool.and_eq_true, decide_eq_true_eq, List.any_eq_true]
    exact ⟨⟨rfl, some_digits⟩, what, listed, rfl⟩

private theorem isRemainder_indented (indent : Nat) (line : String) :
    isRemainder (indented indent line) = isRemainder line := by
  have spaces : ∀ c ∈ List.replicate indent ' ', decide (c = ' ') = true :=
    fun c member => decide_eq_true (List.eq_of_mem_replicate member)
  unfold isRemainder indented
  rw [String.toList_append, String.toList_ofList, List.dropWhile_append_of_pos spaces]

private theorem isRemainder_count (count : Nat) {what : String} (named : what ∈ whats) :
    isRemainder ("... " ++ Decimal.ofNat count ++ " more" ++ what) = true :=
  isRemainder_iff.2 ⟨[], Nat.toDigits 10 count, what, by simp, Decimal.isDigit_toDigits count,
    Nat.toDigits_ne_nil, named, by simp [Decimal.ofNat]⟩

/-- A line with an equals sign is a line of its own. -/
theorem isRemainder_of_mem {line : String} (equals : '=' ∈ line.toList) :
    isRemainder line = false := by
  have plain : ∀ what ∈ whats, '=' ∉ (" more" ++ what).toList := by decide
  refine Bool.eq_false_iff.2 fun told => ?_
  obtain ⟨spaces, digits, what, blank, digit, -, named, text⟩ := isRemainder_iff.1 told
  rw [text, List.mem_append, List.mem_append, List.mem_append] at equals
  rcases equals with space | dots | number | behind
  · exact absurd (blank _ space) (by decide)
  · exact absurd dots (by decide)
  · exact absurd (digit _ number) (by decide)
  · exact plain what named behind

/-- A text that begins with neither a space nor a point. -/
def startsPlain (text : String) : Bool := text.toList.head?.any fun c => c ≠ ' ' && c ≠ '.'

private theorem startsPlain_append {s : String} (plain : startsPlain s = true) (t : String) :
    startsPlain (s ++ t) = true := by
  unfold startsPlain at plain ⊢
  rw [String.toList_append]
  cases text : s.toList with
  | nil => simp [text] at plain
  | cons c rest => simpa [text] using plain

private theorem isRemainder_of_startsPlain {line : String} (plain : startsPlain line = true) :
    isRemainder line = false := by
  refine Bool.eq_false_iff.2 fun told => ?_
  obtain ⟨spaces, digits, what, blank, -, -, -, text⟩ := isRemainder_iff.1 told
  rw [startsPlain, text] at plain
  cases spaces with
  | nil => simp at plain
  | cons c rest => simp [blank c List.mem_cons_self] at plain

variable {limits less more : OutlineLimits} {indent depth : Nat} {v : Value} {c : Container}

private theorem startsPlain_kind (kind : ValueKind) : startsPlain kind.name = true := by
  have all : ∀ kind ∈ ValueKind.all, startsPlain kind.name = true := by decide
  exact all kind (ValueKind.mem_all kind)

private theorem startsPlain_leafText (textLength : Nat) (v : Value) :
    startsPlain (leafText textLength v) = true := by
  unfold leafText
  split
  · exact startsPlain_append (by decide) _
  · exact startsPlain_append (by decide) _
  · exact startsPlain_append (startsPlain_append (startsPlain_kind _) _) _

/-- Nothing that a container shows tells what is left out, apart from the line for it. -/
structure Container.Quiet (c : Container) : Prop where
  summary : isRemainder c.summary = false
  title : isRemainder c.title = false
  own : ∀ child ∈ c.children, ∀ text, .line text ∈ child → isRemainder text = false
  closing : ∀ line ∈ c.closing, isRemainder line = false
  named : c.what ∈ whats

private theorem container_quiet {textLength : Nat} (found : container? textLength v = some c) :
    c.Quiet := by
  have begins {s : String} (plain : startsPlain s = true) (t : String) :
      isRemainder (s ++ t) = false := isRemainder_of_startsPlain (startsPlain_append plain t)
  cases v with
  | array elements =>
    cases found
    refine ⟨?_, ?_, by simp, by simp, show "" ∈ whats by decide⟩
    · exact begins (startsPlain_append (by decide) _) _
    · exact begins (startsPlain_append (by decide) _) _
  | dictionary entries =>
    cases found
    refine ⟨?_, ?_, ?_, by simp, show " pairs" ∈ whats by decide⟩
    · exact begins (startsPlain_append (by decide) _) _
    · exact begins (startsPlain_append (by decide) _) _
    · intro child listed text member
      obtain ⟨entry, -, rfl⟩ := List.mem_map.1 listed
      obtain rfl | rfl : text = "key:" ∨ text = "value:" := by simpa [entryPieces] using member
      · decide
      · decide
  | composite declared fields =>
    cases found
    have title : startsPlain (declared.kind.name ++ " " ++ declared.id ++ " \x7b") = true :=
      startsPlain_append (startsPlain_append (startsPlain_append
        (startsPlain_kind (.composite declared.kind)) _) _) _
    refine ⟨begins title _, isRemainder_of_startsPlain title, ?_,
      show ∀ line ∈ ["\x7d"], isRemainder line = false by decide,
      show " fields" ∈ whats by decide⟩
    intro child listed text member
    obtain ⟨field, -, rfl⟩ := List.mem_map.1 listed
    unfold fieldPieces at member
    -- A field may have any name, but an equals sign stands behind it.
    split at member
    next =>
      obtain rfl : text = field.1.name ++ " =" := by simpa using member
      exact isRemainder_of_mem (by simp)
    next =>
      obtain rfl : text = field.1.name ++ " = " ++ leafText textLength field.2 := by
        simpa using member
      exact isRemainder_of_mem (by simp)
  | _ => cases found

private theorem filter_remainder (indent count : Nat) {what : String} (named : what ∈ whats) :
    (remainder limits indent count what).filter (!isRemainder ·) = [] := by
  unfold remainder
  split
  next => simp [isRemainder_indented, isRemainder_count _ named]
  next => rfl

theorem Container.Quiet.lines_sublist (quiet : c.Quiet) (fewer : less.items ≤ more.items)
    (each : ∀ child ∈ c.children, ∀ piece ∈ child,
      ((Piece.lines less indent depth piece).filter (!isRemainder ·)).Sublist
        (Piece.lines more indent depth piece)) :
    ((c.lines less indent depth).filter (!isRemainder ·)).Sublist (c.lines more indent depth) := by
  have child (child : List Piece) (listed : child ∈ c.children) :
      ((childLines less indent depth child).filter (!isRemainder ·)).Sublist
        (childLines more indent depth child) := by
    rw [childLines, childLines, List.filter_flatMap]
    exact List.Sublist.flatMap_right _ (each child listed)
  have children : (((c.children.take less.items).flatMap
        (childLines less indent depth)).filter (!isRemainder ·)).Sublist
      ((c.children.take more.items).flatMap (childLines more indent depth)) := by
    rw [List.filter_flatMap]
    exact (List.Sublist.flatMap_right _ fun other among =>
      child other (List.mem_of_mem_take among)).trans
        ((List.take_sublist_take_left fewer).flatMap _)
  have title : isRemainder (indented indent c.title) = false :=
    (isRemainder_indented _ _).trans quiet.title
  rw [lines, lines, List.filter_append, List.filter_append,
    List.filter_cons_of_pos (by simp [title]), filter_remainder _ _ quiet.named, List.append_nil]
  exact ((children.cons_cons _).trans (List.sublist_append_left _ _)).append List.filter_sublist

private theorem outline_sublist (text : less.textLength = more.textLength)
    (deep : less.depth = more.depth) (fewer : less.items ≤ more.items) (v : Value) :
    ((v.outline less indent depth).filter (!isRemainder ·)).Sublist
      (v.outline more indent depth) := by
  induction v using layers_induction less.textLength generalizing indent depth with
  | leaf v closed =>
    rw [outline_leaf closed, outline_leaf closed, text]
    exact List.filter_sublist
  | present content ih =>
    have own : isRemainder (indented indent "Optional") = false :=
      (isRemainder_indented _ _).trans (by decide)
    rw [Value.outline, Value.outline, List.filter_cons_of_pos (by simp [own])]
    exact ih.cons_cons _
  | container v c found ih =>
    rw [outline_container found, outline_container (text ▸ found), ← deep]
    split
    next => exact List.filter_sublist
    next =>
      refine (container_quiet found).lines_sublist fewer fun child listed piece member => ?_
      cases piece with
      | line text => exact List.filter_sublist
      | value further w => exact ih child listed further w member

/-- The line with which a container that is opened at a place tells how many children are left
out. -/
def Container.remainderLine (c : Container) (limits : OutlineLimits) (indent : Nat) : String :=
  indented (indent + 2)
    ("... " ++ Decimal.ofNat (c.children.length - limits.items) ++ " more" ++ c.what)

/-- The container is opened at a place that the outline of the root comes to. -/
def Opens (limits : OutlineLimits) (root n : Node) (c : Container) : Prop :=
  ReflTransGen (Shows limits) root n ∧ container? limits.textLength n.value = some c ∧
    n.depth < limits.depth

private theorem lines_infix_of_shows {root n : Node}
    (reached : ReflTransGen (Shows limits) root n) : n.lines limits <:+: root.lines limits := by
  induction reached with
  | refl => exact List.infix_rfl
  | tail _ shows ih => exact shows.lines_infix.trans ih

/-- What opens below a value that is shown opens below what shows it. -/
theorem Opens.below {n m k : Node} (shows : Shows limits n m) (opens : Opens limits m k c) :
    Opens limits n k c :=
  ⟨.head shows opens.1, opens.2⟩

private theorem exists_opens {line : String} (told : isRemainder line = true)
    (member : line ∈ v.outline limits indent depth) :
    ∃ n c, Opens limits ⟨v, indent, depth⟩ n c ∧ limits.items < c.children.length ∧
      line = c.remainderLine limits n.indent := by
  have quiet {further : Nat} {text : String} (own : isRemainder text = false) :
      line ≠ indented further text := by
    rintro rfl
    rw [isRemainder_indented, own] at told
    cases told
  induction v using layers_induction limits.textLength generalizing indent depth with
  | leaf v closed =>
    rw [outline_leaf closed, List.mem_singleton] at member
    exact absurd member (quiet (isRemainder_of_startsPlain (startsPlain_leafText _ _)))
  | present content ih =>
    rw [Value.outline, List.mem_cons] at member
    obtain ⟨n, c, opens, long, same⟩ := ih (member.resolve_left (quiet (by decide)))
    exact ⟨n, c, opens.below .content, long, same⟩
  | container v c found ih =>
    have own := container_quiet found
    by_cases opened : depth < limits.depth
    · rw [outline_opened found opened, Container.lines, List.mem_append, List.mem_append,
        List.mem_cons] at member
      rcases member with ((title | children) | remainder) | closing
      · exact absurd title (quiet own.title)
      · obtain ⟨child, among, member⟩ := List.mem_flatMap.1 children
        obtain ⟨piece, listed, member⟩ := List.mem_flatMap.1 member
        have child_listed := List.mem_of_mem_take among
        cases piece with
        | line text =>
          exact absurd (List.mem_singleton.1 member) (quiet (own.own child child_listed text listed))
        | value further w =>
          obtain ⟨n, c, opens, long, same⟩ := ih child child_listed further w listed member
          exact ⟨n, c, opens.below (.child found opened among listed), long, same⟩
      · unfold Outline.remainder at remainder
        split at remainder
        next long =>
          exact ⟨⟨v, indent, depth⟩, c, ⟨.refl, found, opened⟩, long, List.mem_singleton.1 remainder⟩
        next => cases remainder
      · obtain ⟨text, listed, same⟩ := List.mem_map.1 closing
        exact absurd same.symm (quiet (own.closing text listed))
    · rw [outline_container found, if_pos (Nat.not_lt.1 opened), List.mem_singleton] at member
      exact absurd member (quiet own.summary)

/-- A limit on the number of children only cuts. A smaller limit takes lines away and adds none but
those that tell what is left out, and each of these is of a container that is opened and has more
children. Every container that is opened shows as many children as the limit says, from the first
on, and tells behind them how many are left if there are any. -/
theorem outline_limited (text : less.textLength = more.textLength) (deep : less.depth = more.depth)
    (fewer : less.items ≤ more.items) (v : Value) (indent depth : Nat) :
    ((v.outline less indent depth).filter (!isRemainder ·)).Sublist
      (v.outline more indent depth) ∧
    (∀ line ∈ v.outline less indent depth, isRemainder line = true ↔
      ∃ n c, Opens less ⟨v, indent, depth⟩ n c ∧ less.items < c.children.length ∧
        line = c.remainderLine less n.indent) ∧
    ∀ n c, Opens less ⟨v, indent, depth⟩ n c →
      n.lines less <:+: v.outline less indent depth ∧
      n.lines less =
        indented n.indent c.title ::
          (c.children.take less.items).flatMap (childLines less n.indent n.depth)
          ++ (if less.items < c.children.length then [c.remainderLine less n.indent] else [])
          ++ c.closing.map (indented n.indent) := by
  refine ⟨outline_sublist text deep fewer v, fun line member => ⟨?_, ?_⟩, ?_⟩
  · exact fun told => exists_opens told member
  · rintro ⟨n, c, opens, -, rfl⟩
    rw [Container.remainderLine, isRemainder_indented]
    exact isRemainder_count _ (container_quiet opens.2.1).named
  · rintro n c ⟨reached, found, opened⟩
    exact ⟨lines_infix_of_shows reached, outline_opened found opened⟩

/-- A dictionary in an array, both of two and cut to one. -/
theorem outline_limited_nested :
    let less : OutlineLimits := ⟨1, 200, 8⟩
    let more : OutlineLimits := ⟨2, 200, 8⟩
    let inner : Value := .dictionary [(.bool true, .void), (.bool false, .nil)]
    let v : Value := .array [inner, .void]
    let kept := ["Array[2]", "  Dictionary\x7b2\x7d", "    key:", "      Bool: true", "    value:",
      "      Void: ()"]
    less.textLength = more.textLength ∧ less.depth = more.depth ∧ less.items ≤ more.items ∧
      v.outline less 0 0 = kept ++ ["    ... 1 more pairs", "  ... 1 more"] ∧
      kept.Sublist (v.outline more 0 0) ∧
      ∃ c, Opens less ⟨v, 0, 0⟩ ⟨inner, 2, 1⟩ c ∧ c.children.length = 2 ∧
        c.remainderLine less 2 = "    ... 1 more pairs" ∧
        inner.outline less 2 1 <:+: v.outline less 0 0 := by
  intro less more inner v kept
  obtain ⟨cut, -, opened⟩ := @outline_limited less more rfl rfl (by decide) v 0 0
  have left : (v.outline less 0 0).filter (!isRemainder ·) = kept := by decide
  have shows : Shows less ⟨v, 0, 0⟩ ⟨inner, 2, 1⟩ :=
    @Shows.child less v 0 0 _ rfl (by decide) [.value 2 inner] List.mem_cons_self 2 inner
      List.mem_cons_self
  have opens : Opens less ⟨v, 0, 0⟩ ⟨inner, 2, 1⟩ _ := ⟨.single shows, rfl, by decide⟩
  exact ⟨rfl, rfl, by decide, by decide, left ▸ cut, _, opens, rfl, by decide,
    (opened _ _ opens).1⟩

end CadenceWire.Outline
