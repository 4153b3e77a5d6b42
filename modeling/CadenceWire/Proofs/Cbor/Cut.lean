import CadenceWire.Proofs.Cbor.Sound

/-!
Input that is cut short. What a reader takes off the whole of an input it also takes off the front
of it, unless it comes to the end there.
-/
namespace CadenceWire.Cbor

namespace Reader

variable {α β : Type} {behind : List UInt8}

/-- What becomes of a reading where the bytes behind are missing: it comes to the end, or takes the
same and leaves so much less. -/
def Cut (behind : List UInt8) (whole cut : Except Fault (α × List UInt8)) : Prop :=
  ∀ result rest, whole = .ok (result, rest) →
    cut = .error .endOfInput ∨ ∃ left, cut = .ok (result, left) ∧ rest = left ++ behind

namespace Cut

private theorem pure (result : α) (left : List UInt8) :
    Cut behind (.ok (result, left ++ behind)) (.ok (result, left)) := by
  intro found rest accepted
  obtain ⟨rfl, rfl⟩ := Prod.mk.inj (Except.ok.inj accepted)
  exact .inr ⟨left, rfl, rfl⟩

private theorem ended (whole : Except Fault (α × List UInt8)) :
    Cut behind whole (.error .endOfInput) := fun _ _ _ => .inl rfl

private theorem error (fault : Fault) (cut : Except Fault (α × List UInt8)) :
    Cut behind (.error fault) cut := by
  intro result rest accepted
  cases accepted

private theorem bind {first first' : Except Fault (α × List UInt8)}
    {next next' : α × List UInt8 → Except Fault (β × List UInt8)} (head : Cut behind first first')
    (tail : ∀ result left, Cut behind (next (result, left ++ behind)) (next' (result, left))) :
    Cut behind (first >>= next) (first' >>= next') := by
  intro result rest accepted
  obtain ⟨⟨value, middle⟩, found, inner⟩ := bind_eq_ok.1 accepted
  rcases head value middle found with short | ⟨left, found', rfl⟩
  · left
    rw [short]
    rfl
  · rw [found']
    exact tail value left result rest inner

private theorem map {first first' : Except Fault (α × List UInt8)} (head : Cut behind first first')
    (f : α → β) :
    Cut behind (first.map fun (result, rest) => (f result, rest))
      (first'.map fun (result, rest) => (f result, rest)) := by
  intro result rest accepted
  obtain ⟨⟨value, middle⟩, found, same⟩ := map_eq_ok.1 accepted
  obtain ⟨rfl, rfl⟩ := Prod.mk.inj same
  rcases head value middle found with short | ⟨left, found', rfl⟩
  · left
    rw [short]
    rfl
  · right
    rw [found']
    exact ⟨left, rfl, rfl⟩

end Cut

private theorem take_cut (count : Nat) (front behind : List UInt8) :
    Cut behind (take count (front ++ behind)) (take count front) := by
  intro content rest taken
  obtain ⟨rfl, same⟩ := take_eq_ok taken
  by_cases enough : content.length ≤ front.length
  · right
    obtain ⟨left, rfl⟩ : content <+: front :=
      List.prefix_of_prefix_length_le ⟨rest, same.symm⟩ (List.prefix_append front behind) enough
    rw [List.append_assoc] at same
    exact ⟨left, take_append content left, (List.append_cancel_left same).symm⟩
  · left
    rw [take, if_neg enough]

private theorem argument_cut (information : Nat) (front behind : List UInt8) :
    Cut behind (Head.argument information (front ++ behind)) (Head.argument information front) := by
  have following (count : Nat) : Cut behind
      (take count (front ++ behind) >>= fun taken => .ok (Argument.following taken.1, taken.2))
      (take count front >>= fun taken => .ok (.following taken.1, taken.2)) :=
    (take_cut count front behind).bind fun _ _ => .pure _ _
  unfold Head.argument
  dsimp only
  split
  next => exact following 1
  next => exact following 2
  next => exact following 4
  next => exact following 8
  next => exact .error _ _
  next => exact .error _ _
  next => exact .error _ _
  next => exact .pure _ _
  next => exact .pure _ _

private theorem head_cut (front behind : List UInt8) :
    Cut behind (Head.read (front ++ behind)) (Head.read front) := by
  cases front with
  | nil => exact .ended _
  | cons first front =>
    refine (argument_cut (first.toNat % 32) front behind).bind fun argument left => ?_
    dsimp only
    cases Head.assemble? (first.toNat / 32) argument with
    | none => exact .error _ _
    | some head => exact .pure head left

section strings

variable {form : StringForm α}

/-- Text may be cut off within a character, within a window or between two of them. -/
theorem windows_cut (size place place' left : Nat) (carried front behind : List UInt8) :
    Cut behind (windows size place carried left (front ++ behind))
      (windows size place' carried left front) := by
  induction left using Nat.strongRecOn generalizing carried front with
  | ind left ih =>
    rw [windows, windows]
    split
    next more =>
      refine (take_cut _ front behind).bind fun next front => ?_
      dsimp only
      cases waiting? (carried ++ next) with
      | none => exact .error _ _
      | some count =>
        dsimp only
        cases Utf8.decode? ((carried ++ next).take ((carried ++ next).length - count)) with
        | none => exact .error _ _
        | some first => exact (ih _ (by omega) _ _).bind fun others left => .pure _ _
    next =>
      split
      next => exact .pure _ _
      next => exact .error _ _

/-- Where a fault would be placed makes no difference to content that is cut short. -/
def StringForm.Ends (form : StringForm α) : Prop :=
  ∀ place place' length front behind,
    Cut behind (form.content place length (front ++ behind)) (form.content place' length front)

private theorem byteString_ends : byteString.Ends := fun _ _ length => take_cut length

private theorem textString_ends : textString.Ends := by
  intro place place' length front behind
  rw [← windows_eq, ← windows_eq]
  exact windows_cut window place place' length [] front behind

/-- With fewer segments at its disposal the reader comes to the end all the same. -/
theorem segments_cut (ends : form.Ends) (bound bound' nested : Nat) (front behind : List UInt8) :
    Cut behind (segments form bound nested (front ++ behind))
      (segments form bound' nested front) := by
  induction bound' generalizing bound nested front with
  | zero => exact .ended _
  | succ bound' ih =>
    cases bound with
    | zero => exact .error _ _
    | succ bound =>
      refine (head_cut front behind).bind fun head left => ?_
      dsimp only
      split
      next => exact .pure _ _
      next => exact ih bound _ left
      next =>
        cases form.length? head with
        | none => exact .error _ _
        | some length =>
          cases length with
          | none => exact ih bound _ left
          | some length =>
            refine (ends _ _ length left behind).bind fun first left => ?_
            exact (ih bound nested left).bind fun others left => .pure _ _

private theorem string_cut (ends : form.Ends) (length : Option Nat) (front behind : List UInt8) :
    Cut behind (string form length (front ++ behind)) (string form length front) := by
  cases length with
  | some length => exact ends _ _ length front behind
  | none => exact (segments_cut ends _ _ 0 front behind).bind fun parts left => .pure _ _

end strings

section sequences

variable {read : Reader α}
  (ends : ∀ front behind, Cut behind (read (front ++ behind)) (read front))
include ends

private theorem times_cut (count : Nat) (front behind : List UInt8) :
    Cut behind (times read count (front ++ behind)) (times read count front) := by
  induction count generalizing front with
  | zero => exact .pure _ _
  | succ count ih =>
    refine (ends front behind).bind fun first left => ?_
    exact (ih left).bind fun others left => .pure _ _

private theorem untilStop_cut (bound bound' : Nat) (front behind : List UInt8) :
    Cut behind (untilStop read bound (front ++ behind)) (untilStop read bound' front) := by
  induction bound' generalizing bound front with
  | zero => exact .ended _
  | succ bound' ih =>
    cases bound with
    | zero => exact .error _ _
    | succ bound =>
      -- The head is only looked at, and what it belongs to is read from the same front.
      refine (head_cut front behind).bind fun head left => ?_
      cases head with
      | stop => exact .pure _ _
      | _ =>
        refine (ends front behind).bind fun first left => ?_
        exact (ih bound left).bind fun others left => .pure _ _

private theorem sequence_cut (length : Option Nat) (front behind : List UInt8) :
    Cut behind (sequence read length (front ++ behind)) (sequence read length front) := by
  cases length with
  | some count => exact times_cut ends count front behind
  | none => exact untilStop_cut ends _ _ front behind

private theorem pair_cut (front behind : List UInt8) :
    Cut behind (pair read (front ++ behind)) (pair read front) := by
  refine (ends front behind).bind fun key left => ?_
  exact (ends left behind).bind fun value left => .pure _ _

end sequences

private theorem item_cut (levels : Nat) (front behind : List UInt8) :
    Cut behind (item levels (front ++ behind)) (item levels front) := by
  induction levels generalizing front behind with
  | zero => exact .error _ _
  | succ levels ih =>
    refine (head_cut front behind).bind fun head left => ?_
    dsimp only
    split
    next n => exact .pure _ _
    next n => exact .pure _ _
    next length => exact (string_cut byteString_ends length left behind).map _
    next length => exact (string_cut textString_ends length left behind).map _
    next length => exact (sequence_cut ih length left behind).map _
    next length => exact (sequence_cut (pair_cut ih) length left behind).map _
    next number => exact (ih left behind).map _
    next => exact .pure _ _
    next => exact .pure _ _
    next => exact .pure _ _
    next number => exact .error _ _
    next encoding => exact .pure _ _
    next => exact .error _ _

end Reader

/-- What is cut short is not taken for something shorter: where an item is all there is of an input,
reading any less of it comes to the end. -/
theorem read_front {front behind : List UInt8} {item : Item}
    (whole : read (front ++ behind) = .ok (item, [])) (cut : behind ≠ []) :
    read front = .error .endOfInput := by
  rcases Reader.item_cut (maxDepth + 1) front behind item [] (mapError_eq_ok.1 whole) with
    short | ⟨left, -, nothing⟩
  · rw [read, short]
    rfl
  · exact absurd (List.append_eq_nil_iff.1 nothing.symm).2 cut

/-- What lies behind an item that is all there is of an input is not looked at. -/
theorem read_append {input : List UInt8} {item : Item} (whole : read input = .ok (item, []))
    (more : List UInt8) : read (input ++ more) = .ok (item, more) := by
  obtain ⟨bytes, encoded, shallow, rfl⟩ := read_eq_ok.1 whole
  rw [List.append_nil]
  exact read_of_encodes encoded shallow more

end CadenceWire.Cbor
