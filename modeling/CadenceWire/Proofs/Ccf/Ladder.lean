import CadenceWire.Proofs.Ccf.Environment
import CadenceWire.Proofs.Ccf.Message
import CadenceWire.Proofs.Value.Nesting

/-!
Messages whose values are far deeper than their items. Every type that is defined has one field, of
the type before it, with as many optionals around that type as there is room for.
-/
namespace CadenceWire

theorem Value.nesting_iterate_present (count : Nat) (v : Value) :
    (Value.present^[count] v).nesting 1 = v.nesting 1 + count := by
  induction count with
  | zero => rfl
  | succ count ih =>
    rw [Function.iterate_succ_apply', Value.nesting, ih]
    rfl

namespace Ccf

open Cbor (Item)

/-- The item can be written, and its parts lie in it so deep at most. -/
def Fits (depth : Nat) (item : Item) : Prop :=
  item.Encodable ∧ item.height ≤ depth

section items

variable {depth : Nat}

theorem Fits.tag {number : Nat} {content : Item} (small : number < Width.w64.count)
    (fits : Fits depth content) : Fits (depth + 1) (.tag number content) :=
  ⟨⟨small, fits.1⟩, Nat.succ_le_succ fits.2⟩

theorem Fits.array {items : List Item} (fit : ∀ item ∈ items, Fits depth item) :
    Fits (depth + 1) (.array items) :=
  ⟨Cbor.Item.encodable_array.2 fun item member => (fit item member).1,
    Cbor.Item.height_array_le fun item member => Nat.lt_succ_of_le (fit item member).2⟩

theorem Fits.bytes (content : List UInt8) : Fits depth (.bytes content) :=
  ⟨trivial, Nat.zero_le _⟩

theorem Fits.text (s : String) : Fits depth (.text s) :=
  ⟨trivial, Nat.zero_le _⟩

theorem Fits.mono {more : Nat} {item : Item} (fits : Fits depth item) (le : depth ≤ more) :
    Fits more item :=
  ⟨fits.1, Nat.le_trans fits.2 le⟩

private theorem exists_optionals {table : TypeTable} {type : StaticType} {item : Item}
    (typed : InlineItem table type item) (fits : Fits depth item) (count : Nat) :
    ∃ item, InlineItem table (StaticType.optional^[count] type) item ∧
      Fits (depth + count) item := by
  induction count with
  | zero => exact ⟨item, typed, fits⟩
  | succ count ih =>
    obtain ⟨inner, typed, fits⟩ := ih
    rw [Function.iterate_succ_apply']
    exact ⟨_, typed.optional, fits.tag (by decide)⟩

theorem ValueItem.optionals {definitions : Definitions} {before after : Bound} {type : StaticType}
    {v : Value} {item : Item} (written : ValueItem true definitions before type v item after)
    (there : item ≠ .null) (count : Nat) :
    ValueItem true definitions before (StaticType.optional^[count] type)
      (Value.present^[count] v) item after := by
  induction count with
  | zero => exact written
  | succ count ih =>
    rw [Function.iterate_succ_apply', Function.iterate_succ_apply']
    exact .present (fun _ => there) ih

end items

def rungType (step : Nat) : NominalType :=
  ⟨.struct, String.ofList (List.replicate step 'a')⟩

/-- The type of the field that takes one step down. -/
def rungBelow (wraps step : Nat) : StaticType :=
  StaticType.optional^[wraps] (.nominal (rungType step))

def rungFields (wraps : Nat) : Nat → List (String × StaticType)
  | 0 => []
  | step + 1 => [("", rungBelow wraps step)]

def rung (wraps step : Nat) : Typedef :=
  ⟨List.replicate step 0, rungType step, rungFields wraps step⟩

/-- The types of a ladder with so many steps. -/
def ladder (wraps steps : Nat) : List Typedef :=
  (List.range (steps + 1)).map (rung wraps)

/-- The value that goes down all steps. -/
def descent (wraps : Nat) : Nat → Value
  | 0 => .composite (rungType 0) []
  | step + 1 =>
    .composite (rungType (step + 1))
      [(⟨"", some (rungBelow wraps step)⟩, Value.present^[wraps] (descent wraps step))]

theorem nesting_descent (wraps step : Nat) :
    (descent wraps step).nesting 1 = step * (wraps + 1) + 1 := by
  induction step with
  | zero => simp only [descent, Value.nesting, Value.nestingOfFields, Nat.zero_mul]
  | succ step ih =>
    simp only [descent, Value.nesting, Value.nestingOfFields, Value.nesting_iterate_present, ih,
      Nat.succ_mul]
    omega

private theorem ids_ladder (wraps steps : Nat) : ((ladder wraps steps).map (·.id)).Nodup := by
  rw [ladder, List.map_map]
  refine List.nodup_range.map fun step step' same => ?_
  exact (List.replicate_inj.1 same).1

private theorem names_ladder (wraps steps : Nat) :
    ((ladder wraps steps).map (·.type.id)).Nodup := by
  rw [ladder, List.map_map]
  refine List.nodup_range.map fun step step' same => ?_
  exact (List.replicate_inj.1 (String.ofList_injective same)).1

section ladder

variable (wraps : Nat) {steps step : Nat}

private theorem rung_mem_ladder (within : step ≤ steps) : rung wraps step ∈ ladder wraps steps :=
  List.mem_map_of_mem (List.mem_range.2 (Nat.lt_succ_of_le within))

private theorem lookup_ladder (within : step ≤ steps) :
    (Typedef.table (ladder wraps steps)).lookup (List.replicate step 0) = some (rungType step) :=
  Typedef.lookup_of_mem (ids_ladder wraps steps) (rung_mem_ladder wraps within)

private theorem laysOut_ladder (within : step ≤ steps) :
    (Typedef.definitions (ladder wraps steps)).LaysOut (rungType step).id
      ⟨rungType step, rungFields wraps step⟩ :=
  Typedef.laysOut_of_mem (names_ladder wraps steps) (rung_mem_ladder wraps within) rfl

private theorem exists_rungBelow (within : step ≤ steps) (count : Nat) :
    ∃ item, InlineItem (Typedef.table (ladder wraps steps)) (rungBelow count step) item ∧
      Fits (count + 1) item := by
  have fits : Fits 1 (.tag 136 (.bytes (List.replicate step 0))) := (Fits.bytes _).tag (by decide)
  rw [Nat.add_comm]
  exact exists_optionals (.known (lookup_ladder wraps within)) fits count

private theorem exists_rung (within : step ≤ steps) :
    ∃ item, TypedefItem (Typedef.table (ladder wraps steps)) (rung wraps step) item ∧
      Fits (wraps + 5) item := by
  obtain ⟨items, laid, fit⟩ : ∃ items,
      List.Forall₂ (FieldItem (Typedef.table (ladder wraps steps))) (rungFields wraps step)
        items ∧ ∀ item ∈ items, Fits (wraps + 2) item := by
    refine exists_forall₂ fun field member => ?_
    cases step with
    | zero => cases member
    | succ step =>
      obtain rfl := List.mem_singleton.1 member
      obtain ⟨item, typed, fits⟩ := exists_rungBelow wraps (Nat.le_of_succ_le within) wraps
      have parts : ∀ part ∈ [.text "", item], Fits (wraps + 1) part := by simp [Fits.text, fits]
      exact ⟨_, .field "" typed, .array parts⟩
  have parts : ∀ part ∈ [.bytes (List.replicate step 0), .text (rungType step).id, .array items],
      Fits (wraps + 3) part := by
    simp [Fits.bytes, Fits.text, Fits.array fit]
  exact ⟨_, .composite rfl _ _ laid, (Fits.array parts).tag (by decide)⟩

private theorem exists_descent (within : step ≤ steps) :
    ∃ items, ValueItem true (Typedef.definitions (ladder wraps steps)) []
      (.nominal (rungType step)) (descent wraps step) (.array items) [] ∧
      Fits step (.array items) := by
  have laid := laysOut_ladder wraps within
  induction step with
  | zero => exact ⟨[], .composite rfl laid .nil, trivial, Nat.le_refl _⟩
  | succ step ih =>
    have lower := Nat.le_of_succ_le within
    obtain ⟨items, written, fits⟩ := ih lower (laysOut_ladder wraps lower)
    have inner := written.optionals nofun wraps
    exact ⟨_, .composite rfl laid (.cons "" inner .nil), .array (by simpa using fits)⟩

end ladder

/-- A ladder has a message as long as its items nest no deeper than can be read, with optionals
around the whole value besides. -/
theorem exists_decode_descent {top wraps steps : Nat} (wide : wraps + 8 ≤ Cbor.maxDepth)
    (high : steps + 3 ≤ Cbor.maxDepth) (above : top + 4 ≤ Cbor.maxDepth) :
    ∃ payload, decode payload = .ok (Value.present^[top] (descent wraps steps)) := by
  obtain ⟨typedefs, defined, fit⟩ : ∃ items,
      List.Forall₂ (TypedefItem (Typedef.table (ladder wraps steps))) (ladder wraps steps) items ∧
        ∀ item ∈ items, Fits (wraps + 5) item := by
    refine exists_forall₂ fun t member => ?_
    obtain ⟨step, listed, rfl⟩ := List.mem_map.1 member
    exact exists_rung wraps (Nat.le_of_lt_succ (List.mem_range.1 listed))
  obtain ⟨second, typed, fits⟩ := exists_rungBelow wraps (Nat.le_refl steps) top
  obtain ⟨items, written, fits'⟩ := exists_descent wraps (Nat.le_refl steps)
  have message : MessageItem true (ladder wraps steps) _ _ _ :=
    .message (.typedefs (ids_ladder wraps steps) defined) typed (written.optionals nofun top)
  have first : Fits (Cbor.maxDepth - 2) (.array typedefs) :=
    (Fits.array fit).mono (by omega)
  have body : ∀ part ∈ [second, .array items], Fits (Cbor.maxDepth - 3) part := by
    simp [fits.mono (show top + 1 ≤ Cbor.maxDepth - 3 by omega),
      fits'.mono (show steps ≤ Cbor.maxDepth - 3 by omega)]
  have parts : ∀ part ∈ [.array typedefs, .array [second, .array items]],
      Fits (Cbor.maxDepth - 2) part := by
    simpa using ⟨first, Fits.array body⟩
  obtain ⟨encodable, shallow⟩ := (Fits.array parts).tag (show 129 < Width.w64.count by decide)
  obtain ⟨payload, encoded⟩ := Cbor.exists_encodes _ encodable
  exact ⟨payload, decode_of_messageItem message shallow encoded⟩

end Ccf

end CadenceWire
