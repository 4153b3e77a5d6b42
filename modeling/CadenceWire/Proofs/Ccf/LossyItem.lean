import CadenceWire.Proofs.Ccf.WrittenValue
import CadenceWire.Proofs.Value.Loss

/-!
Items of values with optionals that cannot be told from ones that are not there. Such an item is one
of another value, which differs in nothing but the nesting of these optionals.
-/
namespace CadenceWire.Ccf

open Cbor (Item)

/-- An optional that is there does not hold what is written as null, unless that is an optional as
well. Where this is so at every depth, no wrapping of optionals hides such a value either. -/
def Showing : Value → Prop
  | .present .void | .present (.type none) => False
  | _ => True

theorem Showing.erase_eq_nil {loss : Loss} {content w : Value}
    (showing : Showing (.present content)) (null : WrittenNull w)
    (same : w.erase loss = content.erase loss) : content.erase loss = .nil := by
  have kinds : content.kind = w.kind := by
    rw [← content.kind_erase, ← same, w.kind_erase]
  cases w with
  | nil => exact same.symm
  | void =>
    cases content <;> try cases kinds
    exact showing.elim
  | type known =>
    cases known with
    | some known => exact null.elim
    | none =>
      cases content <;> try cases kinds
      simp only [Value.erase] at same
      cases same
      exact showing.elim
  | _ => exact null.elim

variable {definitions : Definitions}

mutual

/-- The value that the item is read as. Its type decides how deep an optional that is not there
lies in it, so it is not given by the value alone. -/
theorem ValueItem.exists_lossless {before after : Bound} {type : StaticType} {v : Value}
    {item : Item} (written : ValueItem false definitions before type v item after)
    (showing : v.Every Showing) :
    ∃ w, ValueItem true definitions before type w item after ∧
      w.erase .ofItems = v.erase .ofItems := by
  match written with
  | .simple written => exact ⟨v, .simple written, rfl⟩
  | .nil content => exact ⟨.nil, .nil content, rfl⟩
  | @ValueItem.present _ _ _ _ content _ item _ inner =>
    obtain ⟨w, inner, same⟩ := inner.exists_lossless showing.2
    by_cases null : item = .null
    · -- The optional is read as not there, and what it holds is an optional too.
      subst null
      obtain ⟨missing, rfl⟩ := inner.writtenNull
      refine ⟨.nil, .nil content, ?_⟩
      simp only [Value.erase, showing.1.erase_eq_nil missing same]
      rfl
    · refine ⟨.present w, .present (fun _ => null) inner, ?_⟩
      simp only [Value.erase, same]
  | .reference granted inner =>
    obtain ⟨w, inner, same⟩ := inner.exists_lossless showing
    exact ⟨w, .reference granted inner, same⟩
  | .variableArray inner =>
    obtain ⟨elements, inner, same⟩ := inner.exists_lossless showing.2
    exact ⟨.array elements, .variableArray inner, by simp only [Value.erase, same]⟩
  | .constantArray length inner =>
    obtain ⟨elements, inner, same⟩ := inner.exists_lossless showing.2
    exact ⟨.array elements, .constantArray length inner, by simp only [Value.erase, same]⟩
  | .dictionary inner =>
    obtain ⟨pairs, inner, same⟩ := inner.exists_lossless showing.2
    exact ⟨.dictionary pairs, .dictionary inner, by simp only [Value.erase, same]⟩
  | .capability id holder => exact ⟨_, .capability id holder, rfl⟩
  | .capabilityOf borrowed id holder => exact ⟨_, .capabilityOf borrowed id holder, rfl⟩
  | .range first last difference =>
    obtain ⟨start, first, same⟩ := first.exists_lossless showing.2.1
    obtain ⟨stop, last, same'⟩ := last.exists_lossless showing.2.2.1
    obtain ⟨step, difference, same''⟩ := difference.exists_lossless showing.2.2.2
    exact ⟨_, .range first last difference, by simp only [Value.erase, same, same', same'']⟩
  | .embedded opens typed inner =>
    obtain ⟨w, inner, same⟩ := inner.exists_lossless showing
    exact ⟨w, .embedded opens typed inner, same⟩
  | .composite concrete laid inner =>
    obtain ⟨parts, inner, same⟩ := inner.exists_lossless showing.2
    exact ⟨_, .composite concrete laid inner, by simp only [Value.erase, same]⟩
  | .function declared written => exact ⟨_, .function declared written, rfl⟩

theorem ValueItems.exists_lossless {before after : Bound} {element : StaticType}
    {elements : List Value} {items : List Item}
    (written : ValueItems false definitions before element elements items after)
    (showing : Value.EveryOf Showing elements) :
    ∃ others, ValueItems true definitions before element others items after ∧
      Value.eraseElements .ofItems others = Value.eraseElements .ofItems elements := by
  match written with
  | .nil => exact ⟨[], .nil, rfl⟩
  | .cons head tail =>
    obtain ⟨w, head, same⟩ := head.exists_lossless showing.1
    obtain ⟨others, tail, same'⟩ := tail.exists_lossless showing.2
    exact ⟨w :: others, .cons head tail, by simp only [Value.eraseElements, same, same']⟩

theorem EntryItems.exists_lossless {before after : Bound} {keyType itemType : StaticType}
    {pairs : List (Value × Value)} {items : List Item}
    (written : EntryItems false definitions before keyType itemType pairs items after)
    (showing : Value.EveryEntry Showing pairs) :
    ∃ others, EntryItems true definitions before keyType itemType others items after ∧
      Value.eraseEntries .ofItems others = Value.eraseEntries .ofItems pairs := by
  match written with
  | .nil => exact ⟨[], .nil, rfl⟩
  | .cons name head tail =>
    obtain ⟨key, name, same⟩ := name.exists_lossless showing.1
    obtain ⟨w, head, same'⟩ := head.exists_lossless showing.2.1
    obtain ⟨others, tail, same''⟩ := tail.exists_lossless showing.2.2
    exact ⟨(key, w) :: others, .cons name head tail,
      by simp only [Value.eraseEntries, same, same', same'']⟩

theorem PartItems.exists_lossless {before after : Bound} {declared : List (String × StaticType)}
    {parts : List (Field × Value)} {items : List Item}
    (written : PartItems false definitions before declared parts items after)
    (showing : Value.EveryField Showing parts) :
    ∃ others, PartItems true definitions before declared others items after ∧
      Value.eraseFields .ofItems others = Value.eraseFields .ofItems parts := by
  match written with
  | .nil => exact ⟨[], .nil, rfl⟩
  | .cons name head tail =>
    obtain ⟨w, head, same⟩ := head.exists_lossless showing.1
    obtain ⟨others, tail, same'⟩ := tail.exists_lossless showing.2
    exact ⟨(⟨name, _⟩, w) :: others, .cons name head tail,
      by simp only [Value.eraseFields, same, same']⟩

end

end CadenceWire.Ccf
