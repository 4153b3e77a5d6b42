import CadenceWire.Proofs.JsonCdc.Bare

/-!
What is recorded while a payload is read. However far reading has come, each type that is recorded
is a declared type, and it is recorded with its own identifier.
-/
namespace CadenceWire.JsonCdc

/-- Beside each identifier is a declared type that has it. -/
def Seen.Keyed (seen : Seen) : Prop :=
  ∀ id type, (id, type) ∈ seen →
    ∃ declared : NominalType, type = .nominal declared ∧ declared.id = id

namespace Seen.Keyed

variable {seen : Seen}

theorem nil : Seen.Keyed [] := nofun

theorem declared (keyed : seen.Keyed) (type : NominalType) :
    Seen.Keyed ((type.id, .nominal type) :: seen) := by
  intro id other member
  rcases List.mem_cons.1 member with same | inside
  · cases same
    exact ⟨type, rfl, rfl⟩
  · exact keyed id other inside

theorem recorded (keyed : seen.Keyed) (types : List NominalType) :
    Seen.Keyed (recorded types ++ seen) := by
  induction types with
  | nil => exact keyed
  | cons type types ih => exact ih.declared type

private theorem find? (keyed : seen.Keyed) {id : String} {type : StaticType}
    (found : seen.find? id = some type) :
    ∃ declared : NominalType, type = .nominal declared ∧ declared.id = id := by
  obtain ⟨newer, older, rfl, -⟩ := Seen.find?_eq_some_iff.1 found
  exact keyed id type (by simp)

end Seen.Keyed

section runs

variable {options : Options} {before after : Seen}

/-- Reading a task records declared types one after another, and nothing else. -/
theorem Reads.keyed {task : Task} (read : Reads options task before after)
    (keyed : before.Keyed) : after.Keyed := by
  rw [read.seen, seenOf]
  exact keyed.recorded _

theorem Threads.keyed {positions : List Position}
    (passed : Threads (Passes options) positions before after) (keyed : before.Keyed) :
    after.Keyed := by
  rw [passed.seen, seenOf]
  exact keyed.recorded _

theorem Reached.keyed {payload : Json} {earlier : List Occurrence} {seen : Seen} {task : Task}
    (reached : Reached options payload earlier seen task) : seen.Keyed := by
  induction reached with
  | payload => exact .nil
  | part _ _ passed ih => exact passed.keyed (ih.recorded _)

theorem Visits.ensures {α : Type} {reading : Reading α} {positions : List Position}
    (visits : Visits options reading positions) :
    Ensures Seen.Keyed (fun _ => True) reading :=
  fun before result after keyed read => ⟨trivial, (visits before result after read).keyed keyed⟩

end runs

/-- An identifier alone gives a declared type that has it, or is kept. -/
theorem typeReference_ensures (options : Options) (id : String) :
    Ensures Seen.Keyed
      (fun type => (∃ declared : NominalType, type = .nominal declared ∧ declared.id = id) ∨
        type = .unstructured id ∧ options.unresolvedTypes = true)
      (typeReference options id) := by
  refine Ensures.get.bind fun seen keyed => ?_
  cases found : seen.find? id with
  | some type => exact .pure (.inl (keyed.find? found))
  | none =>
    dsimp only
    split
    next allowed => exact .pure (.inr ⟨rfl, allowed⟩)
    next => exact .throw

/-- A declared type has the identifier that its declaration gives, whatever else it declares. -/
theorem nominalType_ensures (options : Options) (kind : DeclarationKind) (members : Json.Members) :
    Ensures Seen.Keyed
      (fun type => type.kind = kind ∧ members.last? "typeID" = some (.string type.id))
      (nominalType options kind members) := by
  intro before type after keyed read
  obtain ⟨same, named, passed⟩ := nominalType_passes read
  exact ⟨⟨same, named⟩, passed.keyed (keyed.recorded [type])⟩

end CadenceWire.JsonCdc
