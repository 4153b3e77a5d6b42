import CadenceWire.Plain.Basic

/-!
Plain maps all of whose values are texts, or lists of texts. Nothing is turned into text for this.
-/
namespace CadenceWire

/-- Something was asked to be of one kind and is of another. -/
structure Mismatch where
  expected : String
  got : String
deriving DecidableEq, Repr

namespace Plain

def entries : Plain → Except Mismatch (List (String × Plain))
  | map entries => .ok entries
  | other => .error ⟨"map", other.kindName⟩

def string : Plain → Except Mismatch String
  | text s => .ok s
  | other => .error ⟨"string", other.kindName⟩

def strings : Plain → Except Mismatch (List String)
  | list items => items.mapM string
  | other => .error ⟨"list", other.kindName⟩

def narrowEntries {α : Type} (narrow : Plain → Except Mismatch α) (plain : Plain) :
    Except Mismatch (List (String × α)) := do
  (← entries plain).mapM fun (key, value) => do return (key, ← narrow value)

def textMap (plain : Plain) : Except Mismatch (List (String × String)) :=
  narrowEntries string plain

def textListMap (plain : Plain) : Except Mismatch (List (String × List String)) :=
  narrowEntries strings plain

end Plain

end CadenceWire
