import CadenceWire.Numeric.Decimal
import CadenceWire.Proofs.Json.Sequence
import CadenceWire.Proofs.StaticType.Every
import CadenceWire.StaticType.Identifier

/-!
Identifiers of types, and a reader that takes one off the front of a text. An identifier does not
tell the kinds of declarations, and it is not read back if names are written with marks in them or
without a point, or if a reference stands where only what it refers to would be continued.
-/
namespace CadenceWire

mutual

/-- The type with every declaration taken for that of a struct. -/
def StaticType.kindless : StaticType → StaticType
  | .simple type => .simple type
  | .optional content => .optional content.kindless
  | .variableArray element => .variableArray element.kindless
  | .constantArray size element => .constantArray size element.kindless
  | .dictionary key value => .dictionary key.kindless value.kindless
  | .reference granted referenced => .reference granted referenced.kindless
  | .intersection types => .intersection (StaticType.kindlessOf types)
  | .restricted base types => .restricted base.kindless (StaticType.kindlessOf types)
  | .capability => .capability
  | .capabilityOf borrowed => .capabilityOf borrowed.kindless
  | .inclusiveRange element => .inclusiveRange element.kindless
  | .nominal type => .nominal ⟨.struct, type.id⟩
  | .function signature => .function signature
  | .unstructured id => .unstructured id

def StaticType.kindlessOf : List StaticType → List StaticType
  | [] => []
  | type :: rest => type.kindless :: StaticType.kindlessOf rest

end

mutual

theorem StaticType.id_kindless (type : StaticType) : type.kindless.id = type.id := by
  match type with
  | .simple _ | .capability | .nominal _ | .function _ | .unstructured _ =>
    simp only [kindless, StaticType.id]
  | .optional content => simp only [kindless, StaticType.id, id_kindless content]
  | .variableArray element => simp only [kindless, StaticType.id, id_kindless element]
  | .constantArray _ element => simp only [kindless, StaticType.id, id_kindless element]
  | .dictionary key value => simp only [kindless, StaticType.id, id_kindless key, id_kindless value]
  | .reference _ referenced => simp only [kindless, StaticType.id, id_kindless referenced]
  | .intersection types => simp only [kindless, StaticType.id, ids_kindless types]
  | .restricted base types =>
    simp only [kindless, StaticType.id, id_kindless base, ids_kindless types]
  | .capabilityOf borrowed => simp only [kindless, StaticType.id, id_kindless borrowed]
  | .inclusiveRange element => simp only [kindless, StaticType.id, id_kindless element]

theorem StaticType.ids_kindless (types : List StaticType) :
    StaticType.ids (StaticType.kindlessOf types) = StaticType.ids types := by
  match types with
  | [] => simp only [kindlessOf]
  | type :: rest => simp only [kindlessOf, StaticType.ids, id_kindless type, ids_kindless rest]

end

/-- Characters that are in no name: blanks and punctuation, but for the point. -/
def marks : List Char :=
  [' ', '\t', '\n', '\r', '?', '[', ']', '\x7b', '\x7d', ';', ':', ',', '|', '&', '<', '>', '(',
    ')']

def isMark (c : Char) : Bool := marks.contains c

theorem isMark_of_isAlphanum {c : Char} (written : c.isAlphanum = true) : isMark c = false := by
  have none_written : ∀ mark ∈ marks, mark.isAlphanum = false := by simp [marks]
  refine Bool.eq_false_iff.2 fun marked => ?_
  rw [none_written c (List.contains_iff_mem.1 marked)] at written
  cases written

/-- A name has no mark in it. It may have letters, digits, underscores and points. -/
def IsName (name : List Char) : Prop := name ≠ [] ∧ ∀ c ∈ name, isMark c = false

instance (name : List Char) : Decidable (IsName name) :=
  decidable_of_iff (name ≠ [] ∧ name.all (!isMark ·)) (by simp [IsName])

theorem IsName.ne_mark {c : Char} {rest : List Char} (isName : IsName (c :: rest)) {mark : Char}
    (marked : isMark mark = true) : c ≠ mark := by
  rintro rfl
  exact absurd (isName.2 c List.mem_cons_self) (by simp [marked])

/-- The identifier of a declaration has a point in it. -/
def Qualified (id : String) : Prop := '.' ∈ id.toList ∧ ∀ c ∈ id.toList, isMark c = false

instance (id : String) : Decidable (Qualified id) :=
  decidable_of_iff ('.' ∈ id.toList ∧ id.toList.all (!isMark ·)) (by simp [Qualified])

theorem Qualified.isName {id : String} (qualified : Qualified id) : IsName id.toList :=
  ⟨List.ne_nil_of_mem qualified.1, qualified.2⟩

/-- Of several entitlements there are two at least. -/
def Authorization.Legible : Authorization → Prop
  | unauthorized | legacy => True
  | conjunction entitlements | disjunction entitlements =>
    2 ≤ entitlements.length ∧ ∀ entitlement ∈ entitlements, Qualified entitlement
  | mapping entitlementMap => Qualified entitlementMap

/-- The identifier of the type by itself can be read back if those of its parts can. A reference
extends as far as it can, so it is not continued as an optional or a base. -/
def StaticType.Legible : StaticType → Prop
  | .nominal type => Qualified type.id
  | .optional (.reference _ _) | .restricted (.reference _ _) _ => False
  | .reference granted _ => granted.Legible
  | .function _ | .unstructured _ => False
  | _ => True

namespace TypeText

open Json (Reader)
open Json.Reader (Takes bracketed)

def word (text : List Char) : List Char × List Char := text.span (!isMark ·)

/-- What stands in the parentheses behind `auth`. -/
def entitlements : List Char → Authorization
  | 'm' :: 'a' :: 'p' :: 'p' :: 'i' :: 'n' :: 'g' :: ' ' :: name => .mapping (String.ofList name)
  | body =>
    if ',' ∈ body then .conjunction ((body.splitOn ',').map String.ofList)
    else .disjunction ((body.splitOn '|').map String.ofList)

/-- What a reference entitles to, up to its mark. -/
def authorization (text : List Char) : Option (Authorization × List Char) :=
  match word text with
  | ([], '&' :: rest) => some (.unauthorized, rest)
  | (['a', 'u', 't', 'h'], '&' :: rest) => some (.legacy, rest)
  | (['a', 'u', 't', 'h'], '(' :: rest) =>
    match rest.span (· != ')') with
    | (body, ')' :: '&' :: rest) => some (entitlements body, rest)
    | _ => none
  | _ => none

/-- A name that nothing in angle brackets follows. -/
def named (name : String) : StaticType :=
  if name = "Capability" then .capability
  else match SimpleType.ofId? name with
    | some simple => .simple simple
    | none => .nominal ⟨.struct, name⟩

/-- What a name stands for, with what follows it in angle brackets. -/
def worded (type : Reader StaticType) (text : List Char) : Option (StaticType × List Char) :=
  match word text with
  | (name, '<' :: rest) => do
    let (content, rest) ← type rest
    match rest with
    | '>' :: rest =>
      some (if name = "Capability".toList then .capabilityOf content else .inclusiveRange content,
        rest)
    | _ => none
  | (name, rest) => some (named (String.ofList name), rest)

/-- A type that is neither a reference nor continued by what stands behind it. -/
def operand (type : Reader StaticType) : Reader StaticType
  | '[' :: rest => do
    let (element, rest) ← type rest
    match rest with
    | ']' :: rest => some (.variableArray element, rest)
    | ';' :: rest =>
      match Json.Reader.digits rest with
      | (size, ']' :: rest) =>
        some (.constantArray (UInt64.ofNat (Nat.ofDigitChars 10 size 0)) element, rest)
      | _ => none
    | _ => none
  | '\x7b' :: rest =>
    match bracketed type '\x7d' rest with
    | some (types, rest) => some (.intersection types, rest)
    | none => do
      let (key, rest) ← type rest
      match rest with
      | ':' :: rest => do
        let (value, rest) ← type rest
        match rest with
        | '\x7d' :: rest => some (.dictionary key value, rest)
        | _ => none
      | _ => none
  | text => worded type text

/-- Continues a type by question marks and by restrictions, up to a number of them. -/
def suffixes (type : Reader StaticType) : Nat → StaticType → Reader StaticType
  | bound + 1, base, '?' :: rest => suffixes type bound (.optional base) rest
  | bound + 1, base, '\x7b' :: rest => do
    let (types, rest) ← bracketed type '\x7d' rest
    suffixes type bound (.restricted base types) rest
  | _, base, rest => some (base, rest)

def operation (type : Reader StaticType) (bound : Nat) (text : List Char) :
    Option (StaticType × List Char) := do
  let (base, rest) ← operand type text
  suffixes type bound base rest

/-- A type that is nested to a depth at most. -/
def type : Nat → Reader StaticType
  | 0, _ => none
  | depth + 1, text =>
    match authorization text with
    | some (granted, rest) => do
      let (referenced, rest) ← type depth rest
      some (.reference granted referenced, rest)
    | none => operation (type depth) (depth + 1) text

end TypeText

end CadenceWire
