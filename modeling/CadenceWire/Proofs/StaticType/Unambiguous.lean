import CadenceWire.Payload
import CadenceWire.Proofs.StaticType.Spelling
import CadenceWire.Proofs.Text.Literal

/-!
Identifiers of types are unambiguous. What follows an identifier within another one tells where it
ends, so the reader takes each off the front of a text as it was put there.
-/
namespace CadenceWire.TypeText

open Json (Reader)
open Json.Reader (Takes Starts bracketed digits span_append)

/-- What may stand behind a type within another one. -/
def closers : List Char := [']', ';', '\x7d', ':', ',', '>']

def Closes (rest : List Char) : Prop := ∀ c ∈ rest.head?, c ∈ closers

/-- What may stand behind an operand: it may be continued as well. -/
def Follows (rest : List Char) : Prop := ∀ c ∈ rest.head?, c ∈ '?' :: '\x7b' :: closers

theorem Closes.follows {rest : List Char} (closes : Closes rest) : Follows rest :=
  fun c member => List.mem_cons_of_mem _ (List.mem_cons_of_mem _ (closes c member))

private theorem closes_cons {c : Char} (closer : c ∈ closers) (rest : List Char) :
    Closes (c :: rest) := by
  intro d member
  cases member
  exact closer

private theorem follows_cons {c : Char} (known : c ∈ '?' :: '\x7b' :: closers) (rest : List Char) :
    Follows (c :: rest) := by
  intro d member
  cases member
  exact known

theorem Follows.mark {rest : List Char} (follows : Follows rest) :
    ∀ c ∈ rest.head?, isMark c = true ∧ c ≠ '<' ∧ c ≠ '&' ∧ c ≠ '(' := by
  have all : ∀ c ∈ '?' :: '\x7b' :: closers, isMark c = true ∧ c ≠ '<' ∧ c ≠ '&' ∧ c ≠ '(' := by
    simp [closers, isMark, marks]
  exact fun c member => all c (follows c member)

section names

variable {name text rest : List Char} {id : String}

private theorem marked_cons {c : Char} (marked : isMark c = true) (rest : List Char) :
    ∀ d ∈ (c :: rest).head?, isMark d = true := by
  intro d member
  cases member
  exact marked

private theorem word_name (name : List Char) (unmarked : ∀ c ∈ name, isMark c = false)
    (ends : ∀ c ∈ rest.head?, isMark c = true) : word (name ++ rest) = (name, rest) :=
  span_append (fun c member => by simp [unmarked c member]) fun c member => by simp [ends c member]

/-- The names of simple types are no identifiers of declarations. -/
theorem isName_simple (type : SimpleType) :
    IsName type.id.toList ∧ '.' ∉ type.id.toList ∧ type.id ≠ "Capability" := by
  have all : ∀ type ∈ SimpleType.all, (type.id.toList ≠ [] ∧
      type.id.toList.all Char.isAlphanum = true) ∧ type.id ≠ "Capability" := by decide
  obtain ⟨⟨written, letters⟩, other⟩ := all type (SimpleType.mem_all type)
  have letters : ∀ c ∈ type.id.toList, c.isAlphanum = true := List.all_eq_true.1 letters
  refine ⟨⟨written, fun c member => isMark_of_isAlphanum (letters c member)⟩, ?_, other⟩
  exact fun point => absurd (letters '.' point) (by decide)

private theorem named_simple (type : SimpleType) : named type.id = .simple type := by
  rw [named, if_neg (isName_simple type).2.2, SimpleType.ofId?_id]

private theorem named_qualified (qualified : Qualified id) : named id = .nominal ⟨.struct, id⟩ := by
  have other : id ≠ "Capability" := by
    rintro rfl
    exact absurd qualified.1 (by decide)
  have unknown : SimpleType.ofId? id = none := by
    refine List.find?_eq_none.2 fun type _ => ?_
    simp only [decide_eq_true_eq]
    rintro rfl
    exact (isName_simple type).2.1 qualified.1
  rw [named, if_neg other, unknown]

end names

section references

variable {text rest : List Char}

private theorem authorization_of_word {name : List Char} (split_word : word text = (name, rest))
    (other : ∀ c ∈ rest.head?, c ≠ '&' ∧ c ≠ '(') : authorization text = none := by
  rw [authorization, split_word]
  split
  next same => cases same; exact absurd rfl (other _ rfl).1
  next same => cases same; exact absurd rfl (other _ rfl).1
  next same => cases same; exact absurd rfl (other _ rfl).2
  next => rfl

private theorem authorization_parentheses {body : List Char} (inside : ')' ∉ body)
    (rest : List Char) :
    authorization ('a' :: 'u' :: 't' :: 'h' :: '(' :: (body ++ ')' :: '&' :: rest)) =
      some (entitlements body, rest) := by
  have split_word : word ('a' :: 'u' :: 't' :: 'h' :: '(' :: (body ++ ')' :: '&' :: rest)) =
      (['a', 'u', 't', 'h'], '(' :: (body ++ ')' :: '&' :: rest)) :=
    word_name ['a', 'u', 't', 'h'] (by simp [isMark, marks]) (marked_cons rfl _)
  have split_body : (body ++ ')' :: '&' :: rest).span (· != ')') = (body, ')' :: '&' :: rest) := by
    refine span_append (fun c member => ?_) (by simp)
    simp only [bne_iff_ne]
    rintro rfl
    exact inside member
  simp only [authorization, split_word, split_body]

/-- The identifiers of entitlements, one behind the other. -/
def listed (separator : Char) (entitlements : List String) : List Char :=
  [separator].intercalate (entitlements.map String.toList)

private theorem not_mem_intercalate {c separator : Char} (other : c ≠ separator)
    {texts : List (List Char)}
    (absent : ∀ text ∈ texts, c ∉ text) : c ∉ [separator].intercalate texts := by
  induction texts with
  | nil => simp
  | cons text texts ih =>
    obtain ⟨here, behind⟩ := List.forall_mem_cons.1 absent
    cases texts with
    | nil => simpa using here
    | cons text' texts =>
      rw [List.intercalate_cons_cons]
      simp [here, other, ih behind]

section entitlements

variable {names : List String} (qualified : ∀ name ∈ names, Qualified name)

include qualified

private theorem not_mem_listed (c separator : Char) (marked : isMark c = true)
    (other : c ≠ separator) : c ∉ listed separator names := by
  refine not_mem_intercalate other (List.forall_mem_map.2 fun name member inside => ?_)
  have plain := (qualified name member).2 c inside
  rw [marked] at plain
  cases plain

private theorem splitOn_listed (several : 2 ≤ names.length) {separator : Char}
    (marked : isMark separator = true) :
    ((listed separator names).splitOn separator).map String.ofList = names := by
  have some_names : names.map String.toList ≠ [] := by
    rw [Ne, List.map_eq_nil_iff]
    rintro rfl
    cases several
  rw [listed, List.splitOn_intercalate _ (List.forall_mem_map.2 fun name member inside => ?_)
    some_names, List.map_map]
  · simp [Function.comp_def]
  · have plain := (qualified name member).2 separator inside
    rw [marked] at plain
    cases plain

private theorem entitlements_listed {separator : Char} (other : ' ' ≠ separator) :
    entitlements (listed separator names) =
      if ',' ∈ listed separator names then
        .conjunction (((listed separator names).splitOn ',').map String.ofList)
      else .disjunction (((listed separator names).splitOn '|').map String.ofList) := by
  have noBlank : ' ' ∉ listed separator names := not_mem_listed qualified ' ' separator rfl other
  generalize listed separator names = body at *
  unfold entitlements
  split
  next => simp at noBlank
  next => rfl

end entitlements

private theorem mem_listed {names : List String} (several : 2 ≤ names.length) (separator : Char) :
    separator ∈ listed separator names := by
  match names, several with
  | first :: second :: others, _ =>
    rw [listed, List.map_cons, List.map_cons, List.intercalate_cons_cons]
    simp

/-- The authorization of a reference is read up to the mark of the reference. -/
theorem authorization_text {granted : Authorization} (legible : granted.Legible)
    (rest : List Char) :
    authorization (granted.id.toList ++ '&' :: rest) = some (granted, rest) := by
  cases granted with
  | unauthorized =>
    have split_word : word ('&' :: rest) = ([], '&' :: rest) :=
      word_name [] (by simp) (marked_cons rfl rest)
    simp [Authorization.id, authorization, split_word]
  | legacy =>
    have split_word : word ('a' :: 'u' :: 't' :: 'h' :: '&' :: rest) =
        (['a', 'u', 't', 'h'], '&' :: rest) :=
      word_name ['a', 'u', 't', 'h'] (by simp [isMark, marks]) (marked_cons rfl rest)
    simp [Authorization.id, authorization, split_word]
  | conjunction names =>
    obtain ⟨several, qualified⟩ := legible
    have read := authorization_parentheses (not_mem_listed qualified ')' ','
      rfl (by decide)) rest
    rw [entitlements_listed qualified (by decide), if_pos (mem_listed several ','),
      splitOn_listed qualified several rfl] at read
    simpa [Authorization.id, String.toList_intercalate, listed] using read
  | disjunction names =>
    obtain ⟨several, qualified⟩ := legible
    have read := authorization_parentheses (not_mem_listed qualified ')' '|'
      rfl (by decide)) rest
    rw [entitlements_listed qualified (by decide),
      if_neg (not_mem_listed qualified ',' '|' rfl (by decide)),
      splitOn_listed qualified several rfl] at read
    simpa [Authorization.id, String.toList_intercalate, listed] using read
  | mapping name =>
    have inside : ')' ∉ 'm' :: 'a' :: 'p' :: 'p' :: 'i' :: 'n' :: 'g' :: ' ' :: name.toList := by
      have outside : ')' ∉ name.toList := fun member => absurd (legible.2 ')' member) (by decide)
      simp [outside]
    have read := authorization_parentheses inside rest
    simpa [Authorization.id, entitlements] using read

end references

section starts

variable {close : Char} {front : List Char}

private theorem starts_append (starts : Starts close front) (back : List Char) :
    Starts close (front ++ back) := by
  obtain ⟨c, rest, rfl, start⟩ := starts
  exact ⟨c, rest ++ back, rfl, start⟩

private theorem starts_name (isName : IsName front) (back : List Char) :
    Starts '\x7d' (front ++ back) := by
  obtain ⟨c, rest, rfl⟩ := List.exists_cons_of_ne_nil isName.1
  have other (mark : Char) (marked : isMark mark = true) : c ≠ mark := isName.ne_mark marked
  have printed : Json.Reader.isBlank c = false := by
    simp [Json.Reader.isBlank, other ' ' rfl, other '\t' rfl,
      other '\n' rfl, other '\r' rfl]
  exact ⟨c, _, rfl, printed, other _ rfl⟩

/-- Types other than references start with a bracket, or with a name that does not say what a
reference entitles to. -/
inductive Opens : List Char → Prop
  | name {name behind : List Char} (isName : IsName name)
      (ends : ∀ c ∈ behind.head?, isMark c = true ∧ c ≠ '&' ∧ c ≠ '(') : Opens (name ++ behind)
  | bracket {c : Char} (known : c = '[' ∨ c = '\x7b') (behind : List Char) : Opens (c :: behind)

theorem Opens.append (opens : Opens front) {rest : List Char} (follows : Follows rest) :
    Opens (front ++ rest) := by
  cases opens with
  | @name name behind isName ends =>
    rw [List.append_assoc]
    refine .name isName fun c member => ?_
    cases behind with
    | nil =>
      obtain ⟨marked, -, other⟩ := follows.mark c member
      exact ⟨marked, other⟩
    | cons d behind => exact ends c member
  | bracket known behind => exact .bracket known (behind ++ rest)

private theorem opens_name (front : List Char) (isName : IsName front) : Opens front := by
  rw [← List.append_nil front]
  exact .name isName (by simp)

private theorem opens_id (t : StaticType) (legible : t.Every StaticType.Legible)
    (own : ∀ granted referenced, t ≠ .reference granted referenced) : Opens t.id.toList := by
  match t, legible, own with
  | .simple type, _, _ => exact opens_name _ (isName_simple type).1
  | .nominal type, legible, _ => exact opens_name _ (show Qualified type.id from legible).isName
  | .capability, _, _ => exact opens_name "Capability".toList (by decide)
  | .capabilityOf borrowed, _, _ =>
    rw [StaticType.id, String.append_assoc, String.toList_append]
    change Opens ("Capability".toList ++ '<' :: _)
    exact .name (by decide) (by simp [isMark, marks])
  | .inclusiveRange element, _, _ =>
    rw [StaticType.id, String.append_assoc, String.toList_append]
    change Opens ("InclusiveRange".toList ++ '<' :: _)
    exact .name (by decide) (by simp [isMark, marks])
  | .optional content, legible, _ =>
    have own : ∀ granted referenced, content ≠ .reference granted referenced := by
      rintro granted referenced rfl
      exact legible.1
    rw [StaticType.id, String.toList_append]
    exact (opens_id content legible.2 own).append (follows_cons (c := '?') (by decide) [])
  | .restricted base types, legible, _ =>
    have own : ∀ granted referenced, base ≠ .reference granted referenced := by
      rintro granted referenced rfl
      exact legible.1
    rw [StaticType.id, String.append_assoc, String.append_assoc, String.toList_append,
      String.toList_append]
    exact (opens_id base legible.2.1 own).append (follows_cons (c := '\x7b') (by decide) _)
  | .variableArray element, _, _ => simpa [StaticType.id] using Opens.bracket (.inl rfl) _
  | .constantArray size element, _, _ => simpa [StaticType.id] using Opens.bracket (.inl rfl) _
  | .dictionary key value, _, _ => simpa [StaticType.id] using Opens.bracket (.inr rfl) _
  | .intersection types, _, _ => simpa [StaticType.id] using Opens.bracket (.inr rfl) _
  | .reference granted referenced, _, own => exact absurd rfl (own granted referenced)
  | .function signature, legible, _ => exact absurd legible.1 id
  | .unstructured id, legible, _ => exact absurd legible (fun impossible => impossible)

theorem Opens.starts (opens : Opens front) : Starts '\x7d' front := by
  cases opens with
  | name isName ends => exact starts_name isName _
  | bracket known behind => rcases known with rfl | rfl <;> exact ⟨_, behind, rfl, by decide⟩

theorem Opens.authorization (opens : Opens front) : authorization front = none := by
  cases opens with
  | name isName ends =>
    have split_word := word_name _ isName.2 fun c member => (ends c member).1
    exact authorization_of_word split_word fun c member => (ends c member).2
  | @bracket c known behind =>
    have other : isMark c = true ∧ c ≠ '&' ∧ c ≠ '(' := by
      rcases known with rfl | rfl <;> decide
    have split_word := word_name [] (by simp) (marked_cons other.1 behind)
    exact authorization_of_word split_word (by simpa using other.2)

/-- No identifier starts like the end of what it may be within. -/
theorem starts_id (t : StaticType) (legible : t.Every StaticType.Legible) :
    Starts '\x7d' t.id.toList := by
  cases t with
  | reference granted referenced =>
    rw [StaticType.id, String.append_assoc, String.toList_append]
    cases granted with
    | unauthorized => exact ⟨'&', _, by simp [Authorization.id]; rfl, by decide⟩
    | _ => exact ⟨'a', _, by simp [Authorization.id]; rfl, by decide⟩
  | _ => exact (opens_id _ legible nofun).starts

end starts

section operands

variable {read : Reader StaticType} {name rest : List Char}

private theorem operand_word (isName : IsName name) (rest : List Char) :
    operand read (name ++ rest) = worded read (name ++ rest) := by
  obtain ⟨c, more, rfl⟩ := List.exists_cons_of_ne_nil isName.1
  unfold operand
  split
  next same => exact absurd (List.cons.inj same).1 (isName.ne_mark rfl)
  next same => exact absurd (List.cons.inj same).1 (isName.ne_mark rfl)
  next => rfl

private theorem operand_name (name : List Char) (isName : IsName name) {type : StaticType}
    (found : named (String.ofList name) = type) : Takes (operand read) Follows name type := by
  intro rest follows
  have split_word : word (name ++ rest) = (name, rest) :=
    word_name _ isName.2 fun c member => (follows.mark c member).1
  rw [operand_word isName, worded, split_word]
  split
  next same =>
    cases same
    exact absurd rfl (follows.mark _ rfl).2.1
  next same =>
    cases same
    rw [found]

/-- A name with a type in angle brackets. -/
theorem operand_content (name : List Char) (isName : IsName name) {text : List Char}
    {content : StaticType}
    (takes : Takes read Closes text content) :
    Takes (operand read) Follows (name ++ '<' :: (text ++ ['>']))
      (if name = "Capability".toList then .capabilityOf content else .inclusiveRange content) := by
  intro rest _
  have split_word : word (name ++ '<' :: (text ++ '>' :: rest)) =
      (name, '<' :: (text ++ '>' :: rest)) := word_name _ isName.2 (marked_cons rfl _)
  have closes : Closes ('>' :: rest) := closes_cons (by decide) rest
  simp only [List.append_assoc, List.cons_append, List.nil_append]
  rw [operand_word isName, worded, split_word]
  simp only [takes _ closes, Option.bind_eq_bind, Option.bind_some]

private theorem operand_variableArray {text : List Char} {element : StaticType}
    (takes : Takes read Closes text element) :
    Takes (operand read) Follows ('[' :: (text ++ [']'])) (.variableArray element) := by
  intro rest _
  have closes : Closes (']' :: rest) := closes_cons (by decide) rest
  simp only [List.append_assoc, List.cons_append, List.nil_append, operand, takes _ closes,
    Option.bind_eq_bind, Option.bind_some]

private theorem operand_constantArray {text : List Char} {element : StaticType} (size : UInt64)
    (takes : Takes read Closes text element) :
    Takes (operand read) Follows
      ('[' :: (text ++ ';' :: ((Decimal.ofNat size.toNat).toList ++ [']'])))
      (.constantArray size element) := by
  intro rest _
  have closes : Closes (';' :: ((Decimal.ofNat size.toNat).toList ++ ']' :: rest)) :=
    closes_cons (by decide) _
  have spelled : (Decimal.ofNat size.toNat).toList = Nat.toDigits 10 size.toNat := by
    simp [Decimal.ofNat]
  have counted : digits ((Decimal.ofNat size.toNat).toList ++ ']' :: rest) =
      (Nat.toDigits 10 size.toNat, ']' :: rest) := by
    rw [spelled]
    refine span_append (Decimal.isDigit_toDigits _) ?_
    simp
  simp only [List.append_assoc, List.cons_append, List.nil_append, operand, takes _ closes,
    Option.bind_eq_bind, Option.bind_some, counted, Nat.ofDigitChars_ten_toDigits,
    UInt64.ofNat_toNat]

private theorem operand_dictionary {text text' : List Char} {key value : StaticType}
    (starts : Starts '\x7d' text) (takes : Takes read Closes text key)
    (takes' : Takes read Closes text' value) :
    Takes (operand read) Follows ('\x7b' :: (text ++ ':' :: (text' ++ ['\x7d'])))
      (.dictionary key value) := by
  intro rest _
  have closes : Closes (':' :: (text' ++ '\x7d' :: rest)) := closes_cons (by decide) _
  have closes' : Closes ('\x7d' :: rest) := closes_cons (by decide) rest
  have noList : bracketed read '\x7d' (text ++ ':' :: (text' ++ '\x7d' :: rest)) = none := by
    rw [← List.nil_append (text ++ _),
      Json.Reader.bracketed_of_starts [] (by simp) (starts_append starts _)]
    exact Json.Reader.separated_stopped (takes _ closes) rfl (by decide) (by decide) _
  simp only [List.append_assoc, List.cons_append, List.nil_append, operand, noList, takes _ closes,
    takes' _ closes', Option.bind_eq_bind, Option.bind_some]

private theorem bracketed_types {texts : List (List Char)} {types : List StaticType}
    (takes : List.Forall₂ (Takes read Closes) texts types)
    (starts : ∀ text ∈ texts, Starts '\x7d' text) (rest : List Char) :
    bracketed read '\x7d' ([','].intercalate texts ++ '\x7d' :: rest) = some (types, rest) := by
  by_cases none : texts = []
  · subst none
    cases takes
    exact Json.Reader.bracketed_nil rfl
  · exact Json.Reader.bracketed_parts [] (fun _ => rfl) (by decide) (by simp) takes none
      starts (closes_cons (by decide)) (closes_cons (by decide) rest) rfl

private theorem operand_intersection {texts : List (List Char)} {types : List StaticType}
    (takes : List.Forall₂ (Takes read Closes) texts types)
    (starts : ∀ text ∈ texts, Starts '\x7d' text) :
    Takes (operand read) Follows ('\x7b' :: ([','].intercalate texts ++ ['\x7d']))
      (.intersection types) := by
  intro rest _
  simp only [List.append_assoc, List.cons_append, List.nil_append, operand,
    bracketed_types takes starts]

end operands

section types

variable {read : Reader StaticType} {limit : Nat}
  (inner : ∀ t : StaticType, sizeOf t < limit → t.Every StaticType.Legible →
    Takes read Closes t.id.toList t.kindless)

include inner

private theorem takes_types (types : List StaticType) (small : sizeOf types < limit)
    (legible : StaticType.EveryOf StaticType.Legible types) :
    List.Forall₂ (Takes read Closes) ((StaticType.ids types).map String.toList)
        (StaticType.kindlessOf types) ∧
      ∀ text ∈ (StaticType.ids types).map String.toList, Starts '\x7d' text := by
  induction types with
  | nil => exact ⟨.nil, by simp [StaticType.ids]⟩
  | cons t types ih =>
    rw [List.cons.sizeOf_spec] at small
    obtain ⟨each, starts⟩ := ih (by omega) legible.2
    exact ⟨.cons (inner t (by omega) legible.1) each,
      List.forall_mem_cons.2 ⟨starts_id t legible.1, starts⟩⟩

/-- Those forms of types that are read at once. -/
theorem operand_text {t : StaticType} (small : sizeOf t ≤ limit)
    (legible : t.Every StaticType.Legible)
    (whole : ∀ content, t ≠ .optional content)
    (unrestricted : ∀ base types, t ≠ .restricted base types)
    (own : ∀ granted referenced, t ≠ .reference granted referenced) :
    Takes (operand read) Follows t.id.toList t.kindless := by
  cases t with
  | simple type =>
    have found : named (String.ofList type.id.toList) = .simple type := by
      rw [String.ofList_toList, named_simple]
    exact operand_name _ (isName_simple type).1 found
  | nominal type =>
    have qualified : Qualified type.id := legible
    have found : named (String.ofList type.id.toList) = .nominal ⟨.struct, type.id⟩ := by
      rw [String.ofList_toList, named_qualified qualified]
    exact operand_name _ qualified.isName found
  | capability => exact operand_name "Capability".toList (by decide) rfl
  | capabilityOf borrowed =>
    rw [StaticType.capabilityOf.sizeOf_spec] at small
    have takes := inner borrowed (by omega) legible.2
    simpa [StaticType.id, StaticType.kindless] using
      operand_content "Capability".toList (by decide) takes
  | inclusiveRange element =>
    rw [StaticType.inclusiveRange.sizeOf_spec] at small
    have takes := inner element (by omega) legible.2
    simpa [StaticType.id, StaticType.kindless] using
      operand_content "InclusiveRange".toList (by decide) takes
  | variableArray element =>
    rw [StaticType.variableArray.sizeOf_spec] at small
    have takes := inner element (by omega) legible.2
    simpa [StaticType.id, StaticType.kindless] using operand_variableArray takes
  | constantArray size element =>
    rw [StaticType.constantArray.sizeOf_spec] at small
    have takes := inner element (by omega) legible.2
    simpa [StaticType.id, StaticType.kindless] using operand_constantArray size takes
  | dictionary key value =>
    rw [StaticType.dictionary.sizeOf_spec] at small
    have takes := inner key (by omega) legible.2.1
    have takes' := inner value (by omega) legible.2.2
    simpa [StaticType.id, StaticType.kindless] using
      operand_dictionary (starts_id key legible.2.1) takes takes'
  | intersection types =>
    rw [StaticType.intersection.sizeOf_spec] at small
    obtain ⟨each, starts⟩ := takes_types inner types (by omega) legible.2
    simpa [StaticType.id, StaticType.kindless, String.toList_intercalate] using
      operand_intersection each starts
  | optional content => exact absurd rfl (whole content)
  | restricted base types => exact absurd rfl (unrestricted base types)
  | reference granted referenced => exact absurd rfl (own granted referenced)
  | function signature => exact absurd legible.1 id
  | unstructured id => exact absurd legible (fun impossible => impossible)

/-- A type other than a reference is read up to what continues it. -/
theorem operation_text (t : StaticType) (small : sizeOf t ≤ limit)
    (legible : t.Every StaticType.Legible)
    (own : ∀ granted referenced, t ≠ .reference granted referenced) :
    ∃ count ≤ sizeOf t, ∀ bound rest, Follows rest →
      operation read (bound + count) (t.id.toList ++ rest) =
        suffixes read bound t.kindless rest := by
  match t, small, legible, own with
  | .optional content, small, legible, _ =>
    have own : ∀ granted referenced, content ≠ .reference granted referenced := by
      rintro granted referenced rfl
      exact legible.1
    rw [StaticType.optional.sizeOf_spec] at small
    obtain ⟨count, few, reads⟩ := operation_text content (by omega) legible.2 own
    refine ⟨count + 1, by rw [StaticType.optional.sizeOf_spec]; omega, fun bound rest follows => ?_⟩
    have inside := reads (bound + 1) ('?' :: rest) (follows_cons (by decide) rest)
    rw [Nat.add_right_comm, Nat.add_assoc] at inside
    simpa [StaticType.id, StaticType.kindless, suffixes] using inside
  | .restricted base types, small, legible, _ =>
    have own : ∀ granted referenced, base ≠ .reference granted referenced := by
      rintro granted referenced rfl
      exact legible.1
    rw [StaticType.restricted.sizeOf_spec] at small
    obtain ⟨each, starts⟩ := takes_types inner types (by omega) legible.2.2
    obtain ⟨count, few, reads⟩ := operation_text base (by omega) legible.2.1 own
    refine ⟨count + 1, by rw [StaticType.restricted.sizeOf_spec]; omega,
      fun bound rest follows => ?_⟩
    obtain ⟨body, shown⟩ : ∃ body, body =
        [','].intercalate ((StaticType.ids types).map String.toList) ++ '\x7d' :: rest := ⟨_, rfl⟩
    have listed := bracketed_types each starts rest
    have inside := reads (bound + 1) ('\x7b' :: body) (follows_cons (by decide) body)
    rw [Nat.add_right_comm, Nat.add_assoc, suffixes, shown, listed] at inside
    simpa [StaticType.id, StaticType.kindless, String.toList_intercalate] using inside
  | .simple _, small, legible, own | .variableArray _, small, legible, own
  | .constantArray _ _, small, legible, own | .dictionary _ _, small, legible, own
  | .reference _ _, small, legible, own | .intersection _, small, legible, own
  | .capability, small, legible, own | .capabilityOf _, small, legible, own
  | .inclusiveRange _, small, legible, own | .nominal _, small, legible, own
  | .function _, small, legible, own | .unstructured _, small, legible, own =>
    refine ⟨0, Nat.zero_le _, fun bound rest follows => ?_⟩
    have read := operand_text inner small legible nofun nofun own rest follows
    rw [operation, read]
    rfl

end types

private theorem suffixes_closed (read : Reader StaticType) (bound : Nat) (base : StaticType)
    {rest : List Char} (closes : Closes rest) :
    suffixes read bound base rest = some (base, rest) := by
  unfold suffixes
  split
  next => exact absurd (closes _ rfl) (by decide)
  next => exact absurd (closes _ rfl) (by decide)
  next => rfl

/-- The reader takes an identifier off the front of a text, if it may go deep enough. -/
theorem type_text (depth : Nat) (t : StaticType) (deep : sizeOf t ≤ depth)
    (legible : t.Every StaticType.Legible) : Takes (type depth) Closes t.id.toList t.kindless := by
  induction depth generalizing t with
  | zero => cases t <;> simp at deep
  | succ depth ih =>
    intro rest closes
    have inner : ∀ part : StaticType, sizeOf part < depth + 1 → part.Every StaticType.Legible →
        Takes (type depth) Closes part.id.toList part.kindless :=
      fun part small => ih part (Nat.le_of_lt_succ small)
    have other (own : ∀ granted referenced, t ≠ .reference granted referenced) :
        type (depth + 1) (t.id.toList ++ rest) = some (t.kindless, rest) := by
      obtain ⟨count, few, reads⟩ := operation_text inner t deep legible own
      obtain ⟨more, split⟩ := Nat.exists_eq_add_of_le' (Nat.le_trans few deep)
      have opens := (opens_id t legible own).append closes.follows
      have read := reads more rest closes.follows
      rw [← split, suffixes_closed _ _ _ closes] at read
      rw [type, opens.authorization]
      exact read
    cases t with
    | reference granted referenced =>
      rw [StaticType.reference.sizeOf_spec] at deep
      have read := inner referenced (by omega) legible.2 rest closes
      have shown : (StaticType.reference granted referenced).id.toList ++ rest =
          granted.id.toList ++ '&' :: (referenced.id.toList ++ rest) := by
        simp [StaticType.id]
      rw [shown, type, authorization_text legible.1]
      simp only [read, Option.bind_eq_bind, Option.bind_some, StaticType.kindless]
    | _ => exact other nofun

/-- Identifiers of types tell everything of them but the kinds of declarations, so types that differ
in anything else stay apart when they are made plain. -/
theorem id_unambiguous {s t : StaticType} (legible : s.Every StaticType.Legible)
    (legible' : t.Every StaticType.Legible) :
    (s.id = t.id ↔ s.kindless = t.kindless) ∧
      ((Value.type (some s)).toPlain = (Value.type (some t)).toPlain →
        s.kindless = t.kindless) := by
  have told : s.id = t.id → s.kindless = t.kindless := by
    intro same
    have closes : Closes [] := by simp [Closes]
    have read := type_text (sizeOf s + sizeOf t) s (Nat.le_add_right _ _) legible [] closes
    have read' := type_text (sizeOf s + sizeOf t) t (Nat.le_add_left _ _) legible' [] closes
    rw [same, read'] at read
    exact ((Prod.mk.inj (Option.some.inj read)).1).symm
  refine ⟨⟨told, fun same => ?_⟩, fun same => told ?_⟩
  · rw [← s.id_kindless, same, t.id_kindless]
  · simpa [Value.toPlain, Value.plain, Except.mapError] using same

/-- A struct and a resource of one identifier, within a reference. -/
theorem id_unambiguous_reference :
    let restricted (kind : DeclarationKind) : StaticType :=
      .restricted (.nominal ⟨kind, "S.A"⟩) [.nominal ⟨.structInterface, "S.I"⟩]
    let granted : Authorization := .conjunction ["S.E", "S.F"]
    let s : StaticType := .reference granted (.optional (restricted .struct))
    let t : StaticType := .reference granted (.optional (restricted .resource))
    s.Every StaticType.Legible ∧ t.Every StaticType.Legible ∧ s ≠ t ∧
      s.id = "auth(S.E,S.F)&S.A\x7bS.I\x7d?" ∧ s.id = t.id ∧ s.kindless = t.kindless := by
  intro restricted granted s t
  have legible (kind : DeclarationKind) : (restricted kind).Every StaticType.Legible :=
    ⟨trivial, (by decide : Qualified "S.A"), (by decide : Qualified "S.I"), trivial⟩
  have listed : granted.Legible :=
    ⟨by decide, (by decide : ∀ entitlement ∈ ["S.E", "S.F"], Qualified entitlement)⟩
  have left : s.Every StaticType.Legible := ⟨listed, trivial, legible .struct⟩
  have right : t.Every StaticType.Legible := ⟨listed, trivial, legible .resource⟩
  have same : s.id = t.id := rfl
  exact ⟨left, right, by simp [s, t, restricted], by decide, same,
    ((id_unambiguous left right).1).1 same⟩

end CadenceWire.TypeText
