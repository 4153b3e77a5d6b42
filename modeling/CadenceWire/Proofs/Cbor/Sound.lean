import CadenceWire.Proofs.Cbor.Complete
import CadenceWire.Proofs.Cbor.Window

/-!
Whatever the reader takes off the front of its input is a well-formed encoding of what it reads, and
not too deep.
-/
namespace CadenceWire.Cbor

theorem take_eq_ok {count : Nat} {input content rest : List UInt8}
    (taken : take count input = .ok (content, rest)) :
    content.length = count ∧ input = content ++ rest := by
  unfold take at taken
  split at taken
  next enough =>
    have parts : (input.take count, input.drop count) = (content, rest) := by
      simpa [List.splitAt_eq] using taken
    obtain ⟨rfl, rfl⟩ := Prod.mk.inj parts
    exact ⟨List.length_take_of_le enough, (List.take_append_drop count input).symm⟩
  next => cases taken

private theorem firstByte_div_mod (first : UInt8) :
    firstByte (first.toNat / 32) (first.toNat % 32) = first := by
  rw [firstByte, Nat.div_add_mod, UInt8.ofNat_toNat]

namespace Head

/-- The bytes are the head of an item, with an argument that is as wide as it may be. -/
inductive Written : Head → List UInt8 → Prop
  | unsigned {n : Nat} {start : List UInt8} (number : Numbered 0 n start) :
      Written (.unsigned n) start
  | negative {n : Nat} {start : List UInt8} (number : Numbered 1 n start) :
      Written (.negative n) start
  | bytes {n : Nat} {start : List UInt8} (number : Numbered 2 n start) :
      Written (.bytes (some n)) start
  | openBytes : Written (.bytes none) [openByte 2]
  | text {n : Nat} {start : List UInt8} (number : Numbered 3 n start) :
      Written (.text (some n)) start
  | openText : Written (.text none) [openByte 3]
  | array {n : Nat} {start : List UInt8} (number : Numbered 4 n start) :
      Written (.array (some n)) start
  | openArray : Written (.array none) [openByte 4]
  | map {n : Nat} {start : List UInt8} (number : Numbered 5 n start) :
      Written (.map (some n)) start
  | openMap : Written (.map none) [openByte 5]
  | tag {n : Nat} {start : List UInt8} (number : Numbered 6 n start) : Written (.tag n) start
  | simple {n : Nat} (small : n < 24) : Written (.simple n) [firstByte 7 n]
  | longSimple (n : UInt8) : Written (.simple n.toNat) [firstByte 7 24, n]
  | float {information : Nat} {encoding : List UInt8}
      (size : (information, encoding.length) ∈ followingSizes) (wide : information ≠ 24) :
      Written (.float encoding) (firstByte 7 information :: encoding)
  | stop : Written .stop [stopByte]

theorem Written.simple_cases {n : Nat} {start : List UInt8} (written : Written (.simple n) start) :
    start = [firstByte 7 n] ∨ start = [firstByte 7 24, UInt8.ofNat n] := by
  generalize same : Head.simple n = head at written
  cases written with
  | simple =>
    cases same
    exact .inl rfl
  | longSimple number =>
    cases same
    exact .inr (by rw [UInt8.ofNat_toNat])
  | _ => cases same

/-- The bytes of an argument, which the additional information announces. -/
inductive Announced (information : Nat) : Argument → List UInt8 → Prop
  | immediate (small : information < 24) : Announced information (.immediate information) []
  | following {encoding : List UInt8} (size : (information, encoding.length) ∈ followingSizes) :
      Announced information (.following encoding) encoding
  | indefinite (open' : information = 31) : Announced information .indefinite []

private theorem announced_of_argument {information : Nat} (short : information < 32)
    {input rest : List UInt8} {found : Argument}
    (accepted : argument information input = .ok (found, rest)) :
    ∃ bytes, Announced information found bytes ∧ input = bytes ++ rest := by
  have following (count : Nat) (size : (information, count) ∈ followingSizes)
      (accepted : (take count input >>= fun taken =>
        pure (Argument.following taken.1, taken.2)) = .ok (found, rest)) :
      ∃ bytes, Announced information found bytes ∧ input = bytes ++ rest := by
    obtain ⟨⟨encoding, behind⟩, taken, same⟩ := bind_eq_ok.1 accepted
    obtain ⟨rfl, rfl⟩ := Prod.mk.inj (pure_eq_ok.1 same)
    obtain ⟨length, rfl⟩ := take_eq_ok taken
    exact ⟨encoding, .following (length ▸ size), rfl⟩
  unfold argument at accepted
  dsimp only at accepted
  split at accepted
  next => exact following 1 (by decide) accepted
  next => exact following 2 (by decide) accepted
  next => exact following 4 (by decide) accepted
  next => exact following 8 (by decide) accepted
  next => exact absurd accepted throw_ne_ok
  next => exact absurd accepted throw_ne_ok
  next => exact absurd accepted throw_ne_ok
  next =>
    obtain ⟨rfl, rfl⟩ := Prod.mk.inj (pure_eq_ok.1 accepted)
    exact ⟨[], .indefinite rfl, rfl⟩
  next =>
    obtain ⟨rfl, rfl⟩ := Prod.mk.inj (pure_eq_ok.1 accepted)
    have small : information < 24 := by grind
    exact ⟨[], .immediate small, rfl⟩

private theorem written_numbered {major n : Nat} {start : List UInt8} (known : major < 7)
    (number : Numbered major n start) : Written (numbered major n) start := by
  match major with
  | 0 => exact .unsigned number
  | 1 => exact .negative number
  | 2 => exact .bytes number
  | 3 => exact .text number
  | 4 => exact .array number
  | 5 => exact .map number
  | 6 => exact .tag number
  | _ + 7 => omega

private theorem written_open {major : Nat} (known : major < 7) {head : Head}
    (assembled : assemble? major .indefinite = some head) : Written head [openByte major] := by
  match major with
  | 0 | 1 | 6 => cases assembled
  | 2 => cases assembled; exact .openBytes
  | 3 => cases assembled; exact .openText
  | 4 => cases assembled; exact .openArray
  | 5 => cases assembled; exact .openMap
  | _ + 7 => omega

/-- The last major type holds what is no number. -/
private theorem written_last {information : Nat} {found : Argument} {bytes : List UInt8}
    (announced : Announced information found bytes) {head : Head}
    (assembled : assemble? 7 found = some head) :
    Written head (firstByte 7 information :: bytes) := by
  cases announced with
  | immediate small =>
    cases assembled
    exact .simple small
  | following size =>
    match bytes with
    | [] => simp [followingSizes] at size
    | [b] =>
      have short : information = 24 := by simpa [followingSizes] using size
      cases assembled
      exact short ▸ .longSimple b
    | _ :: _ :: _ =>
      have wide : information ≠ 24 := by
        rintro rfl
        simp [followingSizes] at size
      cases assembled
      exact .float size wide
  | indefinite isOpen =>
    cases assembled
    exact isOpen ▸ .stop

private theorem written_of_assemble? {major information : Nat} (known : major < 8)
    {found : Argument}
    {bytes : List UInt8} (announced : Announced information found bytes) {head : Head}
    (assembled : assemble? major found = some head) :
    Written head (firstByte major information :: bytes) := by
  by_cases last : major = 7
  · subst last
    exact written_last announced assembled
  · have small : major < 7 := by omega
    cases announced with
    | immediate short =>
      rw [assemble?_numbered small rfl] at assembled
      exact Option.some.inj assembled ▸ written_numbered small (.immediate short)
    | following size =>
      rw [assemble?_numbered small (Argument.number?_following bytes)] at assembled
      exact Option.some.inj assembled ▸ written_numbered small (.following size)
    | indefinite isOpen => exact isOpen ▸ written_open small assembled

private theorem written_of_read {input rest : List UInt8} {head : Head}
    (accepted : read input = .ok (head, rest)) :
    ∃ start, Written head start ∧ input = start ++ rest := by
  cases input with
  | nil => cases accepted
  | cons first input =>
    obtain ⟨⟨found, behind⟩, argued, accepted⟩ := bind_eq_ok.1 accepted
    obtain ⟨bytes, announced, rfl⟩ := announced_of_argument (Nat.mod_lt _ (by decide)) argued
    dsimp only at accepted
    split at accepted
    next head' assembled =>
      obtain ⟨rfl, rfl⟩ := Prod.mk.inj (pure_eq_ok.1 accepted)
      have small : first.toNat / 32 < 8 := by
        have := first.toNat_lt
        omega
      have written := written_of_assemble? small announced assembled
      rw [firstByte_div_mod] at written
      exact ⟨first :: bytes, written, rfl⟩
    next => exact absurd accepted throw_ne_ok

end Head

namespace Reader

section strings

variable {α : Type}

/-- Only what is written for strings of the form is taken for one. -/
structure StringForm.Exact (form : StringForm α) (major : Nat) (head : Option Nat → Head)
    (write : α → List UInt8) : Prop where
  announced : ∀ {other length}, form.length? other = some length → other = head length
  definite : ∀ {n start}, Head.Written (head (some n)) start → Numbered major n start
  indefinite : ∀ {start}, Head.Written (head none) start → start = [openByte major]
  content : ∀ {place length input s rest}, form.content place length input = .ok (s, rest) →
    length = (write s).length ∧ input = write s ++ rest

private theorem byteString_exact : byteString.Exact 2 .bytes id where
  announced {other _} found := by cases other <;> cases found; rfl
  definite written := by cases written; assumption
  indefinite written := by cases written; rfl
  content accepted := by
    obtain ⟨size, same⟩ := take_eq_ok accepted
    exact ⟨size.symm, same⟩

private theorem textString_exact : textString.Exact 3 .text Utf8.encode where
  announced {other _} found := by cases other <;> cases found; rfl
  definite written := by cases written; assumption
  indefinite written := by cases written; rfl
  content {place length input s rest} accepted := by
    dsimp only [textString] at accepted
    split at accepted
    next enough =>
      split at accepted
      next found =>
        obtain ⟨rfl, rfl⟩ := Prod.mk.inj (Except.ok.inj accepted)
        have taken := Utf8.decode?_eq_some_iff.1 found
        rw [← taken]
        exact ⟨(List.length_take_of_le enough).symm, (List.take_append_drop length input).symm⟩
      next => cases accepted
    next => cases accepted

variable {form : StringForm α} {major : Nat} {head : Option Nat → Head} {write : α → List UInt8}

/-- Segments up to the break that ends the outermost of so many nested strings. -/
inductive Closing (major : Nat) (write : α → List UInt8) : Nat → List α → List UInt8 → Prop
  | last {parts : List α} {body : List UInt8} (inner : Segments major write parts body) :
      Closing major write 0 parts (body ++ [stopByte])
  | next {nested : Nat} {parts others : List α} {body rest : List UInt8}
      (inner : Segments major write parts body) (outer : Closing major write nested others rest) :
      Closing major write (nested + 1) (parts ++ others) (body ++ stopByte :: rest)

theorem Closing.definite {nested : Nat} {s : α} {parts : List α} {start body : List UInt8}
    (number : Numbered major (write s).length start)
    (closing : Closing major write nested parts body) :
    Closing major write nested (s :: parts) (start ++ write s ++ body) := by
  cases closing with
  | last inner =>
    rw [← List.append_assoc]
    exact .last (.definite number inner)
  | next inner outer =>
    rw [← List.append_assoc]
    exact .next (.definite number inner) outer

theorem Closing.nested {nested : Nat} {parts : List α} {body : List UInt8}
    (closing : Closing major write (nested + 1) parts body) :
    Closing major write nested parts (openByte major :: body) := by
  cases closing with
  | @next _ parts others inside rest inner outer =>
    cases outer with
    | last outer =>
      have whole := Closing.last (.nested inner outer)
      simpa only [List.cons_append, List.append_assoc] using whole
    | next outer closing =>
      have whole := Closing.next (.nested inner outer) closing
      simpa only [List.cons_append, List.append_assoc] using whole

private theorem closing_of_segments (exact' : form.Exact major head write) {bound nested : Nat}
    {input rest : List UInt8} {parts : List α}
    (accepted : segments form bound nested input = .ok (parts, rest)) :
    ∃ bytes, Closing major write nested parts bytes ∧ input = bytes ++ rest := by
  induction bound generalizing nested input parts with
  | zero => cases accepted
  | succ bound ih =>
    obtain ⟨⟨found, behind⟩, read, body⟩ := bind_eq_ok.1 accepted
    obtain ⟨start, written, rfl⟩ := Head.written_of_read read
    dsimp only at body
    split at body
    next =>
      obtain ⟨rfl, rfl⟩ := Prod.mk.inj (pure_eq_ok.1 body)
      cases written
      exact ⟨[stopByte], .last .nil, rfl⟩
    next nested =>
      obtain ⟨bytes, closing, rfl⟩ := ih body
      cases written
      exact ⟨stopByte :: bytes, .next .nil closing, rfl⟩
    next =>
      split at body
      next => exact absurd body throw_ne_ok
      next announced =>
        obtain rfl := exact'.announced announced
        obtain rfl := exact'.indefinite written
        obtain ⟨bytes, closing, rfl⟩ := ih body
        exact ⟨openByte major :: bytes, closing.nested, rfl⟩
      next length announced =>
        obtain rfl := exact'.announced announced
        obtain ⟨⟨first, middle⟩, content, body⟩ := bind_eq_ok.1 body
        obtain ⟨⟨others, last⟩, more, body⟩ := bind_eq_ok.1 body
        obtain ⟨rfl, rfl⟩ := Prod.mk.inj (pure_eq_ok.1 body)
        obtain ⟨rfl, rfl⟩ := exact'.content content
        obtain ⟨bytes, closing, rfl⟩ := ih more
        refine ⟨_, closing.definite (exact'.definite written), ?_⟩
        simp only [List.append_assoc]

private theorem segments_of_string (exact' : form.Exact major head write) {input rest : List UInt8}
    {s : α} (accepted : string form none input = .ok (s, rest)) :
    ∃ parts body, Segments major write parts body ∧ s = form.join parts ∧
      input = body ++ stopByte :: rest := by
  obtain ⟨⟨parts, behind⟩, read, accepted⟩ := bind_eq_ok.1 accepted
  obtain ⟨rfl, rfl⟩ := Prod.mk.inj (pure_eq_ok.1 accepted)
  obtain ⟨bytes, closing, rfl⟩ := closing_of_segments exact' read
  cases closing with
  | @last _ body inner => exact ⟨parts, body, inner, rfl, by simp⟩

end strings

section sequences

variable {α : Type}

/-- Whatever the reader takes off the front of its input is good for what it reads. -/
def Takes (read : Reader α) (good : α → List UInt8 → Prop) : Prop :=
  ∀ {input first rest}, read input = .ok (first, rest) →
    ∃ bytes, good first bytes ∧ input = bytes ++ rest

variable {read : Reader α} {good : α → List UInt8 → Prop}

private theorem pieces_of_times (sound : Takes read good) {count : Nat} {input rest : List UInt8}
    {found : List α} (accepted : times read count input = .ok (found, rest)) :
    ∃ pieces : List (α × List UInt8), (∀ p ∈ pieces, good p.1 p.2) ∧ pieces.length = count ∧
      found = pieces.map Prod.fst ∧ input = pieces.flatMap Prod.snd ++ rest := by
  induction count generalizing input found with
  | zero =>
    cases accepted
    exact ⟨[], by simp, rfl, rfl, rfl⟩
  | succ count ih =>
    obtain ⟨⟨first, middle⟩, head, accepted⟩ := bind_eq_ok.1 accepted
    obtain ⟨⟨others, last⟩, tail, accepted⟩ := bind_eq_ok.1 accepted
    obtain ⟨rfl, rfl⟩ := Prod.mk.inj (pure_eq_ok.1 accepted)
    obtain ⟨bytes, holds, rfl⟩ := sound head
    obtain ⟨pieces, hold, rfl, rfl, rfl⟩ := ih tail
    exact ⟨(first, bytes) :: pieces, List.forall_mem_cons.2 ⟨holds, hold⟩, rfl, rfl, by simp⟩

private theorem pieces_of_untilStop (sound : Takes read good) {bound : Nat}
    {input rest : List UInt8}
    {found : List α} (accepted : untilStop read bound input = .ok (found, rest)) :
    ∃ pieces : List (α × List UInt8), (∀ p ∈ pieces, good p.1 p.2) ∧
      found = pieces.map Prod.fst ∧ input = pieces.flatMap Prod.snd ++ stopByte :: rest := by
  induction bound generalizing input found with
  | zero => cases accepted
  | succ bound ih =>
    obtain ⟨⟨start, behind⟩, starts, accepted⟩ := bind_eq_ok.1 accepted
    dsimp only at accepted
    split at accepted
    next same =>
      obtain ⟨rfl, rfl⟩ := Prod.mk.inj (pure_eq_ok.1 accepted)
      obtain ⟨rfl, rfl⟩ := Prod.mk.inj same
      obtain ⟨bytes, written, rfl⟩ := Head.written_of_read starts
      cases written
      exact ⟨[], by simp, rfl, rfl⟩
    next =>
      -- A head that is no break is read again as the start of the next piece.
      obtain ⟨⟨first, middle⟩, head, accepted⟩ := bind_eq_ok.1 accepted
      obtain ⟨⟨others, last⟩, tail, accepted⟩ := bind_eq_ok.1 accepted
      obtain ⟨rfl, rfl⟩ := Prod.mk.inj (pure_eq_ok.1 accepted)
      obtain ⟨bytes, holds, same⟩ := sound head
      obtain ⟨pieces, hold, rfl, rfl⟩ := ih tail
      refine ⟨(first, bytes) :: pieces, List.forall_mem_cons.2 ⟨holds, hold⟩, rfl, ?_⟩
      rw [same, List.flatMap_cons, List.append_assoc]

private theorem takes_pair (sound : Takes read good) :
    Takes (pair read) fun entry bytes =>
      ∃ first second, good entry.1 first ∧ good entry.2 second ∧ bytes = first ++ second := by
  intro input entry rest accepted
  obtain ⟨⟨key, middle⟩, head, accepted⟩ := bind_eq_ok.1 accepted
  obtain ⟨⟨value, last⟩, tail, accepted⟩ := bind_eq_ok.1 accepted
  obtain ⟨rfl, rfl⟩ := Prod.mk.inj (pure_eq_ok.1 accepted)
  obtain ⟨first, holdsKey, rfl⟩ := sound head
  obtain ⟨second, holdsValue, rfl⟩ := sound tail
  exact ⟨first ++ second, ⟨first, second, holdsKey, holdsValue, rfl⟩, by simp⟩

end sequences

/-- Pieces that hold an entry each are made of the pieces of the keys and of the values. -/
private theorem exists_entryPieces {good : Item → List UInt8 → Prop}
    {pieces : List ((Item × Item) × List UInt8)}
    (each : ∀ p ∈ pieces, ∃ first second, good p.1.1 first ∧ good p.1.2 second ∧
      p.2 = first ++ second) :
    ∃ entries, pieces = entryPieces entries ∧
      ∀ p ∈ entries, good p.1.1 p.1.2 ∧ good p.2.1 p.2.2 := by
  induction pieces with
  | nil => exact ⟨[], rfl, by simp⟩
  | cons piece pieces ih =>
    obtain ⟨⟨first, second, holdsKey, holdsValue, same⟩, tail⟩ := List.forall_mem_cons.1 each
    obtain ⟨entries, rfl, hold⟩ := ih tail
    obtain ⟨⟨key, value⟩, bytes⟩ := piece
    dsimp only at same
    subst same
    exact ⟨((key, first), (value, second)) :: entries, rfl,
      List.forall_mem_cons.2 ⟨⟨holdsKey, holdsValue⟩, hold⟩⟩

/-- What an item that is read is written as, and that it is not too deep. -/
def Fits (levels : Nat) (it : Item) (bytes : List UInt8) : Prop :=
  Encodes it bytes ∧ it.height < levels

variable {levels : Nat} {start input rest : List UInt8}

private theorem fits_array (sound : Takes (item levels) (Fits levels)) {length : Option Nat}
    (written : Head.Written (.array length) start) {items : List Item}
    (accepted : sequence (item levels) length input = .ok (items, rest)) :
    ∃ bytes, Fits (levels + 1) (.array items) (start ++ bytes) ∧ input = bytes ++ rest := by
  cases length with
  | some n =>
    cases written with
    | array head =>
      obtain ⟨pieces, each, rfl, rfl, rfl⟩ := pieces_of_times sound accepted
      refine ⟨_, ⟨.array head fun p member => (each p member).1, ?_⟩, rfl⟩
      refine Nat.lt_succ_of_le (Item.height_array_le ?_)
      rw [List.forall_mem_map]
      exact fun p member => (each p member).2
  | none =>
    cases written with
    | openArray =>
      obtain ⟨pieces, each, rfl, rfl⟩ := pieces_of_untilStop sound accepted
      refine ⟨pieces.flatMap Prod.snd ++ [stopByte],
        ⟨.openArray fun p member => (each p member).1, ?_⟩, by simp⟩
      refine Nat.lt_succ_of_le (Item.height_array_le ?_)
      rw [List.forall_mem_map]
      exact fun p member => (each p member).2

private theorem fits_map (sound : Takes (item levels) (Fits levels)) {length : Option Nat}
    (written : Head.Written (.map length) start) {entries : List (Item × Item)}
    (accepted : sequence (pair (item levels)) length input = .ok (entries, rest)) :
    ∃ bytes, Fits (levels + 1) (.map entries) (start ++ bytes) ∧ input = bytes ++ rest := by
  have bounded {pieces : List ((Item × List UInt8) × (Item × List UInt8))}
      (each : ∀ p ∈ pieces, Fits levels p.1.1 p.1.2 ∧ Fits levels p.2.1 p.2.2) :
      (Item.map (pieces.map fun p => (p.1.1, p.2.1))).height < levels + 1 := by
    refine Nat.lt_succ_of_le (Item.height_map_le ?_)
    rw [List.forall_mem_map]
    exact fun p member => ⟨(each p member).1.2, (each p member).2.2⟩
  cases length with
  | some n =>
    cases written with
    | map head =>
      obtain ⟨pieces, each, rfl, rfl, rfl⟩ := pieces_of_times (takes_pair sound) accepted
      obtain ⟨pieces, rfl, fit⟩ := exists_entryPieces each
      have encoded := Encodes.map (by simpa [entryPieces] using head)
        (fun p member => (fit p member).1.1) (fun p member => (fit p member).2.1)
      refine ⟨_, ⟨?_, ?_⟩, rfl⟩
      · simpa only [entryPieces, List.map_map, List.flatMap_map, Function.comp_def] using encoded
      · simpa only [entryPieces, List.map_map, Function.comp_def] using bounded fit
  | none =>
    cases written with
    | openMap =>
      obtain ⟨pieces, each, rfl, rfl⟩ := pieces_of_untilStop (takes_pair sound) accepted
      obtain ⟨pieces, rfl, fit⟩ := exists_entryPieces each
      have encoded := Encodes.openMap
        (fun p member => (fit p member).1.1) (fun p member => (fit p member).2.1)
      refine ⟨(entryPieces pieces).flatMap Prod.snd ++ [stopByte], ⟨?_, ?_⟩, by simp⟩
      · simpa only [entryPieces, List.map_map, List.flatMap_map, Function.comp_def,
          List.cons_append, List.nil_append] using encoded
      · simpa only [entryPieces, List.map_map, Function.comp_def] using bounded fit

private theorem takes_item (levels : Nat) : Takes (item levels) (Fits levels) := by
  induction levels with
  | zero =>
    intro input it rest accepted
    cases accepted
  | succ levels ih =>
    intro input it rest accepted
    have flat {it : Item} {bytes : List UInt8} (encoded : Encodes it bytes)
        (low : it.height = 0) : Fits (levels + 1) it bytes := ⟨encoded, by omega⟩
    obtain ⟨⟨head, behind⟩, read, body⟩ := bind_eq_ok.1 accepted
    obtain ⟨start, written, rfl⟩ := Head.written_of_read read
    dsimp only at body
    split at body
    next n =>
      obtain ⟨rfl, rfl⟩ := Prod.mk.inj (pure_eq_ok.1 body)
      cases written with
      | unsigned number => exact ⟨start, flat (.unsigned number) rfl, rfl⟩
    next n =>
      obtain ⟨rfl, rfl⟩ := Prod.mk.inj (pure_eq_ok.1 body)
      cases written with
      | negative number => exact ⟨start, flat (.negative number) rfl, rfl⟩
    next length =>
      obtain ⟨⟨content, last⟩, inside, same⟩ := map_eq_ok.1 body
      obtain ⟨rfl, rfl⟩ := Prod.mk.inj same
      cases written with
      | bytes number =>
        obtain ⟨rfl, rfl⟩ := byteString_exact.content inside
        exact ⟨start ++ content, flat (.bytes number) rfl, by simp⟩
      | openBytes =>
        obtain ⟨parts, body, inner, rfl, rfl⟩ := segments_of_string byteString_exact inside
        exact ⟨_, flat (.openBytes inner) rfl, by simp⟩
    next length =>
      obtain ⟨⟨content, last⟩, inside, same⟩ := map_eq_ok.1 body
      obtain ⟨rfl, rfl⟩ := Prod.mk.inj same
      cases written with
      | text number =>
        obtain ⟨rfl, rfl⟩ := textString_exact.content inside
        exact ⟨start ++ Utf8.encode content, flat (.text number) rfl, by simp⟩
      | openText =>
        obtain ⟨parts, body, inner, rfl, rfl⟩ := segments_of_string textString_exact inside
        exact ⟨_, flat (.openText inner) rfl, by simp⟩
    next length =>
      obtain ⟨⟨items, last⟩, inside, same⟩ := map_eq_ok.1 body
      obtain ⟨rfl, rfl⟩ := Prod.mk.inj same
      obtain ⟨bytes, fits, rfl⟩ := fits_array ih written inside
      exact ⟨start ++ bytes, fits, by simp⟩
    next length =>
      obtain ⟨⟨entries, last⟩, inside, same⟩ := map_eq_ok.1 body
      obtain ⟨rfl, rfl⟩ := Prod.mk.inj same
      obtain ⟨bytes, fits, rfl⟩ := fits_map ih written inside
      exact ⟨start ++ bytes, fits, by simp⟩
    next number =>
      obtain ⟨⟨content, last⟩, inside, same⟩ := map_eq_ok.1 body
      obtain ⟨rfl, rfl⟩ := Prod.mk.inj same
      obtain ⟨bytes, ⟨encoded, shallow⟩, rfl⟩ := ih inside
      cases written with
      | tag number =>
        exact ⟨start ++ bytes, ⟨.tag number encoded, Nat.succ_lt_succ shallow⟩, by simp⟩
    next =>
      obtain ⟨rfl, rfl⟩ := Prod.mk.inj (pure_eq_ok.1 body)
      rcases written.simple_cases with rfl | rfl
      · exact ⟨_, flat (.bool false) rfl, rfl⟩
      · exact ⟨_, flat (.longBool false) rfl, rfl⟩
    next =>
      obtain ⟨rfl, rfl⟩ := Prod.mk.inj (pure_eq_ok.1 body)
      rcases written.simple_cases with rfl | rfl
      · exact ⟨_, flat (.bool true) rfl, rfl⟩
      · exact ⟨_, flat (.longBool true) rfl, rfl⟩
    next =>
      obtain ⟨rfl, rfl⟩ := Prod.mk.inj (pure_eq_ok.1 body)
      rcases written.simple_cases with rfl | rfl
      · exact ⟨_, flat .null rfl, rfl⟩
      · exact ⟨_, flat .longNull rfl, rfl⟩
    next => exact absurd body throw_ne_ok
    next encoding =>
      obtain ⟨rfl, rfl⟩ := Prod.mk.inj (pure_eq_ok.1 body)
      cases written with
      | float size wide => exact ⟨_, flat (.float size wide) rfl, rfl⟩
    next => exact absurd body throw_ne_ok

end Reader

/-- An item is read off the front of the input exactly where a well-formed encoding of it, not too
deep, lies there. -/
theorem read_eq_ok {input rest : List UInt8} {item : Item} :
    read input = .ok (item, rest) ↔
      ∃ bytes, Encodes item bytes ∧ item.height ≤ maxDepth ∧ input = bytes ++ rest := by
  constructor
  · intro accepted
    have found : Reader.item (maxDepth + 1) input = .ok (item, rest) := mapError_eq_ok.1 accepted
    obtain ⟨bytes, ⟨encoded, shallow⟩, same⟩ := Reader.takes_item _ found
    exact ⟨bytes, encoded, Nat.le_of_lt_succ shallow, same⟩
  · rintro ⟨bytes, encoded, shallow, rfl⟩
    exact read_of_encodes encoded shallow rest

/-- No two well-formed encodings begin alike. -/
theorem Encodes.unique {item item' : Item} {bytes bytes' rest rest' : List UInt8}
    (encoded : Encodes item bytes) (encoded' : Encodes item' bytes')
    (same : bytes ++ rest = bytes' ++ rest') : item = item' ∧ bytes = bytes' := by
  have enough : item.height < item.height + item'.height + 1 := by omega
  have enough' : item'.height < item.height + item'.height + 1 := by omega
  have first := Reader.item_of_encodes encoded _ enough rest
  have second := Reader.item_of_encodes encoded' _ enough' rest'
  rw [same, second] at first
  obtain ⟨rfl, rfl⟩ := Prod.mk.inj (Except.ok.inj first)
  exact ⟨rfl, List.append_cancel_right same⟩

/-- What the reader accepts is the grammar. The number of bytes that it takes is the length of the
encoding, there is only one item and one such number, and where the windows end in which text is
read makes no difference. -/
theorem read_grammar (input : List UInt8) :
    (∀ item count, (read input).map (fun (item, rest) => (item, input.length - rest.length)) =
        .ok (item, count) ↔
      count ≤ input.length ∧ Encodes item (input.take count) ∧ item.height ≤ 256) ∧
    (∀ item item' count count', count ≤ input.length → count' ≤ input.length →
      Encodes item (input.take count) → Encodes item' (input.take count') →
        item = item' ∧ count = count') ∧
    ∀ place length, Reader.windows 4096 place [] length input =
        Reader.textString.content place length input ∧
      ∀ size, 4 ≤ size → length ≤ input.length → Reader.windows size place [] length input =
        Reader.textString.content place length input := by
  refine ⟨?accepts, ?unique, ?windows⟩
  case accepts =>
    intro item count
    constructor
    · intro accepted
      obtain ⟨⟨found, rest⟩, first, same⟩ := map_eq_ok.1 accepted
      obtain ⟨rfl, rfl⟩ := Prod.mk.inj same
      obtain ⟨bytes, encoded, shallow, rfl⟩ := read_eq_ok.1 first
      rw [List.length_append, Nat.add_sub_cancel, List.take_left]
      exact ⟨Nat.le_add_right _ _, encoded, shallow⟩
    · rintro ⟨inside, encoded, shallow⟩
      have accepted : read input = .ok (item, input.drop count) :=
        read_eq_ok.2 ⟨_, encoded, shallow, (List.take_append_drop count input).symm⟩
      have taken : input.length - (input.drop count).length = count := by
        rw [List.length_drop]
        omega
      rw [accepted]
      simp only [Except.map, taken]
  case unique =>
    intro item item' count count' inside inside' encoded encoded'
    have same : input.take count ++ input.drop count = input.take count' ++ input.drop count' := by
      rw [List.take_append_drop, List.take_append_drop]
    obtain ⟨rfl, bytes⟩ := encoded.unique encoded' same
    have lengths := congrArg List.length bytes
    rw [List.length_take_of_le inside, List.length_take_of_le inside'] at lengths
    exact ⟨rfl, lengths⟩
  case windows =>
    intro place length
    exact ⟨Reader.windows_eq place length input,
      fun size wide enough => Reader.windows_eq_of_enough wide place enough⟩

/-- The heads of the number and of the string take two bytes each behind the first, and the reader
looks at them for a break before it reads them. -/
theorem read_grammar_wide :
    (read [0x9f, 0x19, 1, 0, 0x59, 0, 2, 0x61, 0x62, 0xff, 0]).map
        (fun (item, rest) => (item, 11 - rest.length)) =
      .ok (.array [.integer 256, .bytes [0x61, 0x62]], 10) := by
  have number : Encodes (.integer 256) [0x19, 1, 0] :=
    .unsigned (@Numbered.following 0 25 [1, 0] (by decide))
  have length : Numbered 2 2 [0x59, 0, 2] := @Numbered.following 2 25 [0, 2] (by decide)
  have string : Encodes (.bytes [0x61, 0x62]) [0x59, 0, 2, 0x61, 0x62] :=
    @Encodes.bytes [0x61, 0x62] _ length
  have pieces : ∀ p ∈ [(Item.integer 256, ([0x19, 1, 0] : List UInt8)),
      (.bytes [0x61, 0x62], [0x59, 0, 2, 0x61, 0x62])], Encodes p.1 p.2 := by
    simpa using ⟨number, string⟩
  exact ((read_grammar [0x9f, 0x19, 1, 0, 0x59, 0, 2, 0x61, 0x62, 0xff, 0]).1 _ 10).2
    ⟨by decide, .openArray pieces, by decide⟩

end CadenceWire.Cbor
