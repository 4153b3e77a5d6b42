import CadenceWire.Proofs.Cbor.Grammar

/-!
Every well-formed encoding of an item is read as that item, so long as it is not too deep.
-/
namespace CadenceWire.Cbor

namespace Reader

section sequences

variable {α : Type} {read : Reader α} {pieces : List (α × List UInt8)}

private theorem times_pieces (each : ∀ p ∈ pieces, ∀ rest, read (p.2 ++ rest) = .ok (p.1, rest))
    (rest : List UInt8) :
    times read pieces.length (pieces.flatMap Prod.snd ++ rest) =
      .ok (pieces.map Prod.fst, rest) := by
  induction pieces with
  | nil => rfl
  | cons piece pieces ih =>
    obtain ⟨head, tail⟩ := List.forall_mem_cons.1 each
    simp only [List.length_cons, times, List.flatMap_cons, List.append_assoc, head, bind,
      Except.bind, ih tail]
    rfl

/-- What is not yet the break begins with some other head. -/
def Starts (input : List UInt8) : Prop :=
  ∃ head behind, Head.read input = .ok (head, behind) ∧ head ≠ .stop

private theorem untilStop_pieces (each : ∀ p ∈ pieces, ∀ rest, read (p.2 ++ rest) = .ok (p.1, rest))
    (starts : ∀ p ∈ pieces, ∀ rest, Starts (p.2 ++ rest)) (rest : List UInt8) {bound : Nat}
    (enough : (pieces.flatMap Prod.snd).length < bound) :
    untilStop read bound (pieces.flatMap Prod.snd ++ stopByte :: rest) =
      .ok (pieces.map Prod.fst, rest) := by
  obtain ⟨bound, rfl⟩ := Nat.exists_eq_add_one_of_ne_zero (Nat.ne_zero_of_lt enough)
  induction pieces generalizing bound with
  | nil => rfl
  | cons piece pieces ih =>
    obtain ⟨head, tail⟩ := List.forall_mem_cons.1 each
    obtain ⟨start, starts⟩ := List.forall_mem_cons.1 starts
    have long : 0 < piece.2.length := by
      obtain ⟨_, _, found, -⟩ := start []
      cases bytes : piece.2 with
      | nil => simp [bytes, Head.read] at found
      | cons => simp
    simp only [List.flatMap_cons, List.length_append] at enough
    simp only [List.flatMap_cons, List.append_assoc]
    obtain ⟨first, behind, found, different⟩ :=
      start (pieces.flatMap Prod.snd ++ stopByte :: rest)
    simp only [untilStop, found, bind, Except.bind]
    split
    next same =>
      cases same
      exact absurd rfl different
    next =>
      cases bound with
      | zero => omega
      | succ bound =>
        have others := ih tail starts bound (by omega)
        simp only [head, others]
        rfl

end sequences

section strings

variable {α : Type}

/-- Strings of the form have heads of the major type, and content that is written so. -/
structure StringForm.Reads (form : StringForm α) (major : Nat) (head : Option Nat → Head)
    (write : α → List UInt8) : Prop where
  known : major < 7
  numbered : ∀ n, Head.numbered major n = head (some n)
  opened : Head.assemble? major .indefinite = some (head none)
  announces : ∀ length, form.length? (head length) = some length
  different : ∀ length, head length ≠ .stop
  takes : ∀ place s rest,
    form.content place (write s).length (write s ++ rest) = .ok (s, rest)

private theorem byteString_reads : byteString.Reads 2 .bytes id where
  known := by decide
  numbered _ := rfl
  opened := rfl
  announces _ := rfl
  different _ := by simp
  takes _ := take_append

private theorem textString_reads : textString.Reads 3 .text Utf8.encode where
  known := by decide
  numbered _ := rfl
  opened := rfl
  announces _ := rfl
  different _ := by simp
  takes place s rest := by simp [textString]

variable {form : StringForm α} {major : Nat} {head : Option Nat → Head} {write : α → List UInt8}

private theorem segments_of_head (reads : form.Reads major head write) {input rest : List UInt8}
    {length : Option Nat} (found : Head.read input = .ok (head length, rest))
    (bound nested : Nat) :
    segments form (bound + 1) nested input =
      match length with
      | none => segments form bound (nested + 1) rest
      | some length => do
        let (first, rest) ← form.content input.length length rest
        let (others, rest) ← segments form bound nested rest
        return (first :: others, rest) := by
  simp only [segments, found, bind, Except.bind]
  split
  next same => exact absurd same (reads.different length)
  next same => exact absurd same (reads.different length)
  next =>
    rw [reads.announces]
    cases length <;> rfl

private theorem segments_append (reads : form.Reads major head write) {parts others : List α}
    {body tail rest : List UInt8} (written : Segments major write parts body) {nested : Nat}
    (behind : ∀ bound, tail.length < bound →
      segments form bound nested tail = .ok (others, rest))
    {bound : Nat} (enough : (body ++ tail).length < bound) :
    segments form bound nested (body ++ tail) = .ok (parts ++ others, rest) := by
  obtain ⟨bound, rfl⟩ := Nat.exists_eq_add_one_of_ne_zero (Nat.ne_zero_of_lt enough)
  -- What lies behind the segments of a nested string is its break and the rest of the outer string,
  -- so the tail varies, and with it what is read from it.
  induction written generalizing nested tail others bound with
  | nil => exact behind _ enough
  | @definite s start body parts numbered _ ih =>
    have found := Head.read_numbered numbered reads.known (write s ++ (body ++ tail))
    rw [reads.numbered] at found
    have long := numbered.length_pos
    simp only [List.append_assoc] at enough ⊢
    simp only [List.length_append] at enough
    rw [segments_of_head reads found]
    cases bound with
    | zero => omega
    | succ bound =>
      have others := ih behind bound (by simp only [List.length_append]; omega)
      simp only [reads.takes, others, bind, Except.bind]
      rfl
  | @nested parts more body body' _ _ inner outer =>
    have found := Head.read_open (Nat.lt_succ_of_lt reads.known) reads.opened
      (body ++ stopByte :: (body' ++ tail))
    simp only [List.cons_append, List.append_assoc] at enough ⊢
    simp only [List.length_cons, List.length_append] at enough
    rw [segments_of_head reads found]
    cases bound with
    | zero => omega
    | succ bound =>
      refine inner ?_ bound (by simp only [List.length_cons, List.length_append]; omega)
      intro bound enough
      obtain ⟨bound, rfl⟩ := Nat.exists_eq_add_one_of_ne_zero (Nat.ne_zero_of_lt enough)
      simp only [List.length_cons] at enough
      simp only [segments, Head.read_stop, bind, Except.bind]
      cases bound with
      | zero => omega
      | succ bound => exact outer behind bound (by omega)

private theorem string_definite (reads : form.Reads major head write) (s : α) (rest : List UInt8) :
    string form (some (write s).length) (write s ++ rest) = .ok (s, rest) :=
  reads.takes _ s rest

private theorem string_open (reads : form.Reads major head write) {parts : List α}
    {body : List UInt8} (written : Segments major write parts body) (rest : List UInt8) :
    string form none (body ++ stopByte :: rest) = .ok (form.join parts, rest) := by
  have read : segments form ((body ++ stopByte :: rest).length + 1) 0 (body ++ stopByte :: rest) =
      .ok (parts ++ [], rest) := by
    refine segments_append reads written ?_ (Nat.lt_succ_self _)
    intro bound enough
    obtain ⟨bound, rfl⟩ := Nat.exists_eq_add_one_of_ne_zero (Nat.ne_zero_of_lt enough)
    rfl
  simp only [string, read, bind, Except.bind, List.append_nil]
  rfl

end strings

/-- Whatever is read as an item begins with a head that is no break. -/
private theorem starts_of_item {levels : Nat} {input : List UInt8} {result : Item × List UInt8}
    (accepted : item levels input = .ok result) : Starts input := by
  cases levels with
  | zero => cases accepted
  | succ levels =>
    obtain ⟨⟨head, behind⟩, found, rest⟩ := bind_eq_ok.1 accepted
    refine ⟨head, behind, found, ?_⟩
    rintro rfl
    cases rest

/-- What becomes of the pieces of a map when each of its entries is taken as one piece. -/
def entryPieces (pieces : List ((Item × List UInt8) × (Item × List UInt8))) :
    List ((Item × Item) × List UInt8) :=
  pieces.map fun p => ((p.1.1, p.2.1), p.1.2 ++ p.2.2)

private theorem pair_entryPieces {read : Reader Item}
    {pieces : List ((Item × List UInt8) × (Item × List UInt8))}
    (keys : ∀ p ∈ pieces, ∀ rest, read (p.1.2 ++ rest) = .ok (p.1.1, rest))
    (values : ∀ p ∈ pieces, ∀ rest, read (p.2.2 ++ rest) = .ok (p.2.1, rest)) :
    ∀ p ∈ entryPieces pieces, ∀ rest, pair read (p.2 ++ rest) = .ok (p.1, rest) := by
  simp only [entryPieces, List.forall_mem_map]
  intro p member rest
  simp only [pair, List.append_assoc, keys p member, values p member, bind, Except.bind]
  rfl

private theorem entries_read {levels : Nat}
    {pieces : List ((Item × List UInt8) × (Item × List UInt8))}
    (enough : (Item.map (pieces.map fun p => (p.1.1, p.2.1))).height < levels + 1)
    (keys : ∀ p ∈ pieces, ∀ levels, p.1.1.height < levels → ∀ rest,
      item levels (p.1.2 ++ rest) = .ok (p.1.1, rest))
    (values : ∀ p ∈ pieces, ∀ levels, p.2.1.height < levels → ∀ rest,
      item levels (p.2.2 ++ rest) = .ok (p.2.1, rest)) :
    (∀ p ∈ pieces, ∀ rest, item levels (p.1.2 ++ rest) = .ok (p.1.1, rest)) ∧
      ∀ p ∈ pieces, ∀ rest, item levels (p.2.2 ++ rest) = .ok (p.2.1, rest) := by
  have inside (p : (Item × List UInt8) × (Item × List UInt8)) (member : p ∈ pieces) :
      p.1.1.height < levels ∧ p.2.1.height < levels := by
    have entry := List.mem_map_of_mem (f := fun p => (p.1.1, p.2.1)) member
    have lower := Item.height_lt_map entry
    dsimp only at lower
    omega
  exact ⟨fun p member => keys p member levels (inside p member).1,
    fun p member => values p member levels (inside p member).2⟩

private theorem head_simple (number : UInt8) (rest : List UInt8) :
    Head.read (firstByte 7 24 :: number :: rest) = .ok (.simple number.toNat, rest) := by
  have announced : Head.argument 24 ([number] ++ rest) = .ok (.following [number], rest) :=
    Head.argument_following (by simp [followingSizes]) rest
  exact Head.read_cons (by decide) (by decide) announced rfl

private theorem head_float {information : Nat} {encoding : List UInt8}
    (size : (information, encoding.length) ∈ followingSizes) (wide : information ≠ 24)
    (rest : List UInt8) :
    Head.read (firstByte 7 information :: (encoding ++ rest)) = .ok (.float encoding, rest) := by
  have announced := Head.argument_following size rest
  simp only [followingSizes, List.mem_cons, Prod.mk.injEq, List.not_mem_nil, or_false] at size
  refine Head.read_cons (by decide) (by omega) announced ?_
  rcases encoding with _ | ⟨_, _ | ⟨_, _⟩⟩
  · simp at size
  · simp at size
    omega
  · rfl

/-- An item is read off the front of the bytes that are written for it, with as many levels at its
disposal as it needs. -/
theorem item_of_encodes {it : Item} {bytes : List UInt8} (written : Encodes it bytes) :
    ∀ levels, it.height < levels → ∀ rest, item levels (bytes ++ rest) = .ok (it, rest) := by
  intro levels enough rest
  induction written generalizing levels rest with
    obtain ⟨levels, rfl⟩ := Nat.exists_eq_add_one_of_ne_zero (Nat.ne_zero_of_lt enough)
  | unsigned head | negative head =>
    simp only [item, Head.read_numbered head (by decide), bind, Except.bind]
    rfl
  | @bytes content start head =>
    have read : string byteString (some content.length) (content ++ rest) = .ok (content, rest) :=
      string_definite byteString_reads content rest
    simp only [List.append_assoc, item, Head.read_numbered head (by decide), Head.numbered, bind,
      Except.bind, read]
    rfl
  | @openBytes parts body inner =>
    have found : Head.read (openByte 2 :: (body ++ stopByte :: rest)) =
        .ok (.bytes none, body ++ stopByte :: rest) := Head.read_open (by decide) rfl _
    simp only [List.cons_append, List.append_assoc, List.nil_append, item, found, bind, Except.bind,
      string_open byteString_reads inner]
    rfl
  | @text s start head =>
    simp only [List.append_assoc, item, Head.read_numbered head (by decide), Head.numbered, bind,
      Except.bind, string_definite textString_reads s rest]
    rfl
  | @openText parts body inner =>
    have found : Head.read (openByte 3 :: (body ++ stopByte :: rest)) =
        .ok (.text none, body ++ stopByte :: rest) := Head.read_open (by decide) rfl _
    simp only [List.cons_append, List.append_assoc, List.nil_append, item, found, bind, Except.bind,
      string_open textString_reads inner]
    rfl
  | @array pieces start head inner ih =>
    have each : ∀ p ∈ pieces, ∀ rest, item levels (p.2 ++ rest) = .ok (p.1, rest) := by
      intro p member
      have inside : p.1.height < _ := Item.height_lt_array (List.mem_map_of_mem member)
      exact ih p member levels (by omega)
    simp only [List.append_assoc, item, Head.read_numbered head (by decide), Head.numbered, bind,
      Except.bind, sequence, times_pieces each rest]
    rfl
  | @openArray pieces inner ih =>
    have each : ∀ p ∈ pieces, ∀ rest, item levels (p.2 ++ rest) = .ok (p.1, rest) := by
      intro p member
      have inside : p.1.height < _ := Item.height_lt_array (List.mem_map_of_mem member)
      exact ih p member levels (by omega)
    have found : Head.read (openByte 4 :: (pieces.flatMap Prod.snd ++ stopByte :: rest)) =
        .ok (.array none, pieces.flatMap Prod.snd ++ stopByte :: rest) :=
      Head.read_open (by decide) rfl _
    have read := untilStop_pieces each (fun p member rest => starts_of_item (each p member rest))
      rest (Nat.lt_succ_of_le (List.sublist_append_left _ (stopByte :: rest)).length_le)
    simp only [List.cons_append, List.append_assoc, List.nil_append, item, found, bind, Except.bind,
      sequence, read]
    rfl
  | @map pieces start head _ _ keys values =>
    have each := pair_entryPieces (entries_read enough keys values).1
      (entries_read enough keys values).2
    have read := times_pieces each rest
    simp only [entryPieces, List.length_map, List.flatMap_map, List.map_map,
      Function.comp_def] at read
    simp only [List.append_assoc, item, Head.read_numbered head (by decide), Head.numbered, bind,
      Except.bind, sequence, read]
    rfl
  | @openMap pieces _ _ keys values =>
    -- The break is looked for in front of entries only, so an entry starts as its key does.
    have each := pair_entryPieces (entries_read enough keys values).1
      (entries_read enough keys values).2
    have starts : ∀ p ∈ entryPieces pieces, ∀ rest, Starts (p.2 ++ rest) := by
      simp only [entryPieces, List.forall_mem_map, List.append_assoc]
      exact fun p member rest =>
        starts_of_item ((entries_read enough keys values).1 p member (p.2.2 ++ rest))
    have found : Head.read
        (openByte 5 :: ((entryPieces pieces).flatMap Prod.snd ++ stopByte :: rest)) =
          .ok (.map none, (entryPieces pieces).flatMap Prod.snd ++ stopByte :: rest) :=
      Head.read_open (by decide) rfl _
    have read := untilStop_pieces each starts rest
      (Nat.lt_succ_of_le (List.sublist_append_left _ (stopByte :: rest)).length_le)
    simp only [entryPieces, List.flatMap_map, List.map_map, Function.comp_def] at found read
    simp only [List.cons_append, List.append_assoc, List.nil_append, item]
    rw [found]
    simp only [bind, Except.bind, sequence, read]
    rfl
  | @tag number start body content head inner ih =>
    have read := ih levels (Nat.lt_of_succ_lt_succ enough) rest
    simp only [List.append_assoc, item, Head.read_numbered head (by decide), Head.numbered, bind,
      Except.bind, read]
    rfl
  | bool b => cases b <;> rfl
  | longBool b =>
    simp only [List.cons_append, List.nil_append, item, head_simple, bind, Except.bind]
    cases b <;> rfl
  | null => rfl
  | longNull =>
    simp only [List.cons_append, List.nil_append, item, head_simple, bind, Except.bind]
    rfl
  | @float information encoding size wide =>
    simp only [List.cons_append, item, head_float size wide, bind, Except.bind]
    rfl

end Reader

/-- The first item of the input is read exactly as far as it goes. -/
theorem read_of_encodes {item : Item} {bytes : List UInt8} (written : Encodes item bytes)
    (shallow : item.height ≤ maxDepth) (rest : List UInt8) :
    read (bytes ++ rest) = .ok (item, rest) := by
  rw [read, Reader.item_of_encodes written _ (Nat.lt_succ_of_le shallow)]
  rfl

end CadenceWire.Cbor
