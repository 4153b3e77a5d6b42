import CadenceWire.Proofs.Cbor.Grammar

/-!
Which items can be written at all: those whose numbers fit the arguments of heads. However long
strings and arrays are, they can be written with an indefinite length.
-/
namespace CadenceWire.Cbor

/-- The numbers in the item fit the arguments of heads. -/
def Item.Encodable : Item → Prop
  | .integer n => -Width.w64.count ≤ n ∧ n < Width.w64.count
  | .float encoding => ∃ information ≠ 24, (information, encoding.length) ∈ followingSizes
  | .tag number content => number < Width.w64.count ∧ content.Encodable
  | .array items => allEncodable items
  | .map entries => pairsEncodable entries
  | _ => True
where
  allEncodable : List Item → Prop
    | [] => True
    | item :: rest => item.Encodable ∧ allEncodable rest
  pairsEncodable : List (Item × Item) → Prop
    | [] => True
    | (key, value) :: rest => key.Encodable ∧ value.Encodable ∧ pairsEncodable rest

theorem Item.encodable_array {items : List Item} :
    (Item.array items).Encodable ↔ ∀ item ∈ items, item.Encodable := by
  simp only [Item.Encodable]
  induction items with
  | nil => simp [Item.Encodable.allEncodable]
  | cons item items ih => simp [Item.Encodable.allEncodable, ih]

theorem Item.encodable_map {entries : List (Item × Item)} :
    (Item.map entries).Encodable ↔
      (∀ entry ∈ entries, entry.1.Encodable) ∧ ∀ entry ∈ entries, entry.2.Encodable := by
  simp only [Item.Encodable]
  induction entries with
  | nil => simp [Item.Encodable.pairsEncodable]
  | cons entry entries ih =>
    simp only [Item.Encodable.pairsEncodable, ih, List.forall_mem_cons]
    exact ⟨fun ⟨key, value, keys, values⟩ => ⟨⟨key, keys⟩, value, values⟩,
      fun ⟨⟨key, keys⟩, value, values⟩ => ⟨key, value, keys, values⟩⟩

/-- Any number of bytes denotes any number that is small enough. -/
theorem exists_denoted (count : Nat) : ∀ n < 1 <<< (8 * count),
    ∃ content, content.length = count ∧ denoted content = n := by
  induction count with
  | zero =>
    intro n small
    exact ⟨[], rfl, by rw [denoted_nil]; omega⟩
  | succ count ih =>
    intro n small
    rw [Nat.mul_succ, Nat.shiftLeft_add] at small
    obtain ⟨content, length, front⟩ := ih (n / 256) (by omega)
    refine ⟨content ++ [UInt8.ofNat (n % 256)], by simp [length], ?_⟩
    rw [denoted_concat, front, UInt8.toNat_ofNat']
    omega

private theorem exists_numbered (major : Nat) {n : Nat} (small : n < Width.w64.count) :
    ∃ start, Numbered major n start := by
  obtain ⟨content, length, rfl⟩ := exists_denoted 8 n small
  have size : (27, content.length) ∈ followingSizes := by simp [length, followingSizes]
  exact ⟨_, .following size⟩

/-- A string that falls into small parts can be written part by part. -/
theorem exists_segments {α : Type} (major : Nat) {write : α → List UInt8} (parts : List α)
    (short : ∀ s ∈ parts, (write s).length < 24) : ∃ body, Segments major write parts body := by
  induction parts with
  | nil => exact ⟨[], .nil⟩
  | cons s parts ih =>
    obtain ⟨first, others⟩ := List.forall_mem_cons.1 short
    obtain ⟨body, tail⟩ := ih others
    exact ⟨_, .definite (.immediate first) tail⟩

private theorem length_encode_singleton (c : Char) :
    (Utf8.encode (String.singleton c)).length < 24 := by
  have size := c.utf8Size_le_four
  have length : (Utf8.encode (String.singleton c)).length = (String.singleton c).utf8ByteSize := rfl
  rw [length, String.utf8ByteSize_singleton]
  omega

private theorem join_singleton (letters : List Char) :
    String.join (letters.map String.singleton) = String.ofList letters := by
  induction letters with
  | nil => rfl
  | cons c letters ih =>
    rw [List.map_cons, String.join_cons, ih, String.ofList_cons]

private theorem exists_pieces {items : List Item}
    (each : ∀ item ∈ items, ∃ bytes, Encodes item bytes) :
    ∃ pieces : List (Item × List UInt8), pieces.map Prod.fst = items ∧
      ∀ p ∈ pieces, Encodes p.1 p.2 := by
  induction items with
  | nil => exact ⟨[], rfl, by simp⟩
  | cons item items ih =>
    obtain ⟨⟨bytes, first⟩, others⟩ := List.forall_mem_cons.1 each
    obtain ⟨pieces, rfl, inner⟩ := ih others
    exact ⟨(item, bytes) :: pieces, rfl, List.forall_mem_cons.2 ⟨first, inner⟩⟩

private theorem exists_entryPieces {entries : List (Item × Item)}
    (keys : ∀ entry ∈ entries, ∃ bytes, Encodes entry.1 bytes)
    (values : ∀ entry ∈ entries, ∃ bytes, Encodes entry.2 bytes) :
    ∃ pieces : List ((Item × List UInt8) × (Item × List UInt8)),
      pieces.map (fun p => (p.1.1, p.2.1)) = entries ∧
        (∀ p ∈ pieces, Encodes p.1.1 p.1.2) ∧ ∀ p ∈ pieces, Encodes p.2.1 p.2.2 := by
  induction entries with
  | nil => exact ⟨[], rfl, by simp, by simp⟩
  | cons entry entries ih =>
    obtain ⟨⟨first, key⟩, keys⟩ := List.forall_mem_cons.1 keys
    obtain ⟨⟨second, value⟩, values⟩ := List.forall_mem_cons.1 values
    obtain ⟨pieces, rfl, inner⟩ := ih keys values
    exact ⟨((entry.1, first), (entry.2, second)) :: pieces, rfl,
      List.forall_mem_cons.2 ⟨key, inner.1⟩, List.forall_mem_cons.2 ⟨value, inner.2⟩⟩

theorem exists_encodes (item : Item) : item.Encodable → ∃ bytes, Encodes item bytes := by
  induction item using itemInduction with
  | step item ih =>
    intro encodable
    cases item with
    | integer n =>
      obtain ⟨low, high⟩ := encodable
      by_cases negative : n < 0
      · obtain ⟨start, head⟩ := exists_numbered 1 (show (-1 - n).toNat < Width.w64.count by omega)
        have same : n = -1 - ((-1 - n).toNat : Int) := by omega
        exact ⟨start, same ▸ .negative head⟩
      · obtain ⟨start, head⟩ := exists_numbered 0 (show n.toNat < Width.w64.count by omega)
        have same : n = (n.toNat : Int) := by omega
        exact ⟨start, same ▸ .unsigned head⟩
    | bytes content =>
      -- Byte by byte, as the length of the whole need not fit the argument of a head.
      obtain ⟨body, inner⟩ : ∃ body, Segments 2 id (content.map ([·])) body :=
        exists_segments 2 _ (by simp)
      have written := Encodes.openBytes inner
      rw [← List.flatMap_def, List.flatMap_singleton'] at written
      exact ⟨_, written⟩
    | text s =>
      obtain ⟨body, inner⟩ : ∃ body, Segments 3 Utf8.encode (s.toList.map String.singleton) body :=
        exists_segments 3 _ (by simp [length_encode_singleton])
      have written := Encodes.openText inner
      rw [join_singleton, String.ofList_toList] at written
      exact ⟨_, written⟩
    | bool b => exact ⟨_, .bool b⟩
    | null => exact ⟨_, .null⟩
    | float encoding =>
      obtain ⟨information, wide, size⟩ := encodable
      exact ⟨_, .float size wide⟩
    | tag number content =>
      obtain ⟨small, encodable⟩ := encodable
      obtain ⟨start, head⟩ := exists_numbered 6 small
      obtain ⟨body, inner⟩ := ih content (Item.sizeOf_lt_tag _ _) encodable
      exact ⟨_, .tag head inner⟩
    | array items =>
      have each := Item.encodable_array.1 encodable
      obtain ⟨pieces, rfl, inner⟩ := exists_pieces fun item member =>
        ih item (Nat.lt_trans (List.sizeOf_lt_of_mem member) (by simp)) (each item member)
      exact ⟨_, .openArray inner⟩
    | map entries =>
      obtain ⟨keys, values⟩ := Item.encodable_map.1 encodable
      have smaller (entry : Item × Item) (member : entry ∈ entries) :
          sizeOf entry.1 < sizeOf (Item.map entries) ∧
            sizeOf entry.2 < sizeOf (Item.map entries) := by
        have inside := List.sizeOf_lt_of_mem member
        obtain ⟨key, value⟩ := entry
        simp at inside ⊢
        omega
      obtain ⟨pieces, rfl, inner⟩ := exists_entryPieces
        (fun entry member => ih entry.1 (smaller entry member).1 (keys entry member))
        (fun entry member => ih entry.2 (smaller entry member).2 (values entry member))
      exact ⟨_, .openMap inner.1 inner.2⟩

theorem encodes_array {items : List Item} {bytes : List (List UInt8)}
    (parts : List.Forall₂ Encodes items bytes) (short : items.length < 24) :
    Encodes (.array items) (firstByte 4 items.length :: bytes.flatten) := by
  obtain ⟨pieces, rfl, rfl, inner⟩ : ∃ pieces : List (Item × List UInt8),
      items = pieces.map Prod.fst ∧ bytes = pieces.map Prod.snd ∧
        ∀ p ∈ pieces, Encodes p.1 p.2 := by
    clear short
    induction parts with
    | nil => exact ⟨[], rfl, rfl, by simp⟩
    | @cons item body _ _ head _ ih =>
      obtain ⟨pieces, rfl, rfl, inner⟩ := ih
      exact ⟨(item, body) :: pieces, rfl, rfl, List.forall_mem_cons.2 ⟨head, inner⟩⟩
  rw [List.length_map] at short ⊢
  exact .array (.immediate short) inner

theorem encodes_pair {left right : Item} {front behind : List UInt8} (first : Encodes left front)
    (second : Encodes right behind) :
    Encodes (.array [left, right]) (firstByte 4 2 :: (front ++ behind)) := by
  have written := encodes_array (.cons first (.cons second .nil)) (Nat.le_add_right 3 21)
  rwa [List.flatten_cons, List.flatten_singleton] at written

theorem encodes_triple {first second third : Item} {front middle behind : List UInt8}
    (one : Encodes first front) (two : Encodes second middle) (three : Encodes third behind) :
    Encodes (.array [first, second, third]) (firstByte 4 3 :: (front ++ (middle ++ behind))) := by
  have written := encodes_array (.cons one (.cons two (.cons three .nil))) (Nat.le_add_right 4 20)
  rwa [List.flatten_cons, List.flatten_cons, List.flatten_singleton] at written

theorem encodes_natural {n : Nat} (small : n < 24) : Encodes (.integer n) [firstByte 0 n] :=
  .unsigned (.immediate small)

theorem encodes_bytes {content : List UInt8} (short : content.length < 24) :
    Encodes (.bytes content) (firstByte 2 content.length :: content) :=
  .bytes (.immediate short)

theorem encodes_text {s : String} (short : (Utf8.encode s).length < 24) :
    Encodes (.text s) (firstByte 3 (Utf8.encode s).length :: Utf8.encode s) :=
  .text (.immediate short)

theorem encodes_tag (number : UInt8) {content : Item} {body : List UInt8}
    (inner : Encodes content body) :
    Encodes (.tag number.toNat content) (firstByte 6 24 :: number :: body) := by
  have size : (24, [number].length) ∈ followingSizes := by simp [followingSizes]
  have head := @Numbered.following 6 24 [number] size
  rw [denoted_singleton] at head
  exact .tag head inner

end CadenceWire.Cbor
