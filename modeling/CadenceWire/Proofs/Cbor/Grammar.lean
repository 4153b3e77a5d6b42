import CadenceWire.Cbor.Reader
import CadenceWire.Proofs.Reading
import Mathlib.Data.List.Induction
import Mathlib.Data.Nat.Digits.Defs

/-!
The bytes of CBOR items. An item may be written in many ways; the reader takes each of them off the
front of its input, whatever lies behind.
-/
namespace CadenceWire.Cbor

/-- Induction on how much there is of an item. -/
theorem itemInduction {motive : Item → Prop}
    (step : ∀ item, (∀ part, sizeOf part < sizeOf item → motive part) → motive item)
    (item : Item) : motive item :=
  (measure (sizeOf : Item → Nat)).wf.induction item step

theorem Item.sizeOf_lt_tag (number : Nat) (content : Item) :
    sizeOf content < sizeOf (Item.tag number content) := by
  rw [Item.tag.sizeOf_spec]
  omega

def firstByte (major information : Nat) : UInt8 := UInt8.ofNat (32 * major + information)

/-- The head of an item of indefinite length. -/
def openByte (major : Nat) : UInt8 := firstByte major 31

def stopByte : UInt8 := 255

/-- The number that bytes denote, which are its digits in base 256. Digits are counted from the last
byte on. -/
def denoted (bytes : List UInt8) : Nat := Nat.ofDigits 256 (bytes.reverse.map UInt8.toNat)

@[simp] theorem denoted_nil : denoted [] = 0 := rfl

@[simp] theorem denoted_singleton (b : UInt8) : denoted [b] = b.toNat := Nat.ofDigits_singleton

theorem denoted_concat (bytes : List UInt8) (last : UInt8) :
    denoted (bytes ++ [last]) = last.toNat + 256 * denoted bytes := by
  rw [denoted, List.reverse_concat, List.map_cons, Nat.ofDigits_cons, denoted]

theorem bigEndian_concat (bytes : List UInt8) (last : UInt8) :
    bigEndian (bytes ++ [last]) = 256 * bigEndian bytes + last.toNat := by
  simp [bigEndian, List.foldl_append]

/-- Taking byte after byte comes to the same number. -/
theorem bigEndian_eq_denoted (bytes : List UInt8) : bigEndian bytes = denoted bytes := by
  induction bytes using List.reverseRecOn with
  | nil => rfl
  | append_singleton bytes last ih => rw [bigEndian_concat, denoted_concat, ih, Nat.add_comm]

/-- The additional information of arguments that follow the first byte, and how many bytes these
take. -/
def followingSizes : List (Nat × Nat) := [(24, 1), (25, 2), (26, 4), (27, 8)]

/-- The bytes are a head of the major type with the number for an argument, in the first byte or
behind it. A number may take more bytes than it needs. -/
inductive Numbered (major : Nat) : Nat → List UInt8 → Prop
  | immediate {n : Nat} (small : n < 24) : Numbered major n [firstByte major n]
  | following {information : Nat} {argument : List UInt8}
      (size : (information, argument.length) ∈ followingSizes) :
      Numbered major (denoted argument) (firstByte major information :: argument)

theorem Numbered.length_pos {major n : Nat} {start : List UInt8}
    (written : Numbered major n start) : 0 < start.length := by
  cases written <;> simp

/-- The bytes are segments of a string, one behind the other. A segment may be a string of
indefinite length itself. -/
inductive Segments {α : Type} (major : Nat) (write : α → List UInt8) :
    List α → List UInt8 → Prop
  | nil : Segments major write [] []
  | definite {s : α} {start rest : List UInt8} {parts : List α}
      (head : Numbered major (write s).length start) (tail : Segments major write parts rest) :
      Segments major write (s :: parts) (start ++ write s ++ rest)
  | nested {parts others : List α} {body rest : List UInt8}
      (inner : Segments major write parts body) (tail : Segments major write others rest) :
      Segments major write (parts ++ others) (openByte major :: body ++ stopByte :: rest)

/-- The bytes are a well-formed encoding of the item. -/
inductive Encodes : Item → List UInt8 → Prop
  | unsigned {n : Nat} {start : List UInt8} (head : Numbered 0 n start) :
      Encodes (.integer n) start
  | negative {n : Nat} {start : List UInt8} (head : Numbered 1 n start) :
      Encodes (.integer (-1 - n)) start
  | bytes {content start : List UInt8} (head : Numbered 2 content.length start) :
      Encodes (.bytes content) (start ++ content)
  | openBytes {parts : List (List UInt8)} {body : List UInt8} (inner : Segments 2 id parts body) :
      Encodes (.bytes parts.flatten) (openByte 2 :: body ++ [stopByte])
  | text {s : String} {start : List UInt8} (head : Numbered 3 (Utf8.encode s).length start) :
      Encodes (.text s) (start ++ Utf8.encode s)
  | openText {parts : List String} {body : List UInt8}
      (inner : Segments 3 Utf8.encode parts body) :
      Encodes (.text (String.join parts)) (openByte 3 :: body ++ [stopByte])
  | array {pieces : List (Item × List UInt8)} {start : List UInt8}
      (head : Numbered 4 pieces.length start) (inner : ∀ p ∈ pieces, Encodes p.1 p.2) :
      Encodes (.array (pieces.map Prod.fst)) (start ++ pieces.flatMap Prod.snd)
  | openArray {pieces : List (Item × List UInt8)} (inner : ∀ p ∈ pieces, Encodes p.1 p.2) :
      Encodes (.array (pieces.map Prod.fst))
        (openByte 4 :: pieces.flatMap Prod.snd ++ [stopByte])
  | map {pieces : List ((Item × List UInt8) × (Item × List UInt8))} {start : List UInt8}
      (head : Numbered 5 pieces.length start) (keys : ∀ p ∈ pieces, Encodes p.1.1 p.1.2)
      (values : ∀ p ∈ pieces, Encodes p.2.1 p.2.2) :
      Encodes (.map (pieces.map fun p => (p.1.1, p.2.1)))
        (start ++ pieces.flatMap fun p => p.1.2 ++ p.2.2)
  | openMap {pieces : List ((Item × List UInt8) × (Item × List UInt8))}
      (keys : ∀ p ∈ pieces, Encodes p.1.1 p.1.2) (values : ∀ p ∈ pieces, Encodes p.2.1 p.2.2) :
      Encodes (.map (pieces.map fun p => (p.1.1, p.2.1)))
        (openByte 5 :: pieces.flatMap (fun p => p.1.2 ++ p.2.2) ++ [stopByte])
  | tag {number : Nat} {start body : List UInt8} {content : Item}
      (head : Numbered 6 number start) (inner : Encodes content body) :
      Encodes (.tag number content) (start ++ body)
  | bool (b : Bool) : Encodes (.bool b) [firstByte 7 (if b then 21 else 20)]
  | longBool (b : Bool) : Encodes (.bool b) [firstByte 7 24, if b then 21 else 20]
  | null : Encodes .null [firstByte 7 22]
  | longNull : Encodes .null [firstByte 7 24, 22]
  | float {information : Nat} {encoding : List UInt8}
      (size : (information, encoding.length) ∈ followingSizes) (wide : information ≠ 24) :
      Encodes (.float encoding) (firstByte 7 information :: encoding)

/-- How deep the parts of an item lie in it. -/
def Item.height : Item → Nat
  | .tag _ content => content.height + 1
  | .array items => heightOf items
  | .map entries => heightOfPairs entries
  | _ => 0
where
  heightOf : List Item → Nat
    | [] => 0
    | item :: rest => max (item.height + 1) (heightOf rest)
  heightOfPairs : List (Item × Item) → Nat
    | [] => 0
    | (key, value) :: rest =>
      max (max (key.height + 1) (value.height + 1)) (heightOfPairs rest)

theorem Item.height_lt_array {item : Item} {items : List Item} (member : item ∈ items) :
    item.height < (Item.array items).height := by
  simp only [Item.height]
  induction items with
  | nil => cases member
  | cons first rest ih =>
    simp only [Item.height.heightOf]
    rcases List.mem_cons.1 member with rfl | inside
    · omega
    · have := ih inside
      omega

theorem Item.height_lt_map {entry : Item × Item} {entries : List (Item × Item)}
    (member : entry ∈ entries) :
    entry.1.height < (Item.map entries).height ∧ entry.2.height < (Item.map entries).height := by
  simp only [Item.height]
  induction entries with
  | nil => cases member
  | cons first rest ih =>
    obtain ⟨key, value⟩ := first
    simp only [Item.height.heightOfPairs]
    rcases List.mem_cons.1 member with rfl | inside
    · constructor <;> dsimp only <;> omega
    · have := ih inside
      omega

theorem Item.height_array_le {items : List Item} {bound : Nat}
    (below : ∀ item ∈ items, item.height < bound) : (Item.array items).height ≤ bound := by
  simp only [Item.height]
  induction items with
  | nil => exact Nat.zero_le bound
  | cons first rest ih =>
    obtain ⟨head, tail⟩ := List.forall_mem_cons.1 below
    have others := ih tail
    simp only [Item.height.heightOf]
    omega

theorem Item.height_map_le {entries : List (Item × Item)} {bound : Nat}
    (below : ∀ entry ∈ entries, entry.1.height < bound ∧ entry.2.height < bound) :
    (Item.map entries).height ≤ bound := by
  simp only [Item.height]
  induction entries with
  | nil => exact Nat.zero_le bound
  | cons first rest ih =>
    obtain ⟨head, tail⟩ := List.forall_mem_cons.1 below
    have others := ih tail
    simp only [Item.height.heightOfPairs]
    omega

theorem firstByte_div {major information : Nat} (known : major < 8) (short : information < 32) :
    (firstByte major information).toNat / 32 = major := by
  simp only [firstByte, UInt8.toNat_ofNat']
  omega

private theorem firstByte_mod {major information : Nat} (short : information < 32) :
    (firstByte major information).toNat % 32 = information := by
  simp only [firstByte, UInt8.toNat_ofNat']
  omega

theorem take_append (content rest : List UInt8) :
    take content.length (content ++ rest) = .ok (content, rest) := by
  simp [take, List.splitAt_eq]

theorem Argument.number?_following (bytes : List UInt8) :
    (Argument.following bytes).number? = some (denoted bytes) :=
  congrArg some (bigEndian_eq_denoted bytes)

namespace Head

private theorem argument_immediate {n : Nat} (small : n < 24) (rest : List UInt8) :
    argument n rest = .ok (.immediate n, rest) := by
  unfold argument
  dsimp only
  split <;> first | omega | rfl

theorem argument_following {information : Nat} {encoding : List UInt8}
    (size : (information, encoding.length) ∈ followingSizes) (rest : List UInt8) :
    argument information (encoding ++ rest) = .ok (.following encoding, rest) := by
  have taken := take_append encoding rest
  simp only [followingSizes, List.mem_cons, Prod.mk.injEq, List.not_mem_nil, or_false] at size
  rcases size with ⟨rfl, length⟩ | ⟨rfl, length⟩ | ⟨rfl, length⟩ | ⟨rfl, length⟩ <;>
  · rw [length] at taken
    simp only [argument, taken]
    rfl

/-- A head is read from its first byte and its argument. -/
theorem read_cons {major information : Nat} (known : major < 8) (short : information < 32)
    {rest behind : List UInt8} {found : Argument} {head : Head}
    (announced : argument information rest = .ok (found, behind))
    (assembled : assemble? major found = some head) :
    read (firstByte major information :: rest) = .ok (head, behind) := by
  simp only [read, firstByte_mod short, firstByte_div known short, announced]
  simp only [bind, Except.bind, assembled]
  rfl

/-- The head of a major type, other than the last, with a number for an argument. -/
def numbered : (major n : Nat) → Head
  | 0, n => unsigned n
  | 1, n => negative n
  | 2, n => bytes (some n)
  | 3, n => text (some n)
  | 4, n => array (some n)
  | 5, n => map (some n)
  | _, n => tag n

theorem assemble?_numbered {major : Nat} (known : major < 7) {argument : Argument} {n : Nat}
    (number : argument.number? = some n) :
    assemble? major argument = some (numbered major n) := by
  match major with
  | 0 | 1 | 2 | 3 | 4 | 5 | 6 => simp [assemble?, numbered, number]
  | _ + 7 => omega

/-- Of an argument only the number counts. -/
theorem read_numbered {major n : Nat} {start : List UInt8} (written : Numbered major n start)
    (known : major < 7) (rest : List UInt8) :
    read (start ++ rest) = .ok (numbered major n, rest) := by
  cases written with
  | immediate small =>
    exact read_cons (by omega) (by omega) (argument_immediate small rest)
      (assemble?_numbered known rfl)
  | @following information encoding size =>
    have short : information < 32 := by
      simp only [followingSizes, List.mem_cons, Prod.mk.injEq, List.not_mem_nil, or_false] at size
      omega
    exact read_cons (by omega) short (argument_following size rest)
      (assemble?_numbered known (Argument.number?_following encoding))

theorem read_open {major : Nat} (known : major < 8) {head : Head}
    (assembled : assemble? major .indefinite = some head) (rest : List UInt8) :
    read (openByte major :: rest) = .ok (head, rest) :=
  read_cons known (by omega) rfl assembled

theorem read_stop (rest : List UInt8) : read (stopByte :: rest) = .ok (.stop, rest) :=
  rfl

end Head

end CadenceWire.Cbor
