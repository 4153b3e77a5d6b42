import CadenceWire.Account
import CadenceWire.Proofs.Cbor.Encodable
import CadenceWire.Proofs.Numeric.Word
import CadenceWire.Proofs.Text.Literal
import CadenceWire.Proofs.Text.Spelling
import CadenceWire.Proofs.Text.Utf8
import Mathlib.Data.List.Induction

/-!
Addresses as digits. The digits denote a number, of which the address is the eight bytes, so
whatever zeros and cases they are written with, the number tells the address. It is all the same
that their length is taken in bytes and the missing ones are counted in characters.
-/
namespace CadenceWire

theorem Cbor.eq_of_bigEndian {a b : List UInt8} (length : a.length = b.length)
    (same : bigEndian a = bigEndian b) : a = b := by
  induction a using List.reverseRecOn generalizing b with
  | nil => exact (List.eq_nil_of_length_eq_zero length.symm).symm
  | append_singleton front last ih =>
    cases b using List.reverseRecOn with
    | nil => simp at length
    | append_singleton front' last' =>
      rw [bigEndian_concat, bigEndian_concat] at same
      have small := last.toNat_lt
      have small' := last'.toNat_lt
      have fronts := ih (by simpa using length) (show bigEndian front = bigEndian front' by omega)
      have lasts : last = last' := UInt8.toNat_inj.1 (by omega)
      rw [fronts, lasts]

namespace Hex

/-- One or more digits of either case, the most significant first, and the number they denote. -/
inductive Numeral : List Char → Nat → Prop
  | one {c : Char} {d : Nat} (digit : Digit c d) : Numeral [c] d
  | more {front : List Char} {n : Nat} {c : Char} {d : Nat} (before : Numeral front n)
      (digit : Digit c d) : Numeral (front ++ [c]) (16 * n + d)

/-- The number of digits behind those of another. -/
def value (n : Nat) (digits : List Char) : Nat :=
  digits.foldl (fun n c => 16 * n + (digit? c).getD 0) n

section numerals

variable {digits : List Char} {bytes : List UInt8} {m n : Nat}

private theorem value_concat (digits : List Char) {c : Char} {d : Nat} (digit : Digit c d) :
    value n (digits ++ [c]) = 16 * value n digits + d := by
  rw [value, List.foldl_append, List.foldl_cons, List.foldl_nil, digit?_eq_some_iff.2 digit]
  rfl

theorem Numeral.ne_nil (numeral : Numeral digits n) : digits ≠ [] := by
  cases numeral <;> simp

theorem Numeral.exists_digit (numeral : Numeral digits n) : ∀ c ∈ digits, ∃ d, Digit c d := by
  induction numeral with
  | one digit => exact List.forall_mem_singleton.2 ⟨_, digit⟩
  | more before digit ih =>
    exact List.forall_mem_append.2 ⟨ih, List.forall_mem_singleton.2 ⟨_, digit⟩⟩

theorem Numeral.value_eq (numeral : Numeral digits n) : value 0 digits = n := by
  induction numeral with
  | one digit => exact (value_concat [] digit).trans (Nat.zero_add _)
  | more before digit ih => rw [value_concat _ digit, ih]

private theorem numeral_value (written : digits ≠ []) (all : ∀ c ∈ digits, ∃ d, Digit c d) :
    Numeral digits (value 0 digits) := by
  induction digits using List.reverseRecOn with
  | nil => exact absurd rfl written
  | append_singleton front c ih =>
    obtain ⟨before, last⟩ := List.forall_mem_append.1 all
    obtain ⟨d, digit⟩ := last c (List.mem_singleton_self c)
    rw [value_concat front digit]
    by_cases alone : front = []
    · subst alone
      rw [value, List.foldl_nil, Nat.mul_zero, Nat.zero_add]
      exact .one digit
    · exact .more (ih alone before) digit

/-- Zeros in front make no difference. -/
theorem value_padded (count : Nat) (digits : List Char) :
    value 0 (List.replicate count '0' ++ digits) = value 0 digits := by
  induction count with
  | zero => rfl
  | succ count ih => exact ih

theorem Spelling.value_eq (spelling : Spelling digits bytes) :
    value 0 digits = Cbor.bigEndian bytes := by
  -- Behind any number, for each byte is read behind those in front of it.
  suffices behind : ∀ n, value n digits = bytes.foldl (fun n b => 256 * n + b.toNat) n from behind 0
  induction spelling with
  | nil => exact fun _ => rfl
  | @cons high low h l b digits bytes first second whole rest ih =>
    intro n
    have pair : value n (high :: low :: digits) = value (16 * (16 * n + h) + l) digits := by
      simp only [value, List.foldl_cons, digit?_eq_some_iff.2 first, digit?_eq_some_iff.2 second,
        Option.getD_some]
    have same : 16 * (16 * n + h) + l = 256 * n + b.toNat := by omega
    rw [pair, ih, List.foldl_cons, same]

private theorem exists_spelling {digits : List Char} (all : ∀ c ∈ digits, ∃ d, Digit c d)
    (even : digits.length % 2 = 0) : ∃ bytes, Spelling digits bytes := by
  match digits with
  | [] => exact ⟨[], .nil⟩
  | [_] => cases even
  | high :: low :: rest =>
    obtain ⟨⟨h, first⟩, others⟩ := List.forall_mem_cons.1 all
    obtain ⟨⟨l, second⟩, others⟩ := List.forall_mem_cons.1 others
    have fewer : rest.length % 2 = 0 := by
      simp only [List.length_cons] at even
      omega
    obtain ⟨bytes, spelling⟩ := exists_spelling others fewer
    exact ⟨_, .cons first second (first.toNat_ofNat second) spelling⟩

end numerals

/-- A digit as it is written. -/
def IsWritten (c : Char) : Prop := '0' ≤ c ∧ c ≤ '9' ∨ 'a' ≤ c ∧ c ≤ 'f'

instance (c : Char) : Decidable (IsWritten c) := inferInstanceAs (Decidable (_ ∨ _))

private theorem isWritten_digit {n : Nat} (small : n < 16) : IsWritten (digit n) := by
  have all : ∀ n ∈ List.range 16, IsWritten (digit n) := by decide
  exact all n (List.mem_range.2 small)

theorem isWritten_of_mem_encode {bytes : List UInt8} {c : Char}
    (member : c ∈ (encode bytes).toList) : IsWritten c := by
  rw [encode, String.toList_ofList] at member
  obtain ⟨b, -, member⟩ := List.mem_flatMap.1 member
  have size := b.toNat_lt
  simp only [ofByte, List.mem_cons, List.not_mem_nil, or_false] at member
  rcases member with rfl | rfl
  · exact isWritten_digit (by omega)
  · exact isWritten_digit (by omega)

section places

/-- The digit at a place of the bytes, which have to reach that far. -/
def digitAt (content : List UInt8) (place : Nat) : Except (Stop Unit) Nat :=
  match content[place]? with
  | none => .error .overflow
  | some b => ((digit? (Char.ofNat b.toNat)).map .ok).getD (.error (.refused ()))

/-- So many bytes, of the digits from a place on. -/
def fill (content : List UInt8) (place : Nat) : Nat → Except (Stop Unit) (List UInt8)
  | 0 => .ok []
  | count + 1 => do
    let high ← digitAt content place
    let low ← digitAt content (place + 1)
    return UInt8.ofNat (16 * high + low) :: (← fill content (place + 2) count)

private theorem digitAt_of_getElem? {content : List UInt8} {place : Nat} {c : Char}
    (found : content[place]? = some (UInt8.ofNat c.toNat)) (single : c.utf8Size = 1) :
    digitAt content place = ((digit? c).map .ok).getD (.error (.refused ())) := by
  have small : c.toNat ≤ 127 := UInt32.le_iff_toNat_le.1 (Char.utf8Size_eq_one_iff.1 single)
  have back : (UInt8.ofNat c.toNat).toNat = c.toNat :=
    UInt8.toNat_ofNat_of_lt' (Nat.lt_of_le_of_lt small (by decide))
  rw [digitAt, found]
  simp only [back, Char.ofNat_toNat]

/-- Where every character is one byte, the places are those of the characters. -/
theorem fill_eq {count : Nat} {front : List UInt8} {digits : List Char}
    (single : ∀ c ∈ digits, c.utf8Size = 1) (length : digits.length = 2 * count) (position : Nat) :
    fill (front ++ digits.map fun c => UInt8.ofNat c.toNat) front.length count =
      (pairs position digits).mapError fun _ => .refused () := by
  induction count generalizing front digits position with
  | zero =>
    obtain rfl := List.eq_nil_of_length_eq_zero length
    rfl
  | succ count ih =>
    match digits with
    | [] | [_] => simp only [List.length_cons, List.length_nil] at length; omega
    | high :: low :: rest =>
      obtain ⟨one, others⟩ := List.forall_mem_cons.1 single
      obtain ⟨other, others⟩ := List.forall_mem_cons.1 others
      have rest_read := @ih (front ++ [UInt8.ofNat high.toNat, UInt8.ofNat low.toNat]) rest others
        (by simp only [List.length_cons] at length; omega) (position + 2)
      rw [List.append_assoc, List.length_append] at rest_read
      rw [List.map_cons, List.map_cons, fill, digitAt_of_getElem? (by simp) one,
        digitAt_of_getElem? (by simp) other, pairs]
      cases digit? high with
      | none => rfl
      | some h =>
        cases digit? low with
        | none => rfl
        | some l =>
          change (fill _ _ count >>= fun bytes => pure (UInt8.ofNat (16 * h + l) :: bytes)) =
            (pairs (position + 2) rest >>= fun bytes =>
              pure (UInt8.ofNat (16 * h + l) :: bytes)).mapError _
          rw [← map_eq_pure_bind, ← map_eq_pure_bind, mapError_map]
          exact congrArg _ rest_read

end places

end Hex

namespace Address

open Hex (Digit Numeral Spelling)

variable {digits : List Char} {a b : Address} {m n : Nat}

/-- Digits with zeros for those that are missing. -/
def padded (digits : List Char) : List Char := List.replicate (16 - digits.length) '0' ++ digits

private theorem length_padded (short : digits.length ≤ 16) : (padded digits).length = 16 := by
  rw [padded, List.length_append, List.length_replicate]
  omega

private theorem ofDigits?_eq (inside : ¬ (digits = [] ∨ 16 < digits.length)) :
    ofDigits? digits = (Hex.decode (padded digits)).toOption.bind ofBytes? := by
  rw [ofDigits?, if_neg inside, ← padded]
  cases Hex.decode (padded digits) <;> rfl

private theorem ofDigits?_eq_some_iff_spelling : ofDigits? digits = some a ↔
    digits ≠ [] ∧ digits.length ≤ 16 ∧ Spelling (padded digits) a.bytes := by
  rw [← Hex.decode_eq_ok]
  by_cases outside : digits = [] ∨ 16 < digits.length
  · rw [ofDigits?, if_pos outside]
    constructor
    · rintro ⟨⟩
    · rintro ⟨written, short, -⟩
      exact absurd short (Nat.not_le.2 (outside.resolve_left written))
  · obtain ⟨written, short⟩ := not_or.1 outside
    rw [ofDigits?_eq outside]
    simp only [ne_eq, written, not_false_iff, Nat.not_lt.1 short, true_and]
    cases Hex.decode (padded digits) with
    | ok bytes => exact ofBytes?_eq_some_iff.trans ⟨congrArg _, Except.ok.inj⟩
    | error fault => simp [Except.toOption]

/-- Read are one to sixteen digits, as the bytes of the number that they denote. -/
theorem ofDigits?_eq_some_iff : ofDigits? digits = some a ↔
    ∃ n, Numeral digits n ∧ digits.length ≤ 16 ∧ Cbor.bigEndian a.bytes = n := by
  rw [ofDigits?_eq_some_iff_spelling]
  constructor
  · rintro ⟨written, short, spelling⟩
    have all : ∀ c ∈ digits, ∃ d, Digit c d :=
      (List.forall_mem_append.1 spelling.exists_digit).2
    have same := spelling.value_eq
    rw [padded, Hex.value_padded] at same
    exact ⟨_, Hex.numeral_value written all, short, same.symm⟩
  · rintro ⟨n, numeral, short, value⟩
    have zero : Digit '0' 0 := .decimal (by decide) rfl
    have all : ∀ c ∈ padded digits, ∃ d, Digit c d := by
      refine List.forall_mem_append.2 ⟨fun c member => ?_, numeral.exists_digit⟩
      rw [List.eq_of_mem_replicate member]
      exact ⟨0, zero⟩
    have length := length_padded short
    obtain ⟨bytes, spelling⟩ := Hex.exists_spelling all (by rw [length])
    have same := spelling.value_eq
    rw [padded, Hex.value_padded, numeral.value_eq, ← value] at same
    have size := spelling.length_eq
    have whole := a.length_eq
    rw [Cbor.eq_of_bigEndian (by omega) same]
    exact ⟨numeral.ne_nil, short, spelling⟩

/-- The number that the digits denote tells the address. -/
theorem eq_iff_of_numeral {digits' : List Char} (read : ofDigits? digits = some a)
    (read' : ofDigits? digits' = some b) (numeral : Numeral digits m)
    (numeral' : Numeral digits' n) : a = b ↔ m = n := by
  obtain ⟨k, again, short, value⟩ := ofDigits?_eq_some_iff.1 read
  obtain ⟨l, again', short', value'⟩ := ofDigits?_eq_some_iff.1 read'
  have same : k = m := again.value_eq.symm.trans numeral.value_eq
  have same' : l = n := again'.value_eq.symm.trans numeral'.value_eq
  constructor
  · rintro rfl
    rw [← same, ← same', ← value, ← value']
  · intro denoted
    have bytes : a.bytes = b.bytes :=
      Cbor.eq_of_bigEndian (a.length_eq.trans b.length_eq.symm)
        (by rw [value, value', same, same', denoted])
    exact Option.some.inj
      ((ofBytes?_eq_some_iff.2 bytes).symm.trans (ofBytes?_eq_some_iff.2 rfl)) |>.symm

/-- The address of digits, with their length in bytes, and the digits looked up by their places in
the bytes. -/
def ofEncoded (s : String) : Except (Stop Unit) Address :=
  let size := (Utf8.encode s).length
  if size = 0 ∨ 16 < size then .error (.refused ())
  else
    let content := Utf8.encode (String.ofList (padded s.toList))
    if content.length % 2 = 1 ∨ content.length / 2 ≠ 8 then .error (.refused ())
    else do
      let bytes ← Hex.fill content 0 8
      match ofBytes? bytes with
      | some a => return a
      | none => throw .overflow

private theorem single_zeros (count : Nat) : ∀ c ∈ List.replicate count '0', c.utf8Size = 1 := by
  intro c member
  rw [List.eq_of_mem_replicate member]
  rfl

private theorem length_encode_padded (chars : List Char) :
    (Utf8.encode (String.ofList (padded chars))).length =
      16 - chars.length + (Utf8.encode (String.ofList chars)).length := by
  rw [padded, String.ofList_append, Utf8.encode_append, List.length_append,
    Utf8.encode_of_single (single_zeros _), List.length_map, List.length_replicate]

theorem ofDigits?_of_multiple (multiple : ∃ c ∈ digits, 1 < c.utf8Size) :
    ofDigits? digits = none := by
  obtain ⟨c, member, wide⟩ := multiple
  refine Option.eq_none_iff_forall_ne_some.2 fun a read => ?_
  obtain ⟨n, numeral, -, -⟩ := ofDigits?_eq_some_iff.1 read
  obtain ⟨d, digit⟩ := numeral.exists_digit c member
  have small : c.toNat ≤ 127 := digit.code_bounds.2.trans (by decide)
  have single := Char.utf8Size_eq_one_iff.2 (UInt32.le_iff_toNat_le.2 small)
  omega

theorem ofEncoded_of_multiple {s : String} (multiple : ∃ c ∈ s.toList, 1 < c.utf8Size) :
    ofEncoded s = .error (.refused ()) := by
  have more := Utf8.length_lt_encode multiple
  have length := length_encode_padded s.toList
  rw [String.ofList_toList] at more length
  rw [ofEncoded]
  split
  next => rfl
  next inside =>
    -- Behind as many zeros as there are characters missing there are more than sixteen bytes.
    rw [if_pos (by omega)]

section single

variable (single : ∀ c ∈ digits, c.utf8Size = 1)
include single

private theorem encode_padded : Utf8.encode (String.ofList (padded digits)) =
    (padded digits).map fun c => UInt8.ofNat c.toNat :=
  Utf8.encode_of_single (List.forall_mem_append.2 ⟨single_zeros (16 - digits.length), single⟩)

private theorem fill_padded (short : digits.length ≤ 16) :
    Hex.fill (Utf8.encode (String.ofList (padded digits))) 0 8 =
      (Hex.decode (padded digits)).mapError fun _ => .refused () := by
  have length := length_padded short
  have all := List.forall_mem_append.2 ⟨single_zeros (16 - digits.length), single⟩
  have filled := @Hex.fill_eq 8 [] (padded digits) all length 0
  rw [← encode_padded single] at filled
  rw [Hex.decode, if_neg (by rw [length]; decide)]
  exact filled

private theorem ofEncoded_of_single :
    ofEncoded (String.ofList digits) =
      ((ofDigits? digits).map .ok).getD (.error (.refused ())) := by
  rw [ofEncoded, Utf8.encode_of_single single, List.length_map, String.toList_ofList]
  by_cases outside : digits = [] ∨ 16 < digits.length
  · rw [ofDigits?, if_pos outside, if_pos (outside.imp_left List.length_eq_zero_iff.2)]
    rfl
  · have inside := mt (Or.imp_left List.length_eq_zero_iff.1) outside
    have short := Nat.not_lt.1 (not_or.1 outside).2
    have length : (Utf8.encode (String.ofList (padded digits))).length = 16 := by
      rw [encode_padded single, List.length_map, length_padded short]
    rw [ofDigits?_eq outside, if_neg inside]
    dsimp only
    rw [length, if_neg (by decide), fill_padded single short]
    cases read : Hex.decode (padded digits) with
    | error fault => rfl
    | ok bytes =>
      have whole := (Hex.decode_eq_ok.1 read).length_eq
      have eight : bytes.length = 8 := by
        rw [length_padded short] at whole
        omega
      have found : ofBytes? bytes = some ⟨bytes, eight⟩ := dif_pos eight
      simp only [Except.mapError, Except.toOption, bind, Except.bind, Option.bind_some, found]
      rfl

end single

theorem ofEncoded_eq (s : String) :
    ofEncoded s = ((ofDigits? s.toList).map .ok).getD (.error (.refused ())) := by
  by_cases multiple : ∃ c ∈ s.toList, 1 < c.utf8Size
  · rw [ofEncoded_of_multiple multiple, ofDigits?_of_multiple multiple]
    rfl
  · have single : ∀ c ∈ s.toList, c.utf8Size = 1 := by
      intro c member
      have most : ¬ 1 < c.utf8Size := fun wide => multiple ⟨c, member, wide⟩
      have least := c.utf8Size_pos
      omega
    have read := ofEncoded_of_single single
    rwa [String.ofList_toList] at read

end Address

end CadenceWire
