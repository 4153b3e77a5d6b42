import CadenceWire.Ccf.Value
import CadenceWire.Proofs.Cbor.Encodable
import CadenceWire.Proofs.Ccf.Part
import CadenceWire.Proofs.Numeric.Word
import Mathlib.Data.List.Induction

/-!
Numbers of a message are exact. A number is read as what its item denotes wherever that lies within
the kind, and reading it through machine words comes to the same.
-/
namespace CadenceWire

section bytes

theorem Cbor.bigEndian_lt (content : List UInt8) : bigEndian content < 256 ^ content.length := by
  induction content using List.reverseRecOn with
  | nil => simp [bigEndian]
  | append_singleton content last ih =>
    have digit := last.toNat_lt
    rw [bigEndian_concat, List.length_append, List.length_singleton, Nat.pow_succ]
    omega

/-- Nothing is carried out of a word of 32 bytes. -/
theorem Word.toNat_ofBytes {content : List UInt8} (short : content.length ≤ 32) :
    (content.foldl (fun m b => 256 * m + b.toBitVec.setWidth 256) (0 : BitVec 256)).toNat =
      Cbor.bigEndian content := by
  induction content using List.reverseRecOn with
  | nil => rfl
  | append_singleton content last ih =>
    have fewer : content.length ≤ 32 := by
      rw [List.length_append] at short
      omega
    have small : Cbor.bigEndian (content ++ [last]) < 2 ^ 256 :=
      calc Cbor.bigEndian (content ++ [last]) < 256 ^ (content ++ [last]).length :=
            Cbor.bigEndian_lt _
        _ ≤ 256 ^ 32 := Nat.pow_le_pow_right (by decide) short
    have digit : (last.toBitVec.setWidth 256).toNat = last.toNat := by
      rw [BitVec.toNat_setWidth, UInt8.toNat_toBitVec]
      have size := last.toNat_lt
      omega
    have base : (256 : BitVec 256).toNat = 256 := rfl
    rw [Cbor.bigEndian_concat] at small ⊢
    rw [List.foldl_append, List.foldl_cons, List.foldl_nil, BitVec.toNat_add, BitVec.toNat_mul,
      ih fewer, digit, base]
    omega

end bytes

namespace Ccf

open Cbor (Item)

def magnitudeWord (kind : String) (item : Item) : Except (Stop Failure) (BitVec 256) := do
  let content ← (bytes kind item).mapError .refused
  if maxNumberBytes < content.length then throw (.refused (.integerOutOfRange kind))
  Word.ofBytes content

/-- The number as a sign and a word. One that counts down from -1 may have one bit too many. -/
def signedWord (kind : String) : Item → Except (Stop Failure) SignedWord
  | .integer n => .ok (.ofSigned (BitVec.ofInt 128 n))
  | .tag 2 content => .ofParts false <$> magnitudeWord kind content
  | .tag 3 content => do
    let m ← magnitudeWord kind content
    .ofParts true <$> Word.successor (.integerOutOfRange kind) m
  | item => .error (.refused (misfit "integer" kind item))

private theorem toNat_magnitudeWord (kind : String) (item : Item) :
    BitVec.toNat <$> magnitudeWord kind item = (magnitude kind item).mapError .refused := by
  unfold magnitudeWord magnitude
  cases item with
  | bytes content =>
    by_cases long : maxNumberBytes < content.length
    · simp only [bytes, bind, Except.bind, Except.mapError, if_pos long]
      rfl
    · have short : content.length ≤ 32 := Nat.not_lt.1 long
      have read := Word.toNat_ofBytes short
      simp only [bytes, bind, Except.bind, Except.mapError, if_neg long, Word.ofBytes, if_pos short]
      exact congrArg _ read
  | _ => rfl

/-- Behind the sign and the word there is the number that the item denotes. -/
theorem toInt_signedWord (kind : String) {item : Item} (encodable : item.Encodable) :
    SignedWord.toInt <$> signedWord kind item =
      (number kind item).mapError .refused >>=
        limited (.integerOutOfRange kind) (-2 ^ 256 < ·) := by
  unfold signedWord
  split
  next n =>
    obtain ⟨low, high⟩ := encodable
    have count : (Width.w64.count : Int) = 2 ^ 64 := rfl
    have same : (BitVec.ofInt 128 n).toInt = n :=
      BitVec.toInt_ofInt_eq_self (by decide) (by omega) (by omega)
    have inside : -2 ^ 256 < n := by omega
    rw [← SignedWord.toInt_ofSigned] at same
    exact (congrArg Except.ok same).trans (limited_of inside).symm
  next content =>
    have denoted : number kind (.tag 2 content) =
      (fun n : Nat => (n : Int)) <$> magnitude kind content := rfl
    rw [denoted, mapError_map, ← toNat_magnitudeWord]
    cases magnitudeWord kind content with
    | error stop => rfl
    | ok m =>
      change .ok (SignedWord.ofParts false m).toInt =
        limited (Failure.integerOutOfRange kind) (-2 ^ 256 < ·) (m.toNat : Int)
      rw [SignedWord.toInt_ofParts, limited_of (by omega)]
      rfl
  next content =>
    have denoted : number kind (.tag 3 content) =
      (fun n : Nat => -1 - (n : Int)) <$> magnitude kind content := rfl
    rw [denoted, mapError_map, ← toNat_magnitudeWord]
    cases magnitudeWord kind content with
    | error stop => rfl
    | ok m =>
      change SignedWord.toInt <$> SignedWord.ofParts true <$> Word.successor _ m =
        limited (Failure.integerOutOfRange kind) (-2 ^ 256 < ·) (-1 - (m.toNat : Int))
      by_cases fits : m.toNat + 1 < 2 ^ 256
      · obtain ⟨next, sum, counted⟩ := Word.successor_of (Failure.integerOutOfRange kind) fits
        have same : (SignedWord.ofParts true next).toInt = -1 - m.toNat := by
          rw [SignedWord.toInt_ofParts, if_pos rfl, counted]
          omega
        rw [sum, limited_of (by omega)]
        exact congrArg Except.ok same
      · -- All bits are ones: the number is the first that the magnitude has no room for.
        rw [Word.successor_of_not _ fits, limited_of_not (by omega)]
        rfl
  next =>
    unfold number
    simp only []
    rfl

def wordNumber (kind : NumberKind) (item : Item) : Except (Stop Failure) Int := do
  let s ← signedWord kind.type.id item
  match kind with
  | .integer kind => kind.ofWord (.integerOutOfRange kind.name) s
  | .fixedPoint kind => kind.ofWord (.integerOutOfRange kind.name) s

private theorem wordNumber_eq (kind : NumberKind) {item : Item} (encodable : item.Encodable) :
    wordNumber kind item =
      (number kind.type.id item).mapError .refused >>=
        limited (.integerOutOfRange kind.type.id) kind.Within := by
  have step := toInt_signedWord kind.type.id encodable
  have taken : wordNumber kind item =
      (SignedWord.toInt <$> signedWord kind.type.id item) >>=
        limited (.integerOutOfRange kind.type.id) kind.Within := by
    unfold wordNumber
    rw [bind_map_left]
    refine bind_congr fun s => ?_
    cases kind with
    | integer kind => exact (kind.ofWord_eq _ s).trans (limited_congr Iff.rfl)
    | fixedPoint kind => exact (kind.ofWord_eq _ s).trans (limited_congr Iff.rfl)
  rw [taken, step, bind_assoc]
  refine bind_congr fun n => limited_bind fun within => ?_
  have bounded := NumberKind.natAbs_lt within
  omega

/-- A number is what its item denotes, if that lies within the kind. -/
theorem number_of_simpleValue (kind : NumberKind) (item : Item) (before : Bound) :
    (fun read => (read.1.number?, read.2)) <$>
        ((simpleValue kind.type item).run before).mapError .refused =
      (fun n => (some (kind, n), before)) <$>
        ((number kind.type.id item).mapError .refused >>=
          limited (.integerOutOfRange kind.type.id) kind.Within) := by
  cases kind with
  | integer kind =>
    have value : (simpleValue (.integer kind) item).run before =
        (fun n => (Value.integer n, before)) <$> integer kind item := run_lift_map
    have id : (SimpleType.integer kind).id = kind.name := rfl
    rw [NumberKind.type, value, integer, id]
    cases number kind.name item with
    | error failure => rfl
    | ok n =>
      have within := Integer.limited_within (Failure.integerOutOfRange kind.name) kind n
      refine .trans ?_ (congrArg _ within.symm)
      simp only [bind, Except.bind]
      cases found : Integer.ofInt? kind n with
      | none => rfl
      | some m =>
        obtain ⟨rfl, rfl⟩ := Integer.ofInt?_eq_some_iff.1 found
        rfl
  | fixedPoint kind =>
    have value : (simpleValue (.fixedPoint kind) item).run before =
        (fun n => (Value.fixedPoint n, before)) <$> fixedPoint kind item := run_lift_map
    have id : (SimpleType.fixedPoint kind).id = kind.name := rfl
    rw [NumberKind.type, value, fixedPoint, id]
    cases number kind.name item with
    | error failure => rfl
    | ok n =>
      have within := FixedPoint.limited_within (Failure.integerOutOfRange kind.name) kind n
      refine .trans ?_ (congrArg _ within.symm)
      simp only [bind, Except.bind]
      cases found : FixedPoint.ofScaled? kind n with
      | none => rfl
      | some m =>
        obtain ⟨rfl, rfl⟩ := FixedPoint.ofScaled?_eq_some_iff.1 found
        rfl

private theorem simpleValue_of_within {kind : NumberKind} {n : Int} {item : Item}
    (written : NumberItem n item) (within : kind.Within n) (before : Bound) :
    ∃ v, Value.number? v = some (kind, n) ∧
      (simpleValue kind.type item).run before = .ok (v, before) := by
  have denoted : (number kind.type.id item).mapError Stop.refused >>=
      limited (.integerOutOfRange kind.type.id) kind.Within = .ok n := by
    rw [number_eq_ok.2 written]
    exact limited_of within
  have read := number_of_simpleValue kind item before
  rw [denoted] at read
  cases run : (simpleValue kind.type item).run before with
  | error failure =>
    rw [run] at read
    cases read
  | ok yielded =>
    obtain ⟨v, after⟩ := yielded
    rw [run] at read
    obtain ⟨known, rfl⟩ := Prod.mk.inj (Except.ok.inj read)
    exact ⟨v, known, rfl⟩

private theorem simpleValue_of_refused {kind : NumberKind} {item : Item} {failure : Failure}
    (refused : (number kind.type.id item).mapError .refused >>=
      limited (.integerOutOfRange kind.type.id) kind.Within = .error (.refused failure))
    (before : Bound) : (simpleValue kind.type item).run before = .error failure := by
  have read := number_of_simpleValue kind item before
  rw [refused] at read
  cases run : (simpleValue kind.type item).run before with
  | error reason =>
    rw [run] at read
    cases read
    rfl
  | ok yielded =>
    rw [run] at read
    cases read

/-- Numbers are exact. Whatever denotes a number within the kind is read as that number, and
whatever denotes another is refused for its range, as are byte strings of more than 32 bytes. The
way through words comes to the same: it loses nothing, and no step of it stops for want of a
result. -/
theorem simpleValue_exact (kind : NumberKind) (before : Bound) :
    (∀ n item, NumberItem n item →
      (kind.Within n → ∃ v, Value.number? v = some (kind, n) ∧
        (simpleValue kind.type item).run before = .ok (v, before)) ∧
      (¬ kind.Within n →
        (simpleValue kind.type item).run before = .error (.integerOutOfRange kind.type.id))) ∧
    (∀ number content, number = 2 ∨ number = 3 → 32 < content.length →
      (simpleValue kind.type (.tag number (.bytes content))).run before =
        .error (.integerOutOfRange kind.type.id)) ∧
    ∀ item : Item, item.Encodable →
      (fun n => (some (kind, n), before)) <$> wordNumber kind item =
        (fun read => (read.1.number?, read.2)) <$>
          ((simpleValue kind.type item).run before).mapError .refused := by
  refine ⟨fun n item written => ⟨fun within => ?_, fun outside => ?_⟩,
    fun number content tagged long => ?_, fun item encodable => ?_⟩
  · exact simpleValue_of_within written within before
  · refine simpleValue_of_refused ?_ before
    rw [number_eq_ok.2 written]
    exact limited_of_not outside
  · refine simpleValue_of_refused ?_ before
    have refused : magnitude kind.type.id (.bytes content) =
        .error (.integerOutOfRange kind.type.id) := if_pos long
    rcases tagged with rfl | rfl <;> simp only [number, refused] <;> rfl
  · rw [number_of_simpleValue, wordNumber_eq kind encodable]

theorem simpleValue_exact_least :
    let kind : NumberKind := .integer (.intOf .w256)
    let least : Item := .tag 3 (.bytes (0x7f :: List.replicate 31 0xff))
    let less : Item := .tag 3 (.bytes (0x80 :: List.replicate 31 0))
    let long : Item := .tag 2 (.bytes (List.replicate 33 0))
    let refused : Failure := .integerOutOfRange "Int256"
    (∃ v, Value.number? v = some (kind, -2 ^ 255) ∧
        (simpleValue kind.type least).run [] = .ok (v, [])) ∧
      (simpleValue kind.type less).run [] = .error refused ∧
      (simpleValue kind.type long).run [] = .error refused ∧
      (fun n => (some (kind, n), [])) <$> wordNumber kind least =
        (fun read => (read.1.number?, read.2)) <$>
          ((simpleValue kind.type least).run []).mapError .refused := by
  intro kind least less long refused
  obtain ⟨denoted, refusedLong, words⟩ := simpleValue_exact kind []
  have down (content : List UInt8) (short : content.length ≤ 32) (n : Int)
      (counted : -1 - (Cbor.denoted content : Int) = n) :
      NumberItem n (.tag 3 (.bytes content)) := counted ▸ .countingDown content short
  refine ⟨(denoted _ least (down _ (by decide) (-2 ^ 255) (by decide))).1 (by decide),
    (denoted _ less (down _ (by decide) (-2 ^ 255 - 1) (by decide))).2 (by decide),
    refusedLong 2 _ (.inl rfl) (by decide), words least ⟨by decide, trivial⟩⟩

end Ccf

end CadenceWire
