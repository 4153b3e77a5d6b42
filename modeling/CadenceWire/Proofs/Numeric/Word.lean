import CadenceWire.Proofs.Numeric.Range

/-!
Numbers in machine words. A number goes through a sign and a magnitude of 256 bits, most kinds of at
most 128 bits through two's complement as well, into the word of its kind. What comes out is the
number that went in, or it is refused for its range; no step stops for want of a result.
-/
namespace CadenceWire

/-- A step on words refuses a number, or it has no result. -/
inductive Stop (ε : Type) where
  | refused (failure : ε)
  | overflow

/-- The number itself where it has the property. -/
def limited {ε : Type} (refusal : ε) (p : Int → Prop) [DecidablePred p] (n : Int) :
    Except (Stop ε) Int :=
  if p n then .ok n else .error (.refused refusal)

section limited

variable {ε : Type} {refusal : ε} {p q : Int → Prop} [DecidablePred p] [DecidablePred q] {n : Int}

theorem limited_of (holds : p n) : limited refusal p n = .ok n := if_pos holds

theorem limited_of_not (fails : ¬ p n) : limited refusal p n = .error (.refused refusal) :=
  if_neg fails

theorem limited_congr (same : p n ↔ q n) : limited refusal p n = limited refusal q n := by
  unfold limited
  simp only [same]

/-- Of two limits in turn, the first may be left out if the second is narrower. -/
theorem limited_bind (narrower : q n → p n) :
    (limited refusal p n >>= limited refusal q) = limited refusal q n := by
  by_cases holds : p n
  · rw [limited_of holds]
    rfl
  · rw [limited_of_not holds, limited_of_not (mt narrower holds)]
    rfl

end limited

section answers

variable {α ε : Type} {refusal : ε} {p : Int → Prop} [DecidablePred p] {n : Int}
  {taken : Except (Stop ε) α} {denoted : α → Int}

theorem toOption_of_limited (same : denoted <$> taken = limited refusal p n) :
    taken.toOption.map denoted = if p n then some n else none := by
  by_cases holds : p n
  · rw [limited_of holds] at same
    cases taken with
    | ok a => exact (congrArg some (Except.ok.inj same)).trans (if_pos holds).symm
    | error stop => cases same
  · rw [limited_of_not holds] at same
    cases taken with
    | ok a => cases same
    | error stop => exact (if_neg holds).symm

/-- What denotes a number within the limit is the answer, if nothing else denotes it. -/
theorem eq_ok_of_limited (same : denoted <$> taken = limited refusal p n)
    (injective : Function.Injective denoted) {a : α} (value : denoted a = n) (holds : p n) :
    taken = .ok a := by
  rw [limited_of holds, ← value] at same
  cases taken with
  | ok b => exact congrArg Except.ok (injective (Except.ok.inj same))
  | error stop => cases same

end answers

theorem Integer.limited_within {ε : Type} (refusal : ε) (kind : IntegerKind) (n : Int) :
    limited refusal kind.Within n =
      ((ofInt? kind n).map fun n => .ok n.value).getD (.error (.refused refusal)) := by
  unfold ofInt?
  by_cases within : kind.Within n
  · rw [limited_of within, dif_pos (IntegerKind.holds_iff.2 within)]
    rfl
  · rw [limited_of_not within, dif_neg (mt IntegerKind.holds_iff.1 within)]
    rfl

theorem FixedPoint.limited_within {ε : Type} (refusal : ε) (kind : FixedPointKind) (n : Int) :
    limited refusal kind.Within n =
      ((ofScaled? kind n).map fun n => .ok n.scaled).getD (.error (.refused refusal)) := by
  unfold ofScaled?
  by_cases within : kind.Within n
  · rw [limited_of within, dif_pos (FixedPointKind.holds_iff.2 within)]
    rfl
  · rw [limited_of_not within, dif_neg (mt FixedPointKind.holds_iff.1 within)]
    rfl

namespace Word

variable {ε : Type} (refusal : ε)

/-- How many bits are needed for the word. -/
def bits (m : BitVec 256) : Nat := if m = 0 then 0 else m.toNat.log2 + 1

/-- The lower half, where the upper half is zero. -/
def lowerHalf (m : BitVec 256) : Except (Stop ε) (BitVec 128) :=
  if m.toNat < 2 ^ 128 then .ok (m.setWidth 128) else .error .overflow

def negated (n : BitVec 128) : Except (Stop ε) (BitVec 128) :=
  if n = BitVec.intMin 128 then .error .overflow else .ok (-n)

/-- The sum with one, unless it is carried out of the word. -/
def successor (m : BitVec 256) : Except (Stop ε) (BitVec 256) :=
  if m.uaddOverflow 1 then .error (.refused refusal) else .ok (m + 1)

/-- The word of at most 32 bytes, the most significant first. -/
def ofBytes (content : List UInt8) : Except (Stop ε) (BitVec 256) :=
  if content.length ≤ 32 then
    .ok (content.foldl (fun m b => 256 * m + b.toBitVec.setWidth 256) 0)
  else .error .overflow

def signed (n : BitVec 128) : Except (Stop ε) (BitVec 128) :=
  if n.msb then .error (.refused refusal) else .ok n

/-- The word with a minus. The least number has no counterpart above zero. -/
def opposite (n : BitVec 128) : Except (Stop ε) (BitVec 128) :=
  if n = 1#128 <<< 127 then .ok (BitVec.intMin 128) else signed refusal n >>= negated

def narrowSigned (w : Width) (n : BitVec 128) : Except (Stop ε) (BitVec w.bits) :=
  if -w.half ≤ n.toInt ∧ n.toInt < w.half then .ok (n.setWidth w.bits)
  else .error (.refused refusal)

def narrowUnsigned (w : Width) (n : BitVec 128) : Except (Stop ε) (BitVec w.bits) :=
  if 0 ≤ n.toInt ∧ n.toInt < w.count then .ok (n.setWidth w.bits)
  else .error (.refused refusal)

private theorem bits_le_iff {m : BitVec 256} : bits m ≤ 128 ↔ m.toNat < 2 ^ 128 := by
  unfold bits
  split
  next zero => simp [zero]
  next nonzero =>
    have natural : m.toNat ≠ 0 := fun same => nonzero (BitVec.eq_of_toNat_eq same)
    exact Nat.lt_iff_add_one_le.symm.trans (Nat.log2_lt natural)

private theorem toNat_lowerHalf {m : BitVec 256} (small : m.toNat < 2 ^ 128) :
    (m.setWidth 128).toNat = m.toNat := by
  rw [BitVec.toNat_setWidth, Nat.mod_eq_of_lt small]

private theorem carries_iff {m : BitVec 256} :
    m.uaddOverflow 1 = true ↔ ¬ m.toNat + 1 < 2 ^ 256 := by
  have one : (1 : BitVec 256).toNat = 1 := rfl
  rw [BitVec.uaddOverflow, one, decide_eq_true_iff]
  omega

theorem successor_of {m : BitVec 256} (fits : m.toNat + 1 < 2 ^ 256) :
    ∃ next : BitVec 256, successor refusal m = .ok next ∧ next.toNat = m.toNat + 1 := by
  have exact : ¬ m.uaddOverflow 1 = true := fun carried => carries_iff.1 carried fits
  exact ⟨m + 1, if_neg exact, BitVec.toNat_add_of_not_uaddOverflow exact⟩

theorem successor_of_not {m : BitVec 256} (carried : ¬ m.toNat + 1 < 2 ^ 256) :
    successor refusal m = .error (.refused refusal) :=
  if_pos (carries_iff.2 carried)

theorem toInt_signed (n : BitVec 128) :
    BitVec.toInt <$> signed refusal n = limited refusal (· < 2 ^ 127) n.toNat := by
  have high : n.msb = true ↔ 2 ^ 127 ≤ n.toNat := by simp [BitVec.msb_eq_decide]
  unfold signed limited
  split
  next minus =>
    have large := high.1 minus
    rw [if_neg (by omega)]
    rfl
  next plus =>
    have small := mt high.2 plus
    rw [if_pos (by omega)]
    exact congrArg _ (BitVec.toInt_eq_toNat_of_msb (Bool.eq_false_iff.2 plus))

private theorem toInt_opposite (n : BitVec 128) :
    BitVec.toInt <$> opposite refusal n = limited refusal (-2 ^ 127 ≤ ·) (-n.toNat) := by
  unfold opposite
  split
  next least =>
    rw [least]
    rfl
  next other =>
    have different : n.toNat ≠ 2 ^ 127 := fun same => other (BitVec.eq_of_toNat_eq same)
    have high : n.msb = true ↔ 2 ^ 127 ≤ n.toNat := by simp [BitVec.msb_eq_decide]
    unfold signed limited
    by_cases minus : n.msb = true
    · have large := high.1 minus
      rw [if_pos minus, if_neg (by omega)]
      rfl
    · have small := mt high.2 minus
      have positive : n ≠ BitVec.intMin 128 := other
      have same : (-n).toInt = -n.toNat := by
        rw [BitVec.toInt_neg_of_ne_intMin positive,
          BitVec.toInt_eq_toNat_of_msb (Bool.eq_false_iff.2 minus)]
      rw [if_neg minus, if_pos (by omega), ← same]
      simp only [bind, Except.bind, negated, if_neg positive]
      rfl

private theorem toInt_narrowSigned {w : Width} (narrow : w ≠ .w256) (n : BitVec 128) :
    BitVec.toInt <$> narrowSigned refusal w n =
      limited refusal (fun n => -w.half ≤ n ∧ n < w.half) n.toInt := by
  unfold narrowSigned limited
  split
  next inside =>
    have same : (n.setWidth w.bits).toInt = n.toInt := by
      have size := n.isLt
      rw [w.half_eq, BitVec.toInt_eq_toNat_cond] at inside
      rw [BitVec.toInt_setWidth, Int.bmod_def, BitVec.toInt_eq_toNat_cond]
      cases w with
      | w256 => exact absurd rfl narrow
      | _ =>
        simp only [Width.bits] at *
        omega
    exact congrArg _ same
  next => rfl

private theorem toNat_narrowUnsigned (w : Width) (n : BitVec 128) :
    (fun word => (word.toNat : Int)) <$> narrowUnsigned refusal w n =
      limited refusal (fun n => 0 ≤ n ∧ n < w.count) n.toInt := by
  unfold narrowUnsigned limited
  split
  next inside =>
    have same : ((n.setWidth w.bits).toNat : Int) = n.toInt := by
      have size := n.isLt
      rw [w.count_eq, BitVec.toInt_eq_toNat_cond] at inside
      rw [BitVec.toNat_setWidth, BitVec.toInt_eq_toNat_cond, Nat.mod_eq_of_lt (by omega)]
      omega
    exact congrArg _ same
  next => rfl

theorem toInt_setWidth_of_lt {v : Nat} (few : v < 128) (n : BitVec v) :
    (n.setWidth 128).toInt = n.toNat := by
  have size : 2 ^ v ≤ 2 ^ 127 := Nat.pow_le_pow_right (by decide) (Nat.le_of_lt_succ few)
  have small := n.isLt
  have kept : (n.setWidth 128).toNat = n.toNat := by
    rw [BitVec.toNat_setWidth, Nat.mod_eq_of_lt (by omega)]
  rw [BitVec.toInt_eq_toNat_of_lt (by omega), kept]

theorem limited_extended {word : BitVec 128} {n : Int} (same : word.toInt = n) :
    BitVec.toInt <$> Except.ok word = limited () (fun n => -2 ^ 127 ≤ n ∧ n < 2 ^ 127) n := by
  rw [← same, limited_of ⟨word.le_toInt, word.toInt_lt⟩]
  rfl

end Word

/-- A sign and a magnitude of 256 bits. Zero has no minus. -/
structure SignedWord where
  negative : Bool
  magnitude : BitVec 256
  normal : negative = true → magnitude ≠ 0

namespace SignedWord

variable {ε : Type} (refusal : ε)

def toInt (s : SignedWord) : Int :=
  if s.negative then -(s.magnitude.toNat : Int) else s.magnitude.toNat

/-- The minus is left out before zero. -/
def ofParts (negative : Bool) (magnitude : BitVec 256) : SignedWord :=
  ⟨negative && magnitude != 0, magnitude, by simp⟩

def ofSigned (n : BitVec 128) : SignedWord := ofParts n.msb (n.abs.setWidth 256)

/-- Whether the number is one of 256 bits in two's complement. -/
def fits (s : SignedWord) : Bool :=
  let limit := 1#256 <<< 255
  if s.negative then s.magnitude ≤ limit else s.magnitude < limit

def toSigned (s : SignedWord) : Except (Stop ε) (BitVec 128) :=
  if 128 < Word.bits s.magnitude then .error (.refused refusal)
  else do
    let raw ← Word.lowerHalf s.magnitude
    if s.negative then Word.opposite refusal raw else Word.signed refusal raw

def toUnsigned (s : SignedWord) : Except (Stop ε) (BitVec 128) :=
  if s.negative || 128 < Word.bits s.magnitude then .error (.refused refusal)
  else Word.lowerHalf s.magnitude

def toMagnitude (s : SignedWord) : Except (Stop ε) (BitVec 256) :=
  if s.negative then .error (.refused refusal) else .ok s.magnitude

theorem toInt_ofParts (negative : Bool) (magnitude : BitVec 256) :
    (ofParts negative magnitude).toInt =
      if negative then -(magnitude.toNat : Int) else magnitude.toNat := by
  by_cases zero : magnitude = 0
  · simp [ofParts, toInt, zero]
  · have nonzero : (magnitude != 0) = true := bne_iff_ne.2 zero
    simp only [ofParts, toInt, nonzero, Bool.and_true]

theorem toInt_ofSignMagnitude {s : SignMagnitude} (small : s.magnitude < 2 ^ 256) :
    (ofParts s.negative (BitVec.ofNat 256 s.magnitude)).toInt = s.toInt := by
  rw [toInt_ofParts, BitVec.toNat_ofNat, Nat.mod_eq_of_lt small]
  rfl

theorem toInt_neg_iff {s : SignedWord} : s.toInt < 0 ↔ s.negative = true := by
  unfold toInt
  split
  next minus =>
    have nonzero : s.magnitude.toNat ≠ 0 := fun same => s.normal minus (BitVec.eq_of_toNat_eq same)
    simp only [minus, iff_true]
    omega
  next plus => exact iff_of_false (by omega) plus

theorem toInt_ofSigned (n : BitVec 128) : (ofSigned n).toInt = n.toInt := by
  have size := n.isLt
  rw [ofSigned, toInt_ofParts, BitVec.toNat_setWidth, BitVec.toNat_abs, BitVec.msb_eq_decide,
    BitVec.toInt_eq_toNat_cond]
  simp only [decide_eq_true_eq]
  split <;> split <;> omega

theorem fits_iff {s : SignedWord} : s.fits = true ↔ -2 ^ 255 ≤ s.toInt ∧ s.toInt < 2 ^ 255 := by
  have limit : (1#256 <<< 255).toNat = 2 ^ 255 := by decide
  unfold fits toInt
  split
  next =>
    simp only [decide_eq_true_eq, BitVec.le_def, limit]
    omega
  next =>
    simp only [decide_eq_true_eq, BitVec.lt_def, limit]
    omega

theorem toInt_toSigned (s : SignedWord) :
    BitVec.toInt <$> s.toSigned refusal =
      limited refusal (fun n => -2 ^ 127 ≤ n ∧ n < 2 ^ 127) s.toInt := by
  unfold toSigned toInt
  by_cases small : s.magnitude.toNat < 2 ^ 128
  · have few := Word.bits_le_iff.2 small
    rw [if_neg (by omega), Word.lowerHalf, if_pos small]
    simp only [bind, Except.bind]
    split
    next =>
      rw [Word.toInt_opposite, Word.toNat_lowerHalf small]
      exact limited_congr (by omega)
    next =>
      rw [Word.toInt_signed, Word.toNat_lowerHalf small]
      exact limited_congr (by omega)
  · have many := mt Word.bits_le_iff.1 small
    rw [if_pos (by omega), limited, if_neg (by split <;> omega)]
    rfl

theorem toNat_toUnsigned (s : SignedWord) :
    (fun word => (word.toNat : Int)) <$> s.toUnsigned refusal =
      limited refusal (fun n => 0 ≤ n ∧ n < 2 ^ 128) s.toInt := by
  unfold toUnsigned
  by_cases minus : s.negative = true
  · have negative := toInt_neg_iff.2 minus
    rw [limited_of_not (by omega), minus]
    rfl
  · have plus := Bool.eq_false_iff.2 minus
    have same : s.toInt = s.magnitude.toNat := if_neg minus
    by_cases small : s.magnitude.toNat < 2 ^ 128
    · have few : ¬ 128 < Word.bits s.magnitude := Nat.not_lt.2 (Word.bits_le_iff.2 small)
      rw [limited_of (by omega), plus, Word.lowerHalf, if_pos small, if_neg (by simpa using few)]
      rw [same, ← Word.toNat_lowerHalf small]
      rfl
    · have many : 128 < Word.bits s.magnitude := Nat.not_le.1 (mt Word.bits_le_iff.1 small)
      rw [limited_of_not (by omega), if_pos (by simp [many])]
      rfl

theorem toNat_toMagnitude (s : SignedWord) :
    (fun word => (word.toNat : Int)) <$> s.toMagnitude refusal =
      limited refusal (0 ≤ ·) s.toInt := by
  unfold toMagnitude
  by_cases minus : s.negative = true
  · have negative := toInt_neg_iff.2 minus
    rw [limited_of_not (by omega), if_pos minus]
    rfl
  · have same : s.toInt = s.magnitude.toNat := if_neg minus
    rw [limited_of (by omega), if_neg minus, same]
    rfl

end SignedWord

section kinds

variable {ε : Type} (refusal : ε)

/-- The number of the kind that the word is converted to. Kinds of at most 64 bits, and signed ones
of 128 bits, are taken from two's complement of 128 bits. -/
def IntegerKind.ofWord (s : SignedWord) : IntegerKind → Except (Stop ε) Int
  | .int => .ok s.toInt
  | .intOf .w256 => if s.fits then .ok s.toInt else .error (.refused refusal)
  | .intOf w => do
    let n ← s.toSigned refusal
    BitVec.toInt <$> Word.narrowSigned refusal w n
  | .uint | .uintOf .w256 | .wordOf .w256 =>
    (fun word => (word.toNat : Int)) <$> s.toMagnitude refusal
  | .uintOf .w128 | .wordOf .w128 => (fun word => (word.toNat : Int)) <$> s.toUnsigned refusal
  | .uintOf w | .wordOf w => do
    let n ← s.toSigned refusal
    (fun word => (word.toNat : Int)) <$> Word.narrowUnsigned refusal w n

def FixedPointKind.ofWord (s : SignedWord) (kind : FixedPointKind) : Except (Stop ε) Int := do
  let n ← s.toSigned refusal
  match kind with
  | .fix64 => BitVec.toInt <$> Word.narrowSigned refusal .w64 n
  | .ufix64 => (fun word => (word.toNat : Int)) <$> Word.narrowUnsigned refusal .w64 n

/-- Where all numbers that are wanted have 128 bits in two's complement, the way over those words
adds no limit. -/
theorem SignedWord.toSigned_bind {s : SignedWord} {p : Int → Prop} [DecidablePred p]
    (narrow : ∀ n, p n → -2 ^ 127 ≤ n ∧ n < 2 ^ 127) {next : BitVec 128 → Except (Stop ε) Int}
    (taken : ∀ n, next n = limited refusal p n.toInt) :
    (s.toSigned refusal >>= next) = limited refusal p s.toInt := by
  have step := toInt_toSigned refusal s
  rw [funext taken, ← bind_map_left, step]
  exact limited_bind (narrow s.toInt)

theorem IntegerKind.ofWord_eq (s : SignedWord) (kind : IntegerKind) :
    kind.ofWord refusal s = limited refusal kind.Within s.toInt := by
  have size := s.magnitude.isLt
  have bounds : s.toInt.natAbs < 2 ^ 256 := by
    unfold SignedWord.toInt
    split <;> omega
  have unsigned : (fun word => (word.toNat : Int)) <$> s.toMagnitude refusal =
      limited refusal (fun n => 0 ≤ n ∧ n ≤ 2 ^ 256 - 1) s.toInt :=
    (SignedWord.toNat_toMagnitude refusal s).trans (limited_congr (by omega))
  cases kind with
  | int =>
    have within : int.Within s.toInt := Nat.le_sub_one_of_lt bounds
    exact (limited_of within).symm
  | uint => exact unsigned.trans (limited_congr Iff.rfl)
  | intOf w =>
    cases w with
    | w256 =>
      have same : (intOf .w256).Within s.toInt ↔ s.fits = true :=
        (and_congr_right fun _ => Int.le_sub_one_iff).trans s.fits_iff.symm
      by_cases inside : s.fits = true
      · exact (if_pos inside).trans (limited_of (same.2 inside)).symm
      · exact (if_neg inside).trans (limited_of_not (mt same.1 inside)).symm
    | _ =>
      refine SignedWord.toSigned_bind refusal (fun n inside => ?_) fun n =>
        (Word.toInt_narrowSigned refusal (by decide) n).trans (limited_congr ?_)
      · simp only [Within, Width.bits] at inside
        omega
      · simp only [Within, Width.half_eq, Width.bits]
        omega
  | uintOf w | wordOf w =>
    cases w with
    | w256 => exact unsigned.trans (limited_congr Iff.rfl)
    | w128 =>
      -- The only width of at most 128 bits that does not fit in two's complement of 128 bits.
      refine (SignedWord.toNat_toUnsigned refusal s).trans (limited_congr ?_)
      exact and_congr_right fun _ => Int.le_sub_one_iff.symm
    | _ =>
      refine SignedWord.toSigned_bind refusal (fun n inside => ?_) fun n =>
        (Word.toNat_narrowUnsigned refusal _ n).trans (limited_congr ?_)
      · simp only [Within, Width.bits] at inside
        omega
      · simp only [Within, Width.count_eq, Width.bits]
        omega

theorem FixedPointKind.ofWord_eq (s : SignedWord) (kind : FixedPointKind) :
    kind.ofWord refusal s = limited refusal kind.Within s.toInt := by
  cases kind with
  | fix64 =>
    refine SignedWord.toSigned_bind refusal (fun n inside => ?_) fun n =>
      (Word.toInt_narrowSigned refusal (by decide) n).trans (limited_congr (@holds_iff fix64 _))
    simp only [Within] at inside
    omega
  | ufix64 =>
    refine SignedWord.toSigned_bind refusal (fun n inside => ?_) fun n =>
      (Word.toNat_narrowUnsigned refusal _ n).trans (limited_congr (@holds_iff ufix64 _))
    simp only [Within] at inside
    omega

end kinds

end CadenceWire
