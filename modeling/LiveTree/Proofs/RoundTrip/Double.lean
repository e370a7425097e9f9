import LiveTree.Json.Reader
import LiveTree.Value
import Mathlib

/-!
Whole numbers among the doubles: which mantissa and exponent they have, and that ten times a whole
number, taken as a double and divided by ten, is that number again as long as ten times it is
below `2 ^ 54`.
-/
namespace LiveTree.Double
open Float.Model (Format totalExponent)
open Float.Model.UnpackedFloat

structure Normal (m : Nat) (e : Int) : Prop where
  low : 2 ^ 52 ≤ m
  high : m < 2 ^ 53
  least : -1074 ≤ e
  most : e ≤ 971

def signOf (negative : Bool) : Sign := if negative then .negative else .positive

variable {m m' n : Nat} {e e' : Int}

namespace Normal

theorem positive (normal : Normal m e) : 0 < m := by
  have := normal.low
  omega

def toFloat (normal : Normal m e) (negative : Bool) : Float :=
  .ofModel (Float.Model.pack (.finite (signOf negative) m e normal.positive))

theorem log2 (normal : Normal m e) : m.log2 = 52 :=
  (Nat.log2_eq_iff (by have := normal.positive; omega)).mpr ⟨normal.low, normal.high⟩

theorem targetExponent (normal : Normal m e) :
    Format.binary64.targetExponent (totalExponent m e) = e := by
  have least := normal.least
  simp only [Format.targetExponent, totalExponent, normal.log2, Format.mantissaBits,
    Format.minExponent]
  omega

/-- The word of the double: its sign, its exponent above the least one, and the bits of the
mantissa after the first. -/
theorem pack (normal : Normal m e) (s : Sign) :
    Float.Model.UnpackedFloat.pack Format.binary64 (.finite s m e normal.positive) =
      packComponents Format.binary64 s (BitVec.ofNat 11 (e + 1075).toNat) (BitVec.ofNat 52 m) := by
  have least := normal.least
  have most := normal.most
  have biased : (e + Format.binary64.exponentBias +
      Format.binary64.mantissaBitsWithoutImplicit).toNat = (e + 1075).toNat := by
    change (e + 1023 + 52).toNat = _
    omega
  have small : ¬ 2 ^ Format.binary64.exponentBits ≤ (e + 1075).toNat + 1 := by
    change ¬ 2048 ≤ (e + 1075).toNat + 1
    omega
  simp only [Float.Model.UnpackedFloat.pack, biased, if_neg small, normal.log2]
  rfl

theorem unpack (normal : Normal m e) (negative : Bool) :
    (normal.toFloat negative).toModel.unpack =
      .finite (signOf negative) m e normal.positive := by
  have low := normal.low
  have high := normal.high
  have least := normal.least
  have most := normal.most
  have biased : (BitVec.ofNat 11 (e + 1075).toNat).toNat = (e + 1075).toNat := by
    rw [BitVec.toNat_ofNat]
    omega
  have finite : BitVec.ofNat 11 (e + 1075).toNat ≠ -1#11 := by
    intro eq
    have := congrArg BitVec.toNat eq
    rw [biased] at this
    change (e + 1075).toNat = 2047 at this
    omega
  have regular : BitVec.ofNat 11 (e + 1075).toNat ≠ 0#11 := by
    intro eq
    have := congrArg BitVec.toNat eq
    rw [biased] at this
    change (e + 1075).toNat = 0 at this
    omega
  have mantissa : (1#1 ++ BitVec.ofNat 52 m).toNat = m := by
    simp only [BitVec.toNat_append, BitVec.toNat_ofNat, Nat.shiftLeft_eq]
    change 2 ^ 52 ||| (m % 2 ^ 52) = m
    rw [Nat.or_comm, Nat.or_two_pow_eq_add_of_lt (Nat.mod_lt m (Nat.two_pow_pos 52))]
    omega
  have exponent : ((e + 1075).toNat : Int) - (Format.binary64.exponentBias + 52) = e := by
    change ((e + 1075).toNat : Int) - (1023 + 52) = e
    omega
  change Float.Model.UnpackedFloat.unpack Format.binary64
    (Float.Model.UnpackedFloat.pack Format.binary64 _) = _
  rw [normal.pack]
  simp only [Float.Model.UnpackedFloat.unpack, unpackMantissa_packComponents,
    unpackExponent_packComponents, unpackSign_packComponents]
  rw [if_neg finite, if_neg regular]
  simp only [biased, mantissa, Sign.ofBitVec_toBitVec]
  congr 1

end Normal

/-- The first bit of a normal mantissa is not stored. -/
theorem toNat_implicit (fraction : BitVec 52) :
    (1#1 ++ fraction).toNat = 2 ^ 52 + fraction.toNat := by
  rw [BitVec.toNat_append, Nat.shiftLeft_eq, Nat.or_comm]
  change fraction.toNat ||| 2 ^ 52 = _
  rw [Nat.or_two_pow_eq_add_of_lt fraction.isLt, Nat.add_comm]

section Word
variable (b : BitVec Format.binary64.numBits)

theorem toNat_unpackMantissa : (unpackMantissa b).toNat = b.toNat % Nat.pow 2 52 := by
  rw [unpackMantissa_def, BitVec.extractLsb'_toNat]
  rfl

theorem toNat_unpackExponent : (unpackExponent b).toNat = b.toNat / Nat.pow 2 52 % 2048 := by
  rw [unpackExponent_def, BitVec.extractLsb'_toNat, Nat.shiftRight_eq_div_pow]
  rfl

theorem unpackSign_eq_negative :
    (Sign.ofBitVec (unpackSign b) == .negative) = decide (Nat.pow 2 63 ≤ b.toNat) := by
  have bound : b.toNat < 2 ^ 64 := b.isLt
  have word : (unpackSign b).toNat = b.toNat / 2 ^ 63 % 2 := by
    rw [unpackSign_def, BitVec.extractLsb'_toNat, Nat.shiftRight_eq_div_pow]
    rfl
  have whole : b.toNat / 2 ^ 63 % 2 = b.toNat / 2 ^ 63 := by omega
  rw [whole] at word
  by_cases set : Nat.pow 2 63 ≤ b.toNat
  · have one : unpackSign b = 1#1 := by
      rw [← BitVec.toNat_inj, word]
      change _ = 1
      change 2 ^ 63 ≤ _ at set
      omega
    rw [one, decide_eq_true set]
    rfl
  · have none : unpackSign b = 0#1 := by
      rw [← BitVec.toNat_inj, word]
      change _ = 0
      change ¬ 2 ^ 63 ≤ _ at set
      omega
    rw [none, decide_eq_false set]
    rfl

end Word

/-- A double taken apart is read off its unpacked form. -/
theorem parts_eq (x : Float) :
    Decimal.parts x = match x.toModel.unpack with
      | .notANumber => .nan
      | .infinity s => .infinite (s == .negative)
      | .zero s => .finite (s == .negative) 0 (-1074)
      | .finite s m e _ => .finite (s == .negative) m e := by
  obtain ⟨b, word⟩ : ∃ b : BitVec Format.binary64.numBits, x.toModel.toBits.toBitVec = b := ⟨_, rfl⟩
  have infinite : unpackExponent b = -1#11 ↔ (unpackExponent b).toNat = 2047 := by
    rw [← BitVec.toNat_inj]
    rfl
  have subnormal : unpackExponent b = 0#11 ↔ (unpackExponent b).toNat = 0 := by
    rw [← BitVec.toNat_inj]
    rfl
  have plain : unpackMantissa b = 0#52 ↔ (unpackMantissa b).toNat = 0 := by
    rw [← BitVec.toNat_inj]
    rfl
  have bits : x.toBits.toNat = b.toNat := by rw [← word]; rfl
  simp only [Float.Model.unpack, word, Float.Model.UnpackedFloat.unpack, Decimal.parts, bits,
    ← toNat_unpackMantissa, ← toNat_unpackExponent, ← unpackSign_eq_negative]
  by_cases top : (unpackExponent b).toNat = 2047
  · by_cases empty : (unpackMantissa b).toNat = 0
    · rw [if_pos top, if_pos empty, if_pos (infinite.mpr top), if_pos (plain.mpr empty)]
    · rw [if_pos top, if_neg empty, if_pos (infinite.mpr top), if_neg (mt plain.mp empty)]
  · rw [if_neg top, if_neg (mt infinite.mp top)]
    by_cases least : (unpackExponent b).toNat = 0
    · rw [if_pos least, if_pos (subnormal.mpr least)]
      by_cases empty : (unpackMantissa b).toNat = 0
      · rw [dif_pos (plain.mpr empty), empty]
      · rw [dif_neg (mt plain.mp empty), least]
        rfl
    · rw [if_neg least, if_neg (mt subnormal.mp least)]
      simp only [toNat_implicit]
      rfl

/-- Shifting out zeros loses nothing. -/
theorem shift_exact (m k : Nat) :
    ExtendedMantissa.ofMantissaAndAccuracy (m * 2 ^ k) .exact >>> k =
      ExtendedMantissa.ofMantissaAndAccuracy m .exact := by
  induction k generalizing m with
  | zero =>
    rw [Nat.pow_zero, Nat.mul_one]
    rfl
  | succ k ih =>
    have outer : m * 2 ^ (k + 1) = m * 2 * 2 ^ k := by rw [Nat.pow_succ']; ring
    change ExtendedMantissa.shiftRightOne
      (ExtendedMantissa.ofMantissaAndAccuracy (m * 2 ^ (k + 1)) .exact >>> k) = _
    rw [outer, ih]
    simp [ExtendedMantissa.shiftRightOne, ExtendedMantissa.ofMantissaAndAccuracy]

/-- A normal mantissa that was shifted up is rounded to itself. -/
theorem Normal.round (normal : Normal m e) (s : Sign) (k : Nat) :
    roundWithAccuracy Format.binary64 s (m * 2 ^ k) (e - k) .exact =
      .finite s m e normal.positive := by
  have length : (m * 2 ^ k).log2 = 52 + k := by
    have nonzero : m * 2 ^ k ≠ 0 := (Nat.mul_pos normal.positive (Nat.two_pow_pos k)).ne'
    rw [Nat.log2_eq_iff nonzero]
    exact ⟨by rw [Nat.pow_add]; exact Nat.mul_le_mul_right _ normal.low,
      by rw [Nat.add_right_comm, Nat.pow_add]
         exact Nat.mul_lt_mul_of_pos_right normal.high (Nat.two_pow_pos k)⟩
  have target : Format.binary64.targetExponent (totalExponent (m * 2 ^ k) (e - k)) = e := by
    have here := normal.targetExponent
    simp only [Format.targetExponent, totalExponent, length, normal.log2] at here ⊢
    omega
  have shifted : shiftToTargetExponent Format.binary64 (m * 2 ^ k) (e - k) .exact =
      (ExtendedMantissa.ofMantissaAndAccuracy m .exact, e) := by
    have distance : (e - (e - k)).toNat = k := by omega
    have back : e - k + k = e := by omega
    simp only [shiftToTargetExponent, target, shiftToExponent, distance, shift_exact, back]
  have settled : shiftToTargetExponent Format.binary64 m e .exact =
      (ExtendedMantissa.ofMantissaAndAccuracy m .exact, e) := by
    have still := shift_exact m 0
    rw [Nat.pow_zero, Nat.mul_one] at still
    simp only [shiftToTargetExponent, normal.targetExponent, shiftToExponent, Int.sub_self,
      Int.toNat_zero, still, Nat.cast_zero, Int.add_zero]
  have rounded : (ExtendedMantissa.ofMantissaAndAccuracy m .exact).roundedMantissa = m := rfl
  rw [roundWithAccuracy, shifted]
  simp only [rounded, settled]
  rw [dif_neg]
  · rfl
  · exact normal.positive.ne'

/-- The double that `n` is: `n = m * 2 ^ e`, the exponent being at least that of one. -/
structure Whole (n m : Nat) (e : Int) : Prop extends Normal m e where
  unit : -52 ≤ e
  value : m * 2 ^ (e + 52).toNat = n * 2 ^ 52

namespace Whole

theorem shifted (whole : Whole n m e) : n * 2 ^ (-e).toNat = m * 2 ^ e.toNat := by
  have unit := whole.unit
  have lengths : (e + 52).toNat + (-e).toNat = e.toNat + 52 := by omega
  apply Nat.eq_of_mul_eq_mul_right (Nat.two_pow_pos 52)
  calc n * 2 ^ (-e).toNat * 2 ^ 52
      = m * 2 ^ (e + 52).toNat * 2 ^ (-e).toNat := by rw [whole.value]; ring
    _ = m * 2 ^ ((e + 52).toNat + (-e).toNat) := by rw [Nat.pow_add]; ring
    _ = m * 2 ^ e.toNat * 2 ^ 52 := by rw [lengths, Nat.pow_add]; ring

theorem number_pos (whole : Whole n m e) : 0 < n := by
  have := Nat.mul_pos whole.toNormal.positive (Nat.two_pow_pos (e + 52).toNat)
  rw [whole.value] at this
  exact Nat.pos_of_mul_pos_right this

theorem number_log2 (whole : Whole n m e) : n.log2 = (e + 52).toNat := by
  have value := whole.value
  rw [Nat.log2_eq_iff whole.number_pos.ne']
  constructor
  · have := Nat.mul_le_mul_right (2 ^ (e + 52).toNat) whole.low
    omega
  · have := Nat.mul_lt_mul_of_pos_right whole.high (Nat.two_pow_pos (e + 52).toNat)
    rw [Nat.pow_succ]
    omega

theorem round (whole : Whole n m e) :
    Float.Model.UnpackedFloat.round Format.binary64 .positive n 0 =
      .finite .positive m e whole.toNormal.positive := by
  have unit := whole.unit
  have target : Format.binary64.targetExponent (totalExponent n 0) = e := by
    have here := whole.toNormal.targetExponent
    simp only [Format.targetExponent, totalExponent, whole.number_log2, whole.toNormal.log2]
      at here ⊢
    omega
  have exponent : (0 : Int) - (0 - e).toNat = e - e.toNat := by omega
  have distance : (0 - e).toNat = (-e).toNat := by rw [Int.zero_sub]
  simp only [Float.Model.UnpackedFloat.round, target, decreaseExponent, Nat.shiftLeft_eq, exponent]
  rw [distance, whole.shifted, whole.toNormal.round]

theorem mul_one (whole : Whole n m e) :
    whole.toNormal.toFloat false * Float.ofBits 4607182418800017408 =
      whole.toNormal.toFloat false := by
  have one : (Float.ofBits 4607182418800017408).toModel.unpack =
      .finite .positive (2 ^ 52) (-52) (by decide) := by rfl
  change Float.ofModel (Float.Model.pack (mul Format.binary64
    (whole.toNormal.toFloat false).toModel.unpack
    (Float.ofBits 4607182418800017408).toModel.unpack)) = _
  rw [whole.toNormal.unpack, one]
  change Float.ofModel (Float.Model.pack
    (roundWithAccuracy Format.binary64 .positive (m * 2 ^ 52) (e - (52 : Nat)) .exact)) = _
  rw [whole.toNormal.round]
  rfl

theorem ofNat (whole : Whole n m e) : Float.ofNat n = whole.toNormal.toFloat false := by
  have unit := whole.unit
  change Float.ofScientific n false 0 = _
  unfold Float.ofScientific
  split
  · next small =>
    have word : n.toUInt64.toNat = n := by
      rw [Nat.toUInt64_eq, UInt64.toNat_ofNat']
      omega
    have sign : compare (n : Int) 0 = .gt :=
      Int.compare_eq_gt.mpr (Int.natCast_pos.mpr whole.number_pos)
    have converted : n.toUInt64.toFloat = whole.toNormal.toFloat false := by
      change Float.ofModel (Float.Model.pack
        (Float.Model.UnpackedFloat.normalize Format.binary64 n.toUInt64.toNat 0 .positive)) = _
      rw [word]
      simp only [Float.Model.UnpackedFloat.normalize, sign, Int.toNat_natCast, whole.round]
      rfl
    change n.toUInt64.toFloat * Float.ofBits 4607182418800017408 = _
    rw [converted, whole.mul_one]
  · next large =>
    have zero : n ≠ 0 := whole.number_pos.ne'
    have scaled : n * 2 ^ 53 * 1 = m * 2 ^ (e + 53).toNat := by
      have length : (e + 53).toNat = (e + 52).toNat + 1 := by omega
      calc n * 2 ^ 53 * 1 = n * 2 ^ 52 * 2 := by ring
        _ = m * 2 ^ (e + 53).toNat := by rw [← whole.value, length, Nat.pow_succ]; ring
    have exponent : (-(53 : Nat) : Int) + 0 = e - (e + 53).toNat := by omega
    have bits : Format.binary64.mantissaBits = 53 := rfl
    change Float.ofModel (Float.Model.pack (ofScientific Format.binary64 n 0)) = _
    rw [ofScientific, dif_neg zero, if_neg (by decide), if_neg, if_pos (by decide)]
    · simp only [mul, Nat.shiftLeft_eq, Int.toNat_zero, Nat.pow_zero, bits]
      rw [scaled, exponent]
      rw [whole.toNormal.round]
      rfl
    · have width : Format.binary64.exponentBits = 11 := rfl
      rw [width]
      omega

/-- Ten among the doubles is `5 * 2 ^ 50` with exponent `-49`. -/
theorem unpack_ten : (Float.ofScientific 1 false 1).toModel.unpack =
    .finite .positive (5 * 2 ^ 50) (-49) (by decide) := by rfl

/-- The mantissa of `10 * n` is ten eighths or ten sixteenths of that of `n`. -/
theorem tenfold_ratio (whole : Whole n m e) (tenfold : Whole (10 * n) m' e') :
    ∃ k : Nat, m' * 2 ^ 53 = m * 2 ^ k * (5 * 2 ^ 50) ∧ e' - 4 = e - k := by
  have unit := whole.unit
  have unit' := tenfold.unit
  obtain ⟨least, most⟩ := (Nat.log2_eq_iff whole.number_pos.ne').mp whole.number_log2
  obtain ⟨least', most'⟩ := (Nat.log2_eq_iff tenfold.number_pos.ne').mp tenfold.number_log2
  have values : m' * 2 ^ (e' + 52).toNat = 10 * m * 2 ^ (e + 52).toNat := by
    rw [tenfold.value, Nat.mul_assoc 10 m, whole.value, Nat.mul_assoc]
  have few : (e' + 52).toNat < (e + 52).toNat + 5 := by
    apply (Nat.pow_lt_pow_iff_right Nat.one_lt_two).mp
    rw [Nat.pow_succ] at most
    rw [Nat.pow_add]
    omega
  have many : (e + 52).toNat + 3 < (e' + 52).toNat + 1 := by
    apply (Nat.pow_lt_pow_iff_right Nat.one_lt_two).mp
    have := Nat.two_pow_pos (e + 52).toNat
    rw [Nat.pow_add]
    omega
  rcases (by omega : (e' + 52).toNat = (e + 52).toNat + 3 ∨ (e' + 52).toNat = (e + 52).toNat + 4)
    with three | four
  · rw [three, Nat.pow_add, Nat.mul_comm (2 ^ _), ← Nat.mul_assoc] at values
    have := Nat.eq_of_mul_eq_mul_right (Nat.two_pow_pos _) values
    exact ⟨1, by omega, by omega⟩
  · rw [four, Nat.pow_add, Nat.mul_comm (2 ^ _), ← Nat.mul_assoc] at values
    have := Nat.eq_of_mul_eq_mul_right (Nat.two_pow_pos _) values
    exact ⟨0, by omega, by omega⟩

/-- The division of `10 * n` by ten leaves no rest. -/
theorem tenth (whole : Whole n m e) (tenfold : Whole (10 * n) m' e') :
    Float.ofNat (10 * n) / Float.ofScientific 1 false 1 = Float.ofNat n := by
  obtain ⟨k, quotient, exponent⟩ := whole.tenfold_ratio tenfold
  have unit' := tenfold.unit
  have target : Format.binary64.targetExponent
      (totalExponent m' e' - totalExponent (5 * 2 ^ 50) (-49)) = e' - 4 := by
    have ten : (5 * 2 ^ 50).log2 = 52 := by decide
    simp only [Format.targetExponent, totalExponent, tenfold.toNormal.log2, ten,
      Format.mantissaBits, Format.minExponent]
    omega
  have core : divCore Format.binary64 m' e' (5 * 2 ^ 50) (-49) = (m * 2 ^ k, e - k, .exact) := by
    have lower : min (e' - -49) (e' - 4) = e - k := by omega
    have distance : (e' - -49 - (e - k)).toNat = 53 := by omega
    have divisor : 0 < 5 * 2 ^ 50 := by decide
    simp only [divCore, target, lower, distance, Nat.shiftLeft_eq, quotient,
      Nat.mul_div_cancel _ divisor, Nat.mul_mod_left]
    rfl
  rw [tenfold.ofNat, whole.ofNat]
  change Float.ofModel (Float.Model.pack (div Format.binary64
    (tenfold.toNormal.toFloat false).toModel.unpack
    (Float.ofScientific 1 false 1).toModel.unpack)) = _
  rw [tenfold.toNormal.unpack, unpack_ten]
  simp only [div, core, whole.toNormal.round]
  rfl

end Whole

def signed (negative : Bool) (n : Nat) : Float :=
  if negative then -Float.ofNat n else Float.ofNat n

theorem Normal.neg (normal : Normal m e) : -normal.toFloat false = normal.toFloat true := by
  change Float.ofModel (Float.Model.pack (normal.toFloat false).toModel.unpack.neg) = _
  rw [normal.unpack]
  rfl

theorem Whole.signed (whole : Whole n m e) (negative : Bool) :
    Double.signed negative n = whole.toNormal.toFloat negative := by
  cases negative with
  | false => exact whole.ofNat
  | true =>
    change -Float.ofNat n = _
    rw [whole.ofNat, whole.toNormal.neg]

theorem Whole.parts (whole : Whole n m e) (negative : Bool) :
    Decimal.parts (Double.signed negative n) = .finite negative m e := by
  rw [whole.signed, parts_eq, whole.toNormal.unpack]
  cases negative <;> rfl

theorem exists_whole_of_lt (positive : 0 < n) (small : n < 2 ^ 53) : ∃ m e, Whole n m e := by
  obtain ⟨least, most⟩ := (Nat.log2_eq_iff positive.ne').mp rfl
  have bits : n.log2 < 53 := (Nat.log2_lt positive.ne').mpr small
  have lengths : 2 ^ (52 - n.log2) * 2 ^ n.log2 = 2 ^ 52 := by
    rw [← Nat.pow_add]
    congr 1
    omega
  refine ⟨n * 2 ^ (52 - n.log2), n.log2 - 52, ⟨?_, ?_, by omega, by omega⟩, by omega, ?_⟩
  · rw [← lengths, Nat.mul_comm]
    exact Nat.mul_le_mul_right _ least
  · have := Nat.mul_lt_mul_of_pos_right most (Nat.two_pow_pos (52 - n.log2))
    rw [Nat.pow_succ, Nat.mul_right_comm, Nat.mul_comm (2 ^ n.log2), lengths] at this
    exact this
  · have exponent : ((n.log2 : Int) - 52 + 52).toNat = n.log2 := by omega
    rw [exponent, Nat.mul_assoc, lengths]

/-- Every positive whole number of at most 53 bits is a double, and so is every even one of 54. -/
theorem exists_whole (positive : 0 < n) (fits : n < 2 ^ 53 ∨ n % 2 = 0 ∧ n < 2 ^ 54) :
    ∃ m e, Whole n m e := by
  by_cases small : n < 2 ^ 53
  · exact exists_whole_of_lt positive small
  · obtain ⟨even, bound⟩ := fits.resolve_left small
    refine ⟨n / 2, 1, ⟨by omega, by omega, by omega, by omega⟩, by omega, ?_⟩
    change n / 2 * 2 ^ 53 = _
    omega

end LiveTree.Double
