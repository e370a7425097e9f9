import LiveTree.Codec
import LiveTree.Proofs.RoundTrip.Digits

/-!
Whole numbers as attribute texts and in JSON. An attribute gives back every whole number up to
`2 ^ 53`. JSON writes a fraction behind it, which is read by way of ten times the number: that is
exact as long as ten times the number is below `2 ^ 54`, and no further.
-/
namespace LiveTree
open Decimal (digitText minus)

namespace Double

theorem parts_zero (negative : Bool) :
    Decimal.parts (signed negative 0) = .finite negative 0 (-1074) := by
  cases negative <;> rfl

theorem whole?_mantissa {n m : Nat} {e : Int} (whole : Whole n m e) :
    Decimal.whole? m e = some n := by
  have shifted := whole.shifted
  have divisible : m % 2 ^ (-e).toNat = 0 := by
    by_cases least : e ≤ 0
    · rw [Int.toNat_eq_zero.mpr least, Nat.pow_zero, Nat.mul_one] at shifted
      rw [← shifted, Nat.mul_mod_left]
    · have none : (-e).toNat = 0 := by omega
      rw [none, Nat.pow_zero, Nat.mod_one]
  simp only [Decimal.whole?, Nat.pow_eq]
  rw [if_pos divisible, ← shifted, Nat.mul_div_cancel _ (Nat.two_pow_pos _)]

theorem isFinite_signed {n : Nat} (small : n < 2 ^ 53) (negative : Bool) :
    (signed negative n).isFinite = true := by
  rcases Nat.eq_zero_or_pos n with rfl | positive
  · cases negative <;> rfl
  · obtain ⟨m, e, whole⟩ := exists_whole positive (.inl small)
    rw [whole.signed]
    change (whole.toNormal.toFloat negative).toModel.unpack.isFinite = true
    rw [whole.toNormal.unpack]
    rfl

end Double

namespace Value
open Double

theorem numberText_zero (negative : Bool) : numberText (signed negative 0) = ['0'] := by
  rw [numberText, parts_zero]
  rfl

theorem numberText_signed {n : Nat} (positive : 0 < n) (bound : n ≤ 2 ^ 53) (negative : Bool) :
    numberText (signed negative n) = minus negative ++ digitText n := by
  obtain ⟨m, e, whole⟩ := exists_whole positive (by omega)
  have below : (some n).filter (· < Nat.pow 10 21) = some n := by
    rw [Option.filter_some, if_pos]
    apply decide_eq_true
    change n < 10 ^ 21
    omega
  rw [numberText, whole.parts]
  simp only [if_neg whole.toNormal.positive.ne', whole?_mantissa whole, below]
  cases negative <;> rfl

end Value

namespace Double

theorem eq_of_unpack {x y : Float} (same : x.toModel.unpack = y.toModel.unpack) : x = y := by
  have words :=
    (Float.Model.UnpackedFloat.unpack_inj_of_valid x.toModel.valid y.toModel.valid).mp same
  exact Float.toBits_inj.mp (UInt64.toBitVec_inj.mp words)

theorem unpack_of_isNaN {x : Float} (nan : x.isNaN = true) : x.toModel.unpack = .notANumber :=
  Float.Model.UnpackedFloat.isNaN_iff.mp nan

theorem eq_infinity {x : Float} (infinite : x.isInf = true) :
    ∃ negative, x = Decimal.infinity negative := by
  change x.toModel.unpack.isInf = true at infinite
  cases unpacked : x.toModel.unpack with
  | infinity s =>
    refine ⟨s == .negative, eq_of_unpack ?_⟩
    rw [unpacked]
    cases s <;> rfl
  | _ => rw [unpacked] at infinite; cases infinite

end Double

theorem Value.sameNumber_self (x : Float) : sameNumber x x = true := by
  rw [sameNumber, Bool.or_eq_true, Bool.and_self]
  by_cases nan : x.isNaN = true
  · exact .inl nan
  · rw [Float.isNaN_eq_decide_eq_nan, decide_eq_true_eq] at nan
    exact .inr (Float.beq_self_iff.mpr nan)

namespace Decimal

theorem nearest_whole {n : Nat} (positive : 0 < n) (bound : n ≤ 2 ^ 53) (negative : Bool) :
    nearest negative n 0 = Double.signed negative n := by
  have few : (Nat.toDigits 10 n).length ≤ 16 :=
    (Nat.length_toDigits_le_iff (by decide) (by decide)).mpr (by omega)
  simp only [nearest]
  rw [if_neg (by omega), if_neg (by omega)]
  rfl

end Decimal

namespace Codec

theorem integerAtStart_text (negative : Bool) (n : Nat) :
    integerAtStart (minus negative ++ digitText n) = Decimal.nearest negative n 0 := by
  have alone := Decimal.digits_digitText n Decimal.stops_nil
  rw [List.append_nil] at alone
  simp only [integerAtStart, Decimal.trimStart_minus, Decimal.sign_minus, alone]
  rw [if_neg, Decimal.ofDigits_digitText]
  simp [Decimal.digitText_ne_nil]

theorem numberAtStart_text (negative : Bool) (n : Nat) :
    numberAtStart (minus negative ++ digitText n) = Decimal.nearest negative n 0 := by
  have alone := Decimal.digits_digitText n Decimal.stops_nil
  rw [List.append_nil] at alone
  have finite : (Text.strip? "Infinity".toList (digitText n)).isSome = false := by
    obtain ⟨c, rest, text, digit⟩ := Decimal.exists_digit n
    have other : 'I' ≠ c := by
      rintro rfl
      cases digit
    rw [text]
    change (if 'I' = c then _ else none).isSome = false
    rw [if_neg other]
    rfl
  have some : (digitText n).isEmpty = false := by simp [Decimal.digitText_ne_nil]
  simp only [numberAtStart, Decimal.trimStart_minus, Decimal.sign_minus, finite,
    Bool.false_eq_true, if_false, Decimal.literal?, alone, some, Decimal.fraction, Decimal.power,
    Bool.false_and, List.append_nil, List.length_nil, Decimal.Literal.toFloat,
    Decimal.ofDigits_digitText]
  rfl

end Codec

namespace Json
open Double

theorem write_shortest {n m : Nat} {e : Int} (whole : Whole n m e) (least : e ≤ 0)
    (small : n < 10 ^ 16) :
    numbers.write (Decimal.shortest .even m e) = digitText n ++ ['.', '0'] := by
  have positive := whole.number_pos
  obtain ⟨sign, value⟩ := Decimal.shortest_whole whole least .even
  have digits : 0 < (Decimal.shortest .even m e).digits := by
    rw [← value] at positive
    exact Nat.pos_of_mul_pos_right positive
  have length := congrArg List.length (Decimal.digitText_tenfold _
    (Decimal.shortest .even m e).exponent.toNat digits)
  rw [value, List.length_append, Decimal.zeros, List.length_replicate] at length
  have few : (digitText n).length ≤ 16 :=
    (Nat.length_toDigits_le_iff (by decide) (by decide)).mpr small
  have some : 0 < (digitText n).length := Nat.length_toDigits_pos
  simp only [numbers, Decimal.Format.write]
  rw [if_pos (by omega), Decimal.Digits.positional_whole sign positive value]
  rfl

theorem numberText_signed {n : Nat} (small : n < 2 ^ 53) (negative : Bool) :
    numberText (signed negative n) = minus negative ++ digitText n ++ ['.', '0'] := by
  rcases Nat.eq_zero_or_pos n with rfl | positive
  · rw [numberText, parts_zero]
    cases negative <;> rfl
  · obtain ⟨m, e, whole⟩ := exists_whole positive (.inl small)
    have least : e ≤ 0 := by
      have log2 := (Nat.log2_lt positive.ne').mpr small
      rw [whole.number_log2] at log2
      omega
    rw [numberText, whole.parts]
    simp only [if_neg whole.toNormal.positive.ne']
    rw [show numbers.tie = .even from rfl, write_shortest whole least (by omega),
      List.append_assoc]
    rfl

/-- Digits are gathered one by one while the number stays below `2 ^ 64`. -/
theorem gather_eq {m : Nat} {ds : List Char}
    (fits : ds.foldl (fun n c => 10 * n + Decimal.digitValue c) m < 2 ^ 64) :
    gather m ds = (ds.foldl (fun n c => 10 * n + Decimal.digitValue c) m, []) := by
  induction ds generalizing m with
  | nil => rfl
  | cons c ds ih =>
    have grows (k : Nat) (ds : List Char) :
        k ≤ ds.foldl (fun n c => 10 * n + Decimal.digitValue c) k := by
      induction ds generalizing k with
      | nil => exact Nat.le_refl k
      | cons c ds ih => exact le_trans (by omega) (ih (10 * k + Decimal.digitValue c))
    have here := lt_of_le_of_lt (grows _ ds) fits
    rw [gather]
    simp only [Nat.pow_eq]
    rw [if_pos here, ih fits]
    rfl

theorem gather_digitText {n : Nat} (fits : n < 2 ^ 64) : gather 0 (digitText n) = (n, []) := by
  have value : (digitText n).foldl (fun n c => 10 * n + Decimal.digitValue c) 0 = n :=
    Decimal.ofDigits_digitText n
  rw [gather_eq (by rw [value]; exact fits), value]

/-- The double of ten times a whole number, divided by ten. -/
theorem scale_tenfold {n : Nat} (small : 10 * n < 2 ^ 54) :
    scale (Float.ofNat (10 * n)) (-1) = some (Float.ofNat n) := by
  have tenth : Float.ofNat (10 * n) / Float.ofScientific 1 false 1 = Float.ofNat n := by
    rcases Nat.eq_zero_or_pos n with rfl | positive
    · rfl
    · obtain ⟨m, e, whole⟩ := exists_whole positive (by omega)
      obtain ⟨m', e', tenfold⟩ := exists_whole (n := 10 * n) (by omega) (.inr (by omega))
      exact whole.tenth tenfold
  rw [scale, if_neg (by decide), if_neg (by decide), if_pos (by decide)]
  exact congrArg some tenth

theorem numberOf_whole {n : Nat} (small : 10 * n < 2 ^ 54) (negative : Bool) :
    numberOf negative (digitText n) ['0'] none = some (signed negative n) := by
  have tenfold : gather n ['0'] = (10 * n, []) := by
    have value : ['0'].foldl (fun n c => 10 * n + Decimal.digitValue c) n = 10 * n := rfl
    rw [gather_eq (by rw [value]; omega), value]
  simp only [numberOf, gather_digitText (n := n) (by omega), tenfold]
  simp [scale_tenfold small, signed]

def Closes (rest : List Char) : Prop := ∀ c ∈ rest.head?, c = ',' ∨ c = ']' ∨ c = '}'

theorem Closes.stops {rest : List Char} (closes : Closes rest) : Decimal.Stops rest := by
  intro c member
  rcases closes c member with rfl | rfl | rfl <;> rfl

theorem digits?_eq {ds rest : List Char} (some : ds ≠ [])
    (all : ∀ c ∈ ds, Decimal.isDigit c = true) (stops : Decimal.Stops rest) :
    digits? (ds ++ rest) = .some (ds, rest) := by
  simp [digits?, Decimal.takeWhile_isDigit all stops, Decimal.dropWhile_isDigit all stops, some]

/-- A whole number is read back from its text. -/
theorem number?_text {n : Nat} (small : 10 * n < 2 ^ 54) (negative : Bool) {rest : List Char}
    (closes : Closes rest) :
    number? (minus negative ++ digitText n ++ ['.', '0'] ++ rest) =
      some (signed negative n, rest) := by
  have whole : digits? (digitText n ++ '.' :: '0' :: rest) =
      some (digitText n, '.' :: '0' :: rest) :=
    digits?_eq (Decimal.digitText_ne_nil n) (fun _ => Decimal.isDigit_of_mem_digitText)
      (Decimal.stops_cons rfl)
  have fraction : digits? (['0'] ++ rest) = some (['0'], rest) :=
    digits?_eq (by simp) (by simp [Decimal.isDigit]) closes.stops
  rw [List.singleton_append] at fraction
  have plain : (digitText n).length = 1 ∨ (digitText n).head? ≠ some '0' := by
    rcases Nat.eq_zero_or_pos n with rfl | positive
    · exact .inl rfl
    · exact .inr (Decimal.head?_digitText positive)
  have text : minus negative ++ digitText n ++ ['.', '0'] ++ rest =
      minus negative ++ (digitText n ++ '.' :: '0' :: rest) := by simp
  have value := numberOf_whole small negative
  rw [text]
  unfold number?
  split
  next sign cs eq =>
    have start : (sign, cs) = (negative, digitText n ++ '.' :: '0' :: rest) := by
      rw [← eq]
      cases negative with
      | true => rfl
      | false =>
        obtain ⟨c, ds, first, digit⟩ := Decimal.exists_digit n
        rw [first]
        simp only [minus, Bool.false_eq_true, if_false, List.nil_append, List.cons_append]
        split
        · next eq => cases eq; cases digit
        · rfl
    obtain ⟨rfl, rfl⟩ := Prod.mk.inj start
    simp only [whole, plain, fraction, guard_true, Option.pure_def, Option.bind_eq_bind,
      Option.bind_some]
    rcases rest with _ | ⟨c, rest⟩
    · simp [value]
    · rcases closes c rfl with rfl | rfl | rfl <;> simp [value]

end Json
end LiveTree
