import LiveTree.Decimal.Format
import LiveTree.Proofs.RoundTrip.Double
import LiveTree.Text.Search

/-!
The digits of whole numbers: they are read back as the number, wherever in a text they stand, and
the shortest decimal for a whole double below `2 ^ 53` has that number's digits.
-/
namespace LiveTree.Decimal

theorem isDigit_of_mem_digitText {n : Nat} {c : Char} (member : c ∈ digitText n) :
    isDigit c = true := by
  have digit : c.isDigit = true :=
    Nat.isDigit_of_mem_toDigits (by decide) (by decide) member
  simp only [Char.isDigit, Bool.and_eq_true, decide_eq_true_eq] at digit
  simp only [isDigit, Bool.and_eq_true, decide_eq_true_eq]
  exact ⟨digit.1, digit.2⟩

@[simp] theorem ofDigits_digitText (n : Nat) : ofDigits (digitText n) = n :=
  Nat.ofDigitChars_toDigits (by decide) (by decide)

theorem digitText_ne_nil (n : Nat) : digitText n ≠ [] :=
  List.ne_nil_of_length_pos Nat.length_toDigits_pos

theorem digitText_cons (n d : Nat) (positive : 0 < n) (digit : d < 10) :
    digitText (10 * n + d) = digitText n ++ digitText d :=
  (Nat.toDigits_append_toDigits (by decide) positive digit).symm

/-- Only zero is written with a zero in front. -/
theorem head?_digitText {n : Nat} (positive : 0 < n) : (digitText n).head? ≠ some '0' := by
  induction n using Nat.strongRecOn with
  | _ n ih =>
    by_cases single : n < 10
    · interval_cases n <;> decide
    · have split : n = 10 * (n / 10) + n % 10 := by omega
      rw [split, digitText_cons _ _ (by omega) (by omega),
        List.head?_append_of_ne_nil _ (digitText_ne_nil _)]
      exact ih (n / 10) (by omega) (by omega)

theorem digitText_tenfold (n k : Nat) (positive : 0 < n) :
    digitText (n * 10 ^ k) = digitText n ++ zeros k := by
  induction k with
  | zero => simp [zeros]
  | succ k ih =>
    have outer : n * 10 ^ (k + 1) = 10 * (n * 10 ^ k) + 0 := by ring
    rw [outer, digitText_cons _ _ (by positivity) (by decide), ih]
    simp [zeros, List.replicate_succ', digitText]

def Stops (rest : List Char) : Prop := ∀ c ∈ rest.head?, isDigit c = false

theorem stops_nil : Stops [] := by
  intro c member
  cases member

theorem stops_cons {c : Char} {rest : List Char} (other : isDigit c = false) :
    Stops (c :: rest) := by
  intro d member
  cases member
  exact other

theorem takeWhile_isDigit {ds rest : List Char} (all : ∀ c ∈ ds, isDigit c = true)
    (stops : Stops rest) : (ds ++ rest).takeWhile isDigit = ds :=
  Text.takeWhile_run all stops

theorem dropWhile_isDigit {ds rest : List Char} (all : ∀ c ∈ ds, isDigit c = true)
    (stops : Stops rest) : (ds ++ rest).dropWhile isDigit = rest :=
  Text.dropWhile_run all stops

theorem digits_digitText (n : Nat) {rest : List Char} (stops : Stops rest) :
    digits (digitText n ++ rest) = (digitText n, rest) := by
  have all : ∀ c ∈ digitText n, isDigit c = true := fun _ => isDigit_of_mem_digitText
  rw [digits, takeWhile_isDigit all stops, dropWhile_isDigit all stops]

theorem isBlank_of_isDigit {c : Char} (digit : isDigit c = true) : Text.isBlank c = false := by
  have bounds := isDigit_iff.mp digit
  simp only [Text.isBlank, Text.inRanges, Text.blankRanges, List.any_cons, List.any_nil,
    Bool.or_false, Bool.or_eq_false_iff, Bool.and_eq_false_iff, decide_eq_false_iff_not]
  omega

def minus (negative : Bool) : List Char := if negative then ['-'] else []

theorem exists_digit (n : Nat) : ∃ c rest, digitText n = c :: rest ∧ isDigit c = true := by
  obtain ⟨c, rest, text⟩ := List.exists_cons_of_ne_nil (digitText_ne_nil n)
  exact ⟨c, rest, text, isDigit_of_mem_digitText (by rw [text]; exact List.mem_cons_self)⟩

theorem sign_minus (negative : Bool) (n : Nat) :
    sign (minus negative ++ digitText n) = (negative, digitText n) := by
  cases negative with
  | true => rfl
  | false =>
    obtain ⟨c, rest, text, digit⟩ := exists_digit n
    change sign (digitText n) = _
    rw [text]
    unfold sign
    split
    · next eq => cases eq; cases digit
    · next eq => cases eq; cases digit
    · rfl

theorem trimStart_minus (negative : Bool) (n : Nat) :
    Text.trimStart (minus negative ++ digitText n) = minus negative ++ digitText n := by
  cases negative with
  | true => rfl
  | false =>
    obtain ⟨c, rest, text, digit⟩ := exists_digit n
    change Text.trimStart (digitText n) = digitText n
    rw [text, Text.trimStart, List.dropWhile_cons_of_neg]
    rw [isBlank_of_isDigit digit]
    exact Bool.false_ne_true

theorem digitCount_eq (n : Nat) : digitCount n = (digitText n).length := by
  induction n using Nat.strongRecOn with
  | _ n ih =>
    rw [digitCount]
    split
    · next single => rw [digitText, Nat.toDigits_of_lt_base single]; rfl
    · next more =>
      have split : n = 10 * (n / 10) + n % 10 := by omega
      have last : (digitText (n % 10)).length = 1 := by
        rw [digitText, Nat.toDigits_of_lt_base (by omega)]
        rfl
      rw [ih (n / 10) (by omega)]
      conv_rhs => rw [split, digitText_cons _ _ (by omega) (by omega), List.length_append, last]

theorem Digits.strip_value (d : Digits) (whole : 0 ≤ d.exponent) :
    0 ≤ d.strip.exponent ∧
      d.strip.digits * 10 ^ d.strip.exponent.toNat = d.digits * 10 ^ d.exponent.toNat := by
  induction d using Digits.strip.induct with
  | case1 d trailing ih =>
    obtain ⟨sign, value⟩ := ih (by show 0 ≤ d.exponent + 1; omega)
    rw [Digits.strip, dif_pos trailing]
    refine ⟨sign, value.trans ?_⟩
    have power : (d.exponent + 1).toNat = d.exponent.toNat + 1 := by omega
    have tenth : d.digits / 10 * 10 = d.digits := by omega
    simp only [power, Nat.pow_succ']
    rw [← Nat.mul_assoc, tenth]
  | case2 d none =>
    rw [Digits.strip, dif_neg none]
    exact ⟨whole, rfl⟩

/-- An interval about a whole number that is too narrow for a second one. -/
structure Interval.About (i : Interval) (n : Nat) : Prop where
  mid : i.mid = n * i.den
  low : i.mid ≤ i.low + 2
  low_lt : i.low < i.mid
  high : i.high ≤ i.mid + 2
  lt_high : i.mid < i.high
  fine : 4 ≤ i.den

/-- A double below `2 ^ 53` that is whole has no second whole number in its interval. -/
theorem interval_about {n m : Nat} {e : Int} (whole : Double.Whole n m e) (least : e ≤ 0) :
    (interval m e).About n := by
  have positive := whole.toNormal.positive
  have up : (e - 2).toNat = 0 := by omega
  have down : (2 - e).toNat = (-e).toNat + 2 := by omega
  have value : n * 2 ^ (-e).toNat = m := by
    rw [whole.shifted, Int.toNat_eq_zero.mpr least, Nat.pow_zero, Nat.mul_one]
  have den : (interval m e).den = 4 * 2 ^ (-e).toNat := by
    change 2 ^ (2 - e).toNat = _
    rw [down, Nat.pow_add, Nat.mul_comm]
  have scale := Nat.two_pow_pos (-e).toNat
  refine ⟨?mid, ?low, ?low_lt, ?high, ?lt_high, by rw [den]; omega⟩
  case mid =>
    rw [den]
    change 4 * m * 2 ^ (e - 2).toNat = _
    rw [up, ← value]
    ring
  all_goals simp only [interval, up, Nat.pow_eq, Nat.pow_zero, Nat.mul_one]
  case low => split <;> omega
  case low_lt => split <;> omega
  case high => omega
  case lt_high => omega

theorem Interval.About.eq {i : Interval} {n x : Nat} (about : i.About n)
    (low : i.low ≤ x * i.den) (high : x * i.den ≤ i.high) : x = n := by
  have mid := about.mid
  have fine := about.fine
  have l := about.low
  have h := about.high
  apply Nat.le_antisymm
  · by_contra more
    have : (n + 1) * i.den ≤ x * i.den := Nat.mul_le_mul_right _ (by omega)
    rw [Nat.add_mul] at this
    omega
  · by_contra less
    have : (x + 1) * i.den ≤ n * i.den := Nat.mul_le_mul_right _ (by omega)
    rw [Nat.add_mul] at this
    omega

/-- What is picked from a grid lies in the interval. -/
theorem Interval.pick_inside {i : Interval} {tie : Tie} {e : Int} {c : Nat}
    (picked : i.pick tie e = some c) :
    i.low * 10 ^ (-e).toNat ≤ c * (i.den * 10 ^ e.toNat) ∧
      c * (i.den * 10 ^ e.toNat) ≤ i.high * 10 ^ (-e).toNat := by
  have weaken (low x high : Nat)
      (inside : (if i.closed then decide (low ≤ x) && decide (x ≤ high)
        else decide (low < x) && decide (x < high)) = true) : low ≤ x ∧ x ≤ high := by
    split at inside
    · simpa using inside
    · simp only [Bool.and_eq_true, decide_eq_true_eq] at inside
      exact ⟨inside.1.le, inside.2.le⟩
  simp only [pick, Nat.pow_eq] at picked
  split at picked
  · next below above =>
    split at picked
    · cases picked
      exact weaken _ _ _ below
    · split at picked
      · cases picked
        exact weaken _ _ _ above
      · cases tie with
        | up =>
          cases picked
          exact weaken _ _ _ above
        | even =>
          simp only at picked
          split at picked
          · cases picked
            exact weaken _ _ _ below
          · cases picked
            exact weaken _ _ _ above
  · next below _ =>
    cases picked
    exact weaken _ _ _ below
  · next _ above =>
    cases picked
    exact weaken _ _ _ above
  · cases picked

/-- The grid of whole numbers has the number itself. -/
theorem Interval.About.pick_isSome {i : Interval} {n : Nat} (about : i.About n) (tie : Tie) :
    (i.pick tie 0).isSome = true := by
  have fine := about.fine
  have low := about.low_lt
  have high := about.lt_high
  have mid : i.mid / i.den = n := by
    rw [about.mid]
    exact Nat.mul_div_cancel _ (by omega)
  have inside : (if i.closed then decide (i.low ≤ i.mid) && decide (i.mid ≤ i.high)
      else decide (i.low < i.mid) && decide (i.mid < i.high)) = true := by
    split
    · simp [low.le, high.le]
    · simp [low, high]
  simp only [pick, Nat.pow_eq, Int.neg_zero, Int.toNat_zero, Nat.pow_zero, Nat.mul_one, mid,
    ← about.mid, inside]
  split
  · split
    · rfl
    · split
      · rfl
      · cases tie <;> rfl
  · rfl
  · next out _ => cases out
  · next out _ => cases out

/-- Of the numbers on a grid of whole numbers only the number itself is picked. -/
theorem Interval.About.pick_value {i : Interval} {n c : Nat} {e : Int} {tie : Tie}
    (about : i.About n) (whole : 0 ≤ e) (picked : i.pick tie e = some c) :
    c * 10 ^ e.toNat = n := by
  obtain ⟨low, high⟩ := pick_inside picked
  have flat : (-e).toNat = 0 := by omega
  rw [flat, Nat.pow_zero, Nat.mul_one, Nat.mul_comm i.den, ← Nat.mul_assoc] at low high
  exact about.eq low high

theorem Interval.About.magnitude {i : Interval} {n : Nat} (about : i.About n) (positive : 0 < n) :
    Decimal.magnitude i.mid i.den = (digitText n).length - 1 := by
  have fine := about.fine
  have mid : i.mid / i.den = n := by
    rw [about.mid]
    exact Nat.mul_div_cancel _ (by omega)
  have atLeast : i.den ≤ i.mid := by
    rw [about.mid]
    exact Nat.le_mul_of_pos_left _ positive
  rw [Decimal.magnitude, if_pos atLeast, mid, digitCount_eq]

/-- The shortest decimal for a whole double below `2 ^ 53` denotes that number. -/
theorem shortest_whole {n m : Nat} {e : Int} (whole : Double.Whole n m e) (least : e ≤ 0)
    (tie : Tie) :
    0 ≤ (shortest tie m e).exponent ∧
      (shortest tie m e).digits * 10 ^ (shortest tie m e).exponent.toNat = n := by
  have about := interval_about whole least
  have positive := whole.number_pos
  have small : n < 10 ^ 16 := by
    have value := whole.shifted
    rw [Int.toNat_eq_zero.mpr least, Nat.pow_zero, Nat.mul_one] at value
    have := Nat.le_mul_of_pos_right n (Nat.two_pow_pos (-e).toNat)
    have := whole.high
    omega
  have few : (digitText n).length ≤ 16 :=
    (Nat.length_toDigits_le_iff (by decide) (by decide)).mpr small
  have some : 0 < (digitText n).length := Nat.length_toDigits_pos
  obtain ⟨top, length⟩ : ∃ top, (digitText n).length = top + 1 := ⟨_, (Nat.succ_pred some.ne').symm⟩
  have magnitude := about.magnitude positive
  rw [length, Nat.cast_add, Nat.cast_one, add_sub_cancel_right] at magnitude
  let tried (k : Nat) : Option Digits :=
    ((interval m e).pick tie (top - k)).map fun c => { digits := c, exponent := top - k }
  -- The grid of whole numbers comes after `top` steps, so that the first hit is no finer.
  have coarse : ((List.range (top + 1)).findSome? tried).isSome = true := by
    rw [List.findSome?_isSome_iff]
    refine ⟨top, List.self_mem_range_succ, ?_⟩
    simp only [tried, sub_self, Option.isSome_map]
    exact about.pick_isSome tie
  obtain ⟨d, first⟩ := Option.isSome_iff_exists.mp coarse
  have found : (List.range 17).findSome? tried = d := by
    have split : 17 = top + 1 + (16 - top) := by omega
    rw [split, List.range_add, List.findSome?_append, first]
    rfl
  obtain ⟨k, member, hit⟩ := List.exists_of_findSome?_eq_some first
  obtain ⟨c, picked, rfl⟩ := Option.map_eq_some_iff.mp hit
  have sign : (0 : Int) ≤ top - k := by
    have := List.mem_range.mp member
    omega
  have value := about.pick_value sign picked
  have text : shortest tie m e = Digits.strip { digits := c, exponent := top - k } := by
    simp only [shortest, magnitude]
    change (((List.range 17).findSome? tried).getD _).strip = _
    rw [found]
    rfl
  rw [text]
  obtain ⟨stripped, same⟩ := Digits.strip_value { digits := c, exponent := top - k } sign
  exact ⟨stripped, same.trans value⟩

theorem Digits.positional_whole {d : Digits} {n : Nat} (whole : 0 ≤ d.exponent)
    (positive : 0 < n) (value : d.digits * 10 ^ d.exponent.toNat = n) (fraction : Bool) :
    d.positional fraction = digitText n ++ if fraction then ['.', '0'] else [] := by
  have digits : 0 < d.digits := by
    rw [← value] at positive
    exact Nat.pos_of_mul_pos_right positive
  rw [Digits.positional, if_pos whole, ← value, digitText_tenfold _ _ digits]

end LiveTree.Decimal
