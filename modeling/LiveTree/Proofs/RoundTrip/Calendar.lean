import LiveTree.Proofs.RoundTrip.Digits
import LiveTree.Instant

/-!
Days and instants: the day of a number has that number and exists, and an instant of whole
milliseconds in a year of four digits is read back from its text.
-/
namespace LiveTree.Instant

/-- Day `a` of an era of 400 years: `t` days into year `s` of group `q` of four years of century
`c`, all counted from March. A year has day 365 if it ends with a leap day: the last of a group,
but for the last group of a century, except in the last century. -/
structure EraDay (a c q s t : Int) : Prop where
  sum : a = 36524 * c + 1461 * q + 365 * s + t
  century : 0 ≤ c ∧ c ≤ 3
  group : 0 ≤ q ∧ q ≤ 24
  year : 0 ≤ s ∧ s ≤ 3
  day : 0 ≤ t ∧ (t ≤ 364 ∨ t = 365 ∧ s = 3 ∧ (q ≤ 23 ∨ c = 3))

variable {a c q s t : Int}

theorem exists_eraDay (low : 0 ≤ a) (high : a < 146097) : ∃ c q s t, EraDay a c q s t := by
  obtain ⟨c, b, century, first, last, rest⟩ : ∃ c b : Int, a = 36524 * c + b ∧ 0 ≤ c ∧ c ≤ 3 ∧
      0 ≤ b ∧ (b ≤ 36523 ∨ b = 36524 ∧ c = 3) :=
    ⟨min (a / 36524) 3, a - 36524 * min (a / 36524) 3, by omega⟩
  refine ⟨c, b / 1461, min (b % 1461 / 365) 3, b % 1461 - 365 * min (b % 1461 / 365) 3, ?_⟩
  constructor <;> omega

theorem EraDay.ofEra (d : EraDay a c q s t) :
    (a - a / 1460 + a / 36524 - a / 146096) / 365 = 100 * c + 4 * q + s := by
  obtain ⟨sum, century, group, year, day⟩ := d
  by_cases last : a = 146096
  · subst last
    omega
  · have eras : a / 146096 = 0 := by omega
    have centuries : a / 36524 = c := by omega
    -- The last day of a leap year is the one that 1460 counts once more.
    have leaps : a / 1460 = 25 * c + q ∧ t ≤ 364 ∨ a / 1460 = 25 * c + q + 1 ∧ 0 < t := by omega
    omega

/-- The number of the first day of a year in its era. -/
theorem EraDay.first (d : EraDay a c q s t) :
    365 * (100 * c + 4 * q + s) + (100 * c + 4 * q + s) / 4 - (100 * c + 4 * q + s) / 100 =
      a - t := by
  obtain ⟨sum, century, group, year, day⟩ := d
  omega

def ofYearDay (year t : Int) : Day :=
  let month := (5 * t + 2) / 153
  let day := t - (153 * month + 2) / 5 + 1
  let month := if month < 10 then month + 3 else month - 9
  { year := year + (if month ≤ 2 then 1 else 0), month := month.toNat, day := day.toNat }

theorem ofNumber_eq (n : Int) : ∃ era a c q s t, EraDay a c q s t ∧
    n + 719468 = era * 146097 + a ∧
    Day.ofNumber n = ofYearDay (100 * c + 4 * q + s + era * 400) t := by
  obtain ⟨c, q, s, t, day⟩ := exists_eraDay (a := (n + 719468) % 146097) (by omega) (by omega)
  refine ⟨(n + 719468) / 146097, (n + 719468) % 146097, c, q, s, t, day, by omega, ?_⟩
  have ofYear : (n + 719468) % 146097 - (365 * (100 * c + 4 * q + s) +
      (100 * c + 4 * q + s) / 4 - (100 * c + 4 * q + s) / 100) = t := by
    rw [day.first]
    omega
  simp only [Day.ofNumber, day.ofEra, ofYear]
  rfl

theorem number_ofYearDay (year : Int) (start : 0 ≤ t) (finish : t ≤ 365) :
    (ofYearDay year t).number =
      year / 400 * 146097 + (year % 400 * 365 + year % 400 / 4 - year % 400 / 100 + t) -
        719468 := by
  obtain ⟨month, eq⟩ : ∃ month, (5 * t + 2) / 153 = month := ⟨_, rfl⟩
  have low : 0 ≤ month := by omega
  have high : month ≤ 11 := by omega
  simp only [ofYearDay, Day.number, eq]
  interval_cases month <;> simp <;> omega

theorem exists_ofYearDay {year : Int} (start : 0 ≤ t) (finish : t ≤ 365)
    (leap : t = 365 → isLeap (year + 1) = true) (least : -262143 ≤ (ofYearDay year t).year)
    (most : (ofYearDay year t).year ≤ 262142) : (ofYearDay year t).exists = true := by
  obtain ⟨month, eq⟩ : ∃ month, (5 * t + 2) / 153 = month := ⟨_, rfl⟩
  have low : 0 ≤ month := by omega
  have high : month ≤ 11 := by omega
  simp only [Day.exists, least, most, decide_true, Bool.and_true]
  simp only [ofYearDay, eq]
  interval_cases month
  case «11» =>
    by_cases last : t = 365
    · simp [daysIn, leap last, last]
    · simp only [daysIn]
      simp
      split <;> omega
  all_goals
    simp [daysIn]
    omega

/-- Numbering the days and finding the day of a number are inverse to each other. -/
theorem number_ofNumber (n : Int) : (Day.ofNumber n).number = n := by
  obtain ⟨era, a, c, q, s, t, day, sum, eq⟩ := ofNumber_eq n
  obtain ⟨start, finish⟩ := day.day
  have first := day.first
  obtain ⟨_, century, group, year, _⟩ := day
  rw [eq, number_ofYearDay _ start (by omega)]
  have eras : (100 * c + 4 * q + s + era * 400) / 400 = era := by omega
  have ofEra : (100 * c + 4 * q + s + era * 400) % 400 = 100 * c + 4 * q + s := by omega
  rw [eras, ofEra]
  omega

theorem EraDay.isLeap (d : EraDay a c q s t) (last : t = 365) (era : Int) :
    Instant.isLeap (100 * c + 4 * q + s + era * 400 + 1) = true := by
  obtain ⟨_, century, group, year, day⟩ := d
  have fourth : (100 * c + 4 * q + s + era * 400 + 1) % 4 = 0 := by omega
  have kept : (100 * c + 4 * q + s + era * 400 + 1) % 100 ≠ 0 ∨
      (100 * c + 4 * q + s + era * 400 + 1) % 400 = 0 := by omega
  simpa [Instant.isLeap, fourth] using kept

theorem exists_ofNumber {n : Int} (least : -262143 ≤ (Day.ofNumber n).year)
    (most : (Day.ofNumber n).year ≤ 262142) : (Day.ofNumber n).exists = true := by
  obtain ⟨era, a, c, q, s, t, day, sum, eq⟩ := ofNumber_eq n
  obtain ⟨start, finish⟩ := day.day
  rw [eq] at least most ⊢
  exact exists_ofYearDay start (by omega) (fun last => day.isLeap last era) least most

section Fields
variable {width n : Nat}

theorem length_padded (some : 0 < width) (small : n < 10 ^ width) :
    (padded width n).length = width := by
  have few : (Nat.toDigits 10 n).length ≤ width :=
    (Nat.length_toDigits_le_iff (by decide) some).mpr small
  rw [padded, List.length_append, List.length_replicate]
  omega

theorem isDigit_padded (width n : Nat) : ∀ c ∈ padded width n, Decimal.isDigit c = true := by
  intro c member
  rcases List.mem_append.mp member with zero | digit
  · rw [List.eq_of_mem_replicate zero]
    rfl
  · exact Decimal.isDigit_of_mem_digitText digit

theorem ofDigits_padded (width n : Nat) : Decimal.ofDigits (padded width n) = n := by
  have zeros (k : Nat) (ds : List Char) :
      Decimal.ofDigits (List.replicate k '0' ++ ds) = Decimal.ofDigits ds := by
    induction k with
    | zero => rfl
    | succ k ih => exact ih
  rw [padded, zeros]
  exact Decimal.ofDigits_digitText n

theorem takeWhile_padded (width n : Nat) :
    (padded width n).takeWhile Decimal.isDigit = padded width n := by
  have alone := Decimal.takeWhile_isDigit (isDigit_padded width n) Decimal.stops_nil
  rwa [List.append_nil] at alone

/-- A field is read back whatever follows it. -/
theorem digits?_padded (some : 0 < width) (small : n < 10 ^ width) (rest : List Char) :
    digits? width width (padded width n ++ rest) = .some (n, rest) := by
  have length := length_padded some small
  have cut : (padded width n ++ rest).take width = padded width n := by
    rw [List.take_append_of_le_length length.ge, List.take_of_length_le length.le]
  have left : (padded width n ++ rest).drop width = rest := by
    rw [List.drop_append_of_le_length length.ge, List.drop_of_length_le length.le, List.nil_append]
  simp only [digits?, cut, takeWhile_padded, length, ofDigits_padded, left]
  rw [if_neg (Nat.lt_irrefl width)]

theorem char?_self (c : Char) (rest : List Char) : char? c (c :: rest) = .some rest := if_pos rfl

theorem fraction?_padded (small : n < 10 ^ 3) :
    fraction? ('.' :: (padded 3 n ++ ['Z'])) = .some (n * 1000000, ['Z']) := by
  have length : (padded 3 n).length = 3 := length_padded (by decide) small
  have stops : Decimal.Stops ['Z'] := Decimal.stops_cons rfl
  have few : (padded 3 n ++ ['Z']).length ≤ 9 := by
    rw [List.length_append, length]
    decide
  have some : padded 3 n ≠ [] := List.ne_nil_of_length_pos (by omega)
  have power : Nat.pow 10 (9 - 3) = 1000000 := rfl
  simp only [fraction?, List.take_of_length_le few,
    Decimal.takeWhile_isDigit (isDigit_padded 3 n) stops,
    Decimal.dropWhile_isDigit (isDigit_padded 3 n) stops, ofDigits_padded, length, power]
  simp [some]

end Fields

structure Plain (t : Instant) : Prop where
  whole : t.nanos % 1000000 = 0
  nanos : t.nanos < 1000000000
  first : 0 ≤ (Day.ofNumber (t.seconds / 86400)).year
  last : (Day.ofNumber (t.seconds / 86400)).year ≤ 9999

theorem Day.fields_of_exists {day : Day} (real : day.exists = true) :
    day.month < 10 ^ 2 ∧ day.day < 10 ^ 2 := by
  simp only [Day.exists, Bool.and_eq_true, decide_eq_true_eq] at real
  have length : daysIn day.year day.month ≤ 31 := by
    unfold daysIn
    split
    · split <;> omega
    · split <;> omega
  omega

theorem bind_of_eq_some {α β : Type} {x : Option α} {a : α} {f : α → Option β} {b : Option β}
    (first : x = some a) (rest : f a = b) : (x >>= f) = b := by
  rw [first]
  exact rest

/-- Fields of the right widths are read one after the other. -/
theorem readStrict_padded {year month day hour minute second milli : Nat}
    (years : year < 10 ^ 4) (months : month < 10 ^ 2) (days : day < 10 ^ 2) (hours : hour < 10 ^ 2)
    (minutes : minute < 10 ^ 2) (seconds : second < 10 ^ 2) (millis : milli < 10 ^ 3) :
    readStrict (padded 4 year ++ '-' :: (padded 2 month ++ '-' :: (padded 2 day ++ 'T' ::
      (padded 2 hour ++ ':' :: (padded 2 minute ++ ':' :: (padded 2 second ++
        '.' :: (padded 3 milli ++ ['Z']))))))) =
      ofClock? { year := year, month := month, day := day } hour minute second
        (milli * 1000000) 0 := by
  have two : 0 < 2 := by decide
  rw [readStrict]
  refine bind_of_eq_some (digits?_padded (by decide) years _) ?_
  refine bind_of_eq_some (char?_self _ _) ?_
  refine bind_of_eq_some (digits?_padded two months _) ?_
  refine bind_of_eq_some (char?_self _ _) ?_
  refine bind_of_eq_some (digits?_padded two days _) ?_
  refine bind_of_eq_some rfl ?_
  refine bind_of_eq_some (digits?_padded two hours _) ?_
  refine bind_of_eq_some (char?_self _ _) ?_
  refine bind_of_eq_some (digits?_padded two minutes _) ?_
  refine bind_of_eq_some (char?_self _ _) ?_
  refine bind_of_eq_some (digits?_padded two seconds _) ?_
  refine bind_of_eq_some (fraction?_padded millis) ?_
  rfl

theorem ofClock?_of_exists {day : Day} (real : day.exists = true) {time nanos : Nat}
    (bound : time < 86400) :
    ofClock? day (time / 3600) (time / 60 % 60) (time % 60) nanos 0 =
      some ⟨day.number * 86400 + time, nanos⟩ := by
  have hours : time / 3600 ≤ 23 := by omega
  have minutes : time / 60 % 60 ≤ 59 := by omega
  have seconds : time % 60 ≤ 60 := by omega
  have regular : time % 60 ≠ 60 := by omega
  simp only [ofClock?, real, hours, minutes, seconds, decide_true, Bool.and_true, if_true,
    regular, if_false, Option.some.injEq, Instant.mk.injEq]
  constructor <;> omega

theorem readStrict_text {t : Instant} (plain : t.Plain) : readStrict t.text = some t := by
  obtain ⟨whole, nanos, first, last⟩ := plain
  obtain ⟨day, eq⟩ : ∃ day, Day.ofNumber (t.seconds / 86400) = day := ⟨_, rfl⟩
  have real : day.exists = true := by
    rw [← eq]
    exact exists_ofNumber (by omega) (by omega)
  have number : day.number = t.seconds / 86400 := by rw [← eq, number_ofNumber]
  obtain ⟨time, clock⟩ : ∃ time, (t.seconds % 86400).toNat = time := ⟨_, rfl⟩
  have bound : time < 86400 := by omega
  rw [eq] at first last
  have regular : ¬ 1000000000 ≤ t.nanos := by omega
  have text : t.text = padded 4 day.year.toNat ++ '-' :: (padded 2 day.month ++ '-' ::
      (padded 2 day.day ++ 'T' :: (padded 2 (time / 3600) ++ ':' :: (padded 2 (time / 60 % 60) ++
        ':' :: (padded 2 (time % 60) ++ '.' :: (padded 3 (t.nanos / 1000000) ++ ['Z'])))))) := by
    rw [Instant.text, eq, clock]
    simp [yearText, first, last, regular]
  obtain ⟨month, date⟩ := day.fields_of_exists real
  have back : (day.year.toNat : Int) = day.year := by omega
  rw [text, readStrict_padded (by omega) month date (by omega) (by omega) (by omega) (by omega),
    back, ofClock?_of_exists real bound, number]
  have seconds : t.seconds / 86400 * 86400 + (time : Int) = t.seconds := by omega
  have millis : t.nanos / 1000000 * 1000000 = t.nanos := by omega
  rw [seconds, millis]

/-- The text begins with a digit and ends in a letter, so that there is nothing to trim. -/
theorem trim_text {t : Instant} (plain : t.Plain) : Text.trim t.text = t.text := by
  obtain ⟨rest, start⟩ : ∃ rest,
      t.text = yearText (Day.ofNumber (t.seconds / 86400)).year ++ rest := by
    simp only [Instant.text, List.append_assoc]
    exact ⟨_, rfl⟩
  obtain ⟨body, finish⟩ : ∃ body, t.text = body ++ ['Z'] := ⟨_, rfl⟩
  rw [yearText, if_pos ⟨plain.first, plain.last⟩] at start
  obtain ⟨c, cs, first⟩ : ∃ c cs,
      padded 4 (Day.ofNumber (t.seconds / 86400)).year.toNat = c :: cs := by
    apply List.exists_cons_of_ne_nil
    apply List.ne_nil_of_length_pos
    rw [length_padded (by decide) (by have := plain.last; omega)]
    decide
  have digit : Decimal.isDigit c = true :=
    isDigit_padded 4 _ c (by rw [first]; exact List.mem_cons_self)
  have left : Text.trimStart t.text = t.text := by
    rw [start, first, List.cons_append, Text.trimStart, List.dropWhile_cons_of_neg]
    rw [Decimal.isBlank_of_isDigit digit]
    exact Bool.false_ne_true
  have right : Text.trimEnd t.text = t.text := by
    rw [finish, Text.trimEnd, List.reverse_append, List.reverse_singleton, List.singleton_append,
      List.dropWhile_cons_of_neg (by decide), List.reverse_cons, List.reverse_reverse]
  rw [Text.trim, left, right]

theorem read?_text {t : Instant} (plain : t.Plain) : read? t.text = some t := by
  rw [read?, trim_text plain, readStrict_text plain]
  rfl

end LiveTree.Instant
