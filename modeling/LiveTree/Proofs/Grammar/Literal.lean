import Mathlib.Data.List.Basic
import Mathlib.Data.List.TakeWhile
import LiveTree.Decimal.Literal
import LiveTree.Text.Search

/-! The grammar of decimal literals: a sign, digits with or without a point, and a power of ten. The
reader takes a literal of the grammar off the front of a text, and takes all of one that is not
followed by what could continue it. -/
namespace LiveTree.Decimal

inductive Signed : List Char → (negative : Bool) → Prop
  | none : Signed [] false
  | plus : Signed ['+'] false
  | minus : Signed ['-'] true

inductive Fraction (afterDigit : Bool) : List Char → (digits : List Char) → Prop
  | none : Fraction afterDigit [] []
  | point {ds : List Char} (digits : ∀ c ∈ ds, isDigit c = true)
    (filled : afterDigit = true ∨ ds ≠ []) : Fraction afterDigit ('.' :: ds) ds

inductive Power : List Char → (exponent : Int) → Prop
  | none : Power [] 0
  | raised {c : Char} {s ds : List Char} {negative : Bool} (letter : c = 'e' ∨ c = 'E')
    (signed : Signed s negative) (digits : ∀ c ∈ ds, isDigit c = true) (filled : ds ≠ []) :
    Power (c :: (s ++ ds)) (if negative then -(ofDigits ds : Int) else ofDigits ds)

inductive Written : List Char → Literal → Prop
  | parts {s whole f fraction p : List Char} {negative : Bool} {exponent : Int}
    (signed : Signed s negative) (digits : ∀ c ∈ whole, isDigit c = true)
    (behind : Fraction (!whole.isEmpty) f fraction) (filled : whole ≠ [] ∨ fraction ≠ [])
    (power : Power p exponent) :
    Written (s ++ (whole ++ (f ++ p)))
      { negative := negative, digits := whole ++ fraction,
        exponent := exponent - fraction.length }

variable {cs rest ds : List Char} {negative afterDigit : Bool} {exponent : Int} {l : Literal}

theorem exists_signed (cs : List Char) : ∃ s, Signed s (sign cs).1 ∧ cs = s ++ (sign cs).2 := by
  unfold sign
  split
  · exact ⟨['-'], .minus, rfl⟩
  · exact ⟨['+'], .plus, rfl⟩
  · exact ⟨[], .none, rfl⟩

theorem isDigit_of_mem_digits : ∀ c ∈ (digits cs).1, isDigit c = true := fun _ member =>
  List.mem_takeWhile_imp member

theorem digits_append_digits (cs : List Char) : (digits cs).1 ++ (digits cs).2 = cs :=
  List.takeWhile_append_dropWhile

theorem exists_fraction (afterDigit : Bool) (cs : List Char) :
    ∃ f, Fraction afterDigit f (fraction afterDigit cs).1 ∧ cs = f ++ (fraction afterDigit cs).2 := by
  unfold fraction
  split
  · next cs =>
    split
    · next filled =>
      refine ⟨'.' :: (digits cs).1, .point isDigit_of_mem_digits ?_, ?_⟩
      · simpa using filled
      · rw [List.cons_append, digits_append_digits]
    · exact ⟨[], .none, rfl⟩
  · exact ⟨[], .none, rfl⟩

theorem exists_power (cs : List Char) : ∃ p, Power p (power cs).1 ∧ cs = p ++ (power cs).2 := by
  have behind {c : Char} (letter : c = 'e' ∨ c = 'E') (cs : List Char)
      (filled : (digits (sign cs).2).1 ≠ []) :
      ∃ p, Power p (if (sign cs).1 then -(ofDigits (digits (sign cs).2).1 : Int)
        else ofDigits (digits (sign cs).2).1) ∧ c :: cs = p ++ (digits (sign cs).2).2 := by
    obtain ⟨s, signed, split⟩ := exists_signed cs
    refine ⟨c :: (s ++ (digits (sign cs).2).1), .raised letter signed isDigit_of_mem_digits filled, ?_⟩
    rw [List.cons_append, List.append_assoc, digits_append_digits, ← split]
  unfold power
  split
  · next rest =>
    dsimp only
    split
    · exact ⟨[], .none, rfl⟩
    · next filled => exact behind (.inl rfl) rest (by simpa using filled)
  · next rest =>
    dsimp only
    split
    · exact ⟨[], .none, rfl⟩
    · next filled => exact behind (.inr rfl) rest (by simpa using filled)
  · exact ⟨[], .none, rfl⟩

theorem exists_written (read : literal? cs = some (l, rest)) :
    ∃ used, Written used l ∧ cs = used ++ rest := by
  obtain ⟨s, signed, first⟩ := exists_signed cs
  obtain ⟨f, behind, second⟩ :=
    exists_fraction (!(digits (sign cs).2).1.isEmpty) (digits (sign cs).2).2
  obtain ⟨p, power, third⟩ := exists_power
    (fraction (!(digits (sign cs).2).1.isEmpty) (digits (sign cs).2).2).2
  unfold literal? at read
  dsimp only at read
  split at read
  · cases read
  · next filled =>
    cases read
    refine ⟨_, .parts signed isDigit_of_mem_digits behind ?_ power, ?_⟩
    · simp only [Bool.and_eq_true, List.isEmpty_iff, not_and_or] at filled
      exact filled
    · rw [List.append_assoc, List.append_assoc, List.append_assoc, ← third, ← second,
        digits_append_digits, ← first]

def Ends (rest : List Char) : Prop :=
  ∀ c ∈ rest.head?, isDigit c = false ∧ c ≠ '.' ∧ c ≠ 'e' ∧ c ≠ 'E'

theorem digits_append (all : ∀ c ∈ ds, isDigit c = true)
    (stops : ∀ c ∈ rest.head?, isDigit c = false) : digits (ds ++ rest) = (ds, rest) := by
  rw [digits, Text.takeWhile_run all stops, Text.dropWhile_run all stops]

theorem ne_of_isDigit {c : Char} (digit : isDigit c = true) : c ≠ '+' ∧ c ≠ '-' := by
  constructor
  all_goals
    rintro rfl
    cases digit

theorem Signed.sign_append {s : List Char} (signed : Signed s negative)
    (other : ∀ c ∈ rest.head?, c ≠ '+' ∧ c ≠ '-') : sign (s ++ rest) = (negative, rest) := by
  cases signed with
  | plus => rfl
  | minus => rfl
  | none =>
    unfold sign
    split
    · next same => cases (other '-' (by simpa using congrArg List.head? same)).2 rfl
    · next same => cases (other '+' (by simpa using congrArg List.head? same)).1 rfl
    · rfl

theorem Fraction.fraction_append {f : List Char} (written : Fraction afterDigit f ds)
    (stops : ∀ c ∈ rest.head?, isDigit c = false ∧ c ≠ '.') :
    fraction afterDigit (f ++ rest) = (ds, rest) := by
  cases written with
  | none =>
    unfold fraction
    split
    · next same => cases (stops '.' (by simpa using congrArg List.head? same)).2 rfl
    · rfl
  | point all filled =>
    rw [List.cons_append, fraction, digits_append all fun c first => (stops c first).1, if_pos]
    simpa using filled

theorem Power.power_append {p : List Char} (written : Power p exponent) (ends : Ends rest) :
    power (p ++ rest) = (exponent, rest) := by
  cases written with
  | none =>
    unfold power
    split
    · next same => cases (ends 'e' (by simpa using congrArg List.head? same)).2.2.1 rfl
    · next same => cases (ends 'E' (by simpa using congrArg List.head? same)).2.2.2 rfl
    · rfl
  | @raised c s ds negative letter signed all filled =>
    have signs : sign (s ++ (ds ++ rest)) = (negative, ds ++ rest) := signed.sign_append (by
      rw [List.head?_append_of_ne_nil _ filled]
      exact fun c first => ne_of_isDigit (all c (List.mem_of_mem_head? first)))
    have run : digits (ds ++ rest) = (ds, rest) := digits_append all fun c first => (ends c first).1
    rcases letter with rfl | rfl
    all_goals simp [power, signs, run, filled]

theorem Power.head (written : Power ds exponent) (ends : Ends rest) :
    ∀ c ∈ (ds ++ rest).head?, isDigit c = false ∧ c ≠ '.' := by
  cases written with
  | none => exact fun c first => ⟨(ends c first).1, (ends c first).2.1⟩
  | raised letter => rcases letter with rfl | rfl <;> (rintro c ⟨rfl⟩; decide)

theorem Fraction.head {f : List Char} (written : Fraction afterDigit f ds)
    (stops : ∀ c ∈ rest.head?, isDigit c = false) :
    ∀ c ∈ (f ++ rest).head?, isDigit c = false := by
  cases written with
  | none => exact stops
  | point => rintro c ⟨rfl⟩; rfl

/-- Behind the sign stands a digit or the point. -/
theorem Fraction.start {whole f : List Char} (behind : Fraction afterDigit f ds)
    (all : ∀ c ∈ whole, isDigit c = true) (filled : whole ≠ [] ∨ ds ≠ []) (rest : List Char) :
    ∀ c ∈ (whole ++ (f ++ rest)).head?, c ≠ '+' ∧ c ≠ '-' := by
  cases whole with
  | cons c whole => rintro d ⟨rfl⟩; exact ne_of_isDigit (all _ List.mem_cons_self)
  | nil =>
    cases behind with
    | none => simp at filled
    | point => rintro c ⟨rfl⟩; decide

theorem Written.exists_start {used : List Char} (written : Written used l) :
    ∃ c cs, used = c :: cs ∧ (isDigit c = true ∨ c = '.' ∨ c = '+' ∨ c = '-') := by
  obtain @⟨s, whole, f, ds, p, _, _, signed, all, behind, filled, -⟩ := written
  cases signed with
  | plus => exact ⟨'+', _, rfl, by simp⟩
  | minus => exact ⟨'-', _, rfl, by simp⟩
  | none =>
    cases whole with
    | cons c whole => exact ⟨c, _, rfl, .inl (all c List.mem_cons_self)⟩
    | nil =>
      cases behind with
      | none => simp at filled
      | point => exact ⟨'.', _, rfl, by simp⟩

theorem Written.literal?_append {used : List Char} (written : Written used l) (ends : Ends rest) :
    literal? (used ++ rest) = some (l, rest) := by
  obtain @⟨s, whole, f, ds, p, negative, exponent, signed, all, behind, filled, raised⟩ := written
  have last := raised.power_append ends
  have third : fraction (!whole.isEmpty) (f ++ (p ++ rest)) = (ds, p ++ rest) :=
    behind.fraction_append (raised.head ends)
  have second : digits (whole ++ (f ++ (p ++ rest))) = (whole, f ++ (p ++ rest)) :=
    digits_append all (behind.head fun c first => (raised.head ends c first).1)
  have first : sign (s ++ (whole ++ (f ++ (p ++ rest)))) = (negative, whole ++ (f ++ (p ++ rest))) :=
    signed.sign_append (behind.start all filled _)
  have digits : (whole.isEmpty && ds.isEmpty) = false := by
    rcases filled with filled | filled <;> simp [filled]
  simp only [List.append_assoc]
  simp [literal?, first, second, third, last, digits]

end LiveTree.Decimal
