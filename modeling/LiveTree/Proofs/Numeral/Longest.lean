import LiveTree.Proofs.Grammar.Literal
import Mathlib.Computability.RegularExpressions

/-! The grammar of decimal literals as a regular expression, and the reader against it: it takes the
longest piece off the front of a text that the expression matches. A piece that may be left half-way, a
point alone or an `e` with no digits behind it, is where the reader has to stop and could go too far. -/
namespace LiveTree.Decimal

def anyOf (cs : List Char) : RegularExpression Char := (cs.map .char).sum

def maybe (r : RegularExpression Char) : RegularExpression Char := 1 + r

def decimals : List Char := ['0', '1', '2', '3', '4', '5', '6', '7', '8', '9']

def digit : RegularExpression Char := anyOf decimals

def run : RegularExpression Char := digit * digit.star

def signPart : RegularExpression Char := maybe (anyOf ['+', '-'])

def mantissa : RegularExpression Char :=
  run * maybe (.char '.' * digit.star) + .char '.' * run

def powerPart : RegularExpression Char := maybe (anyOf ['e', 'E'] * (signPart * run))

/-- `[+-]? (digits [. digits*] | . digits) ([eE] [+-]? digits)?` -/
def numeral : RegularExpression Char := signPart * (mantissa * powerPart)

/-- `[+-]? digits` -/
def wholeNumeral : RegularExpression Char := signPart * run

example : numeral.rmatch "-2.5e+2".toList = true := by decide +kernel

example : numeral.rmatch "2.5e+".toList = false := by decide +kernel

variable {cs ds rest used : List Char} {l : Literal} {r : RegularExpression Char}

theorem mem_anyOf : used ∈ (anyOf cs).matches' ↔ ∃ c ∈ cs, used = [c] := by
  induction cs with
  | nil => exact ⟨fun none => (Language.notMem_zero used none).elim, by simp⟩
  | cons c cs ih =>
    change used ∈ ({[c]} : Language Char) + (anyOf cs).matches' ↔ _
    rw [Language.mem_add, ih, List.exists_mem_cons_iff]
    rfl

theorem mem_maybe : used ∈ (maybe r).matches' ↔ used = [] ∨ used ∈ r.matches' := by
  change used ∈ (1 : Language Char) + r.matches' ↔ _
  rw [Language.mem_add, Language.mem_one]

theorem mem_decimals {c : Char} : c ∈ decimals ↔ isDigit c = true := by
  refine ⟨fun member => ?_, fun digit => ?_⟩
  · exact List.all_eq_true.mp (by decide : decimals.all isDigit = true) c member
  · have bounds := isDigit_iff.mp digit
    have within : c.toNat ∈ List.range' 48 10 := List.mem_range'_1.mpr (by omega)
    rw [← Char.ofNat_toNat c]
    exact (by decide : ∀ n ∈ List.range' 48 10, Char.ofNat n ∈ decimals) _ within

theorem mem_digit : used ∈ digit.matches' ↔ ∃ c, isDigit c = true ∧ used = [c] := by
  rw [digit, mem_anyOf]
  exact exists_congr fun c => and_congr_left fun _ => mem_decimals

theorem mem_star_digit : used ∈ digit.star.matches' ↔ ∀ c ∈ used, isDigit c = true := by
  change used ∈ KStar.kstar digit.matches' ↔ _
  rw [Language.mem_kstar]
  constructor
  · rintro ⟨words, rfl, each⟩ c member
    obtain ⟨word, within, member⟩ := List.mem_flatten.mp member
    obtain ⟨d, digit, rfl⟩ := mem_digit.mp (each word within)
    rw [List.mem_singleton.mp member]
    exact digit
  · intro all
    refine ⟨used.map ([·]), by simp [← List.flatMap_def], fun word member => ?_⟩
    obtain ⟨c, within, rfl⟩ := List.mem_map.mp member
    exact mem_digit.mpr ⟨c, all c within, rfl⟩

theorem mem_run : used ∈ run.matches' ↔ used ≠ [] ∧ ∀ c ∈ used, isDigit c = true := by
  change used ∈ digit.matches' * digit.star.matches' ↔ _
  rw [Language.mem_mul]
  constructor
  · rintro ⟨_, first, ds, digits, rfl⟩
    obtain ⟨c, digit, rfl⟩ := mem_digit.mp first
    exact ⟨by simp, List.forall_mem_cons.mpr ⟨digit, mem_star_digit.mp digits⟩⟩
  · rintro ⟨filled, all⟩
    obtain ⟨c, ds, rfl⟩ := List.exists_cons_of_ne_nil filled
    obtain ⟨digit, digits⟩ := List.forall_mem_cons.mp all
    exact ⟨[c], mem_digit.mpr ⟨c, digit, rfl⟩, ds, mem_star_digit.mpr digits, rfl⟩

theorem mem_signPart : used ∈ signPart.matches' ↔ ∃ negative, Signed used negative := by
  rw [signPart, mem_maybe, mem_anyOf]
  constructor
  · rintro (rfl | ⟨c, member, rfl⟩)
    · exact ⟨false, .none⟩
    · obtain rfl | rfl : c = '+' ∨ c = '-' := by simpa using member
      · exact ⟨false, .plus⟩
      · exact ⟨true, .minus⟩
  · rintro ⟨negative, signed⟩
    cases signed with
    | none => exact .inl rfl
    | plus => exact .inr ⟨'+', by simp, rfl⟩
    | minus => exact .inr ⟨'-', by simp, rfl⟩

/-- The digits of a literal and its point. -/
theorem mem_mantissa : used ∈ mantissa.matches' ↔ ∃ whole f ds, (∀ c ∈ whole, isDigit c = true) ∧
    Fraction (!whole.isEmpty) f ds ∧ (whole ≠ [] ∨ ds ≠ []) ∧ used = whole ++ f := by
  change used ∈ run.matches' * (maybe (.char '.' * digit.star)).matches' +
    ({['.']} : Language Char) * run.matches' ↔ _
  rw [Language.mem_add, Language.mem_mul, Language.mem_mul]
  have pointed {f : List Char} : f ∈ (RegularExpression.char '.' * digit.star).matches' ↔
      ∃ ds, (∀ c ∈ ds, isDigit c = true) ∧ f = '.' :: ds := by
    change f ∈ ({['.']} : Language Char) * digit.star.matches' ↔ _
    rw [Language.mem_mul]
    constructor
    · rintro ⟨_, rfl, ds, digits, rfl⟩
      exact ⟨ds, mem_star_digit.mp digits, rfl⟩
    · rintro ⟨ds, digits, rfl⟩
      exact ⟨['.'], rfl, ds, mem_star_digit.mpr digits, rfl⟩
  constructor
  · rintro (⟨whole, first, f, behind, rfl⟩ | ⟨_, rfl, ds, second, rfl⟩)
    · obtain ⟨filled, all⟩ := mem_run.mp first
      rcases mem_maybe.mp behind with rfl | behind
      · exact ⟨whole, [], [], all, .none, .inl filled, rfl⟩
      · obtain ⟨ds, digits, rfl⟩ := pointed.mp behind
        exact ⟨whole, '.' :: ds, ds, all, .point digits (.inl (by simpa using filled)), .inl filled, rfl⟩
    · obtain ⟨filled, all⟩ := mem_run.mp second
      exact ⟨[], '.' :: ds, ds, by simp, .point all (.inr filled), .inr filled, rfl⟩
  · rintro ⟨whole, f, ds, all, behind, filled, rfl⟩
    by_cases empty : whole = []
    · subst empty
      have filled : ds ≠ [] := filled.resolve_left (by simp)
      cases behind with
      | none => exact absurd rfl filled
      | point digits => exact .inr ⟨['.'], rfl, ds, mem_run.mpr ⟨filled, digits⟩, rfl⟩
    · refine .inl ⟨whole, mem_run.mpr ⟨empty, all⟩, f, mem_maybe.mpr ?_, rfl⟩
      cases behind with
      | none => exact .inl rfl
      | point digits => exact .inr (pointed.mpr ⟨ds, digits, rfl⟩)

theorem mem_powerPart : used ∈ powerPart.matches' ↔ ∃ exponent, Power used exponent := by
  rw [powerPart, mem_maybe]
  change used = [] ∨ used ∈ (anyOf ['e', 'E']).matches' * (signPart.matches' * run.matches') ↔ _
  rw [Language.mem_mul]
  constructor
  · rintro (rfl | ⟨_, letter, _, behind, rfl⟩)
    · exact ⟨0, .none⟩
    · obtain ⟨c, member, rfl⟩ := mem_anyOf.mp letter
      obtain ⟨s, signed, ds, digits, rfl⟩ := Language.mem_mul.mp behind
      obtain ⟨negative, signed⟩ := mem_signPart.mp signed
      obtain ⟨filled, all⟩ := mem_run.mp digits
      have letter : c = 'e' ∨ c = 'E' := by simpa using member
      exact ⟨_, .raised (s := s) letter signed all filled⟩
  · rintro ⟨exponent, power⟩
    cases power with
    | none => exact .inl rfl
    | @raised c s ds negative letter signed all filled =>
      refine .inr ⟨[c], mem_anyOf.mpr ⟨c, by simpa using letter, rfl⟩, s ++ ds, ?_, rfl⟩
      exact Language.append_mem_mul (mem_signPart.mpr ⟨negative, signed⟩) (mem_run.mpr ⟨filled, all⟩)

/-- The expression matches the literals of the grammar. -/
theorem mem_numeral : used ∈ numeral.matches' ↔ ∃ l, Written used l := by
  change used ∈ signPart.matches' * (mantissa.matches' * powerPart.matches') ↔ _
  rw [Language.mem_mul]
  constructor
  · rintro ⟨s, signed, _, behind, rfl⟩
    obtain ⟨m, mantissa, p, power, rfl⟩ := Language.mem_mul.mp behind
    obtain ⟨negative, signed⟩ := mem_signPart.mp signed
    obtain ⟨whole, f, ds, all, fraction, filled, rfl⟩ := mem_mantissa.mp mantissa
    obtain ⟨exponent, power⟩ := mem_powerPart.mp power
    rw [List.append_assoc]
    exact ⟨_, .parts signed all fraction filled power⟩
  · rintro ⟨l, written⟩
    obtain @⟨s, whole, f, ds, p, negative, exponent, signed, all, fraction, filled, power⟩ := written
    refine ⟨s, mem_signPart.mpr ⟨negative, signed⟩, _, ?_, rfl⟩
    rw [← List.append_assoc]
    exact Language.append_mem_mul (mem_mantissa.mpr ⟨whole, f, ds, all, fraction, filled, rfl⟩)
      (mem_powerPart.mpr ⟨exponent, power⟩)

theorem mem_wholeNumeral : used ∈ wholeNumeral.matches' ↔ ∃ s negative ds, Signed s negative ∧
    ds ≠ [] ∧ (∀ c ∈ ds, isDigit c = true) ∧ used = s ++ ds := by
  change used ∈ signPart.matches' * run.matches' ↔ _
  rw [Language.mem_mul]
  constructor
  · rintro ⟨s, signed, ds, digits, rfl⟩
    obtain ⟨negative, signed⟩ := mem_signPart.mp signed
    obtain ⟨filled, all⟩ := mem_run.mp digits
    exact ⟨s, negative, ds, signed, filled, all, rfl⟩
  · rintro ⟨s, negative, ds, signed, filled, all, rfl⟩
    exact ⟨s, mem_signPart.mpr ⟨negative, signed⟩, ds, mem_run.mpr ⟨filled, all⟩, rfl⟩

/-! ## No literal goes further than what is read

Each part of a literal is read at least as far as it goes. Where a literal ends before the reader does,
only the lengths of what is left can be told. -/

theorem digits_append_run (all : ∀ c ∈ ds, isDigit c = true) (rest : List Char) :
    digits (ds ++ rest) = (ds ++ (digits rest).1, (digits rest).2) := by
  rw [digits, List.takeWhile_append_of_pos all, List.dropWhile_append_of_pos all]
  rfl

theorem length_digits_le (cs : List Char) : (digits cs).2.length ≤ cs.length :=
  List.length_dropWhile_le isDigit cs

theorem length_fraction_le (afterDigit : Bool) (cs : List Char) :
    (fraction afterDigit cs).2.length ≤ cs.length := by
  obtain ⟨f, -, split⟩ := exists_fraction afterDigit cs
  have := congrArg List.length split
  rw [List.length_append] at this
  omega

theorem length_power_le (cs : List Char) : (power cs).2.length ≤ cs.length := by
  obtain ⟨p, -, split⟩ := exists_power cs
  have := congrArg List.length split
  rw [List.length_append] at this
  omega

variable {p f : List Char} {exponent : Int} {afterDigit negative : Bool}

theorem Power.length_power_le (written : Power p exponent) (rest : List Char) :
    (power (p ++ rest)).2.length ≤ rest.length := by
  cases written with
  | none => exact Decimal.length_power_le rest
  | @raised c s ds negative letter signed all filled =>
    have signs : sign (s ++ (ds ++ rest)) = (negative, ds ++ rest) := signed.sign_append (by
      rw [List.head?_append_of_ne_nil _ filled]
      exact fun c first => ne_of_isDigit (all c (List.mem_of_mem_head? first)))
    have bound := length_digits_le rest
    rcases letter with rfl | rfl
    all_goals simpa [power, signs, digits_append_run all rest, filled] using bound

/-- A power of ten ends the digits and the fraction before it. -/
theorem Power.head_raised (written : Power p exponent) (raised : p ≠ []) (rest : List Char) :
    ∀ c ∈ (p ++ rest).head?, isDigit c = false ∧ c ≠ '.' := by
  cases written with
  | none => exact absurd rfl raised
  | raised letter => rcases letter with rfl | rfl <;> (rintro c ⟨rfl⟩; decide)

/-- Digits, a fraction and a power of ten are read one after the other. The digits that are read are not
all missing if those of the literal are not. -/
theorem Fraction.length_le {whole : List Char} (all : ∀ c ∈ whole, isDigit c = true)
    (behind : Fraction (!whole.isEmpty) f ds) (filled : whole ≠ [] ∨ ds ≠ []) (power : Power p exponent)
    (rest : List Char) :
    let digits := digits (whole ++ (f ++ (p ++ rest)))
    let fraction := fraction (!digits.1.isEmpty) digits.2
    (digits.1 ≠ [] ∨ fraction.1 ≠ []) ∧ (Decimal.power fraction.2).2.length ≤ rest.length := by
  cases behind with
  | none =>
    have filled : whole ≠ [] := filled.resolve_right (by simp)
    by_cases raised : p = []
    · subst raised
      rw [List.nil_append, List.nil_append, digits_append_run all]
      refine ⟨.inl (by simp [filled]), ?_⟩
      exact (Decimal.length_power_le _).trans
        ((length_fraction_le _ _).trans (length_digits_le rest))
    · have stops := power.head_raised raised rest
      rw [List.nil_append, digits_append all fun c first => (stops c first).1]
      have absent := (@Fraction.none (!whole.isEmpty)).fraction_append stops
      rw [List.nil_append] at absent
      simp only [absent]
      exact ⟨.inl filled, power.length_power_le rest⟩
  | point digits present =>
    rw [digits_append all (by rintro c ⟨rfl⟩; rfl)]
    have read : Decimal.fraction (!whole.isEmpty) ('.' :: ds ++ (p ++ rest)) =
        Decimal.digits (ds ++ (p ++ rest)) := by
      rw [List.cons_append, Decimal.fraction, if_pos]
      rw [digits_append_run digits]
      rcases present with present | present <;> simp [present]
    simp only [read]
    by_cases raised : p = []
    · subst raised
      rw [List.nil_append, digits_append_run digits]
      refine ⟨filled.imp_right fun filled => by simp [filled], ?_⟩
      exact (Decimal.length_power_le _).trans (length_digits_le rest)
    · rw [digits_append digits fun c first => (power.head_raised raised rest c first).1]
      exact ⟨filled, power.length_power_le rest⟩

/-- No literal at the start of a text goes further than the one that is read. -/
theorem Written.exists_literal? (written : Written used l) (rest : List Char) :
    ∃ l' left, literal? (used ++ rest) = some (l', left) ∧ left.length ≤ rest.length := by
  obtain @⟨s, whole, f, ds, p, negative, exponent, signed, all, behind, filled, power⟩ := written
  have signs : sign (s ++ (whole ++ (f ++ (p ++ rest)))) = (negative, whole ++ (f ++ (p ++ rest))) :=
    signed.sign_append (behind.start all filled _)
  obtain ⟨some, bound⟩ := Fraction.length_le all behind filled power rest
  simp only [List.append_assoc]
  simp only [literal?, signs]
  rw [if_neg]
  · exact ⟨_, _, rfl, bound⟩
  · simpa [← not_and_or] using some

structure Longest (language : Language Char) (text used : List Char) : Prop where
  start : used <+: text
  mem : used ∈ language
  greatest : ∀ other, other <+: text → other ∈ language → other.length ≤ used.length

theorem literal?_eq_none : literal? cs = none ↔ ∀ used, used <+: cs → used ∉ numeral.matches' := by
  constructor
  · rintro none used ⟨rest, rfl⟩ member
    obtain ⟨l, written⟩ := mem_numeral.mp member
    obtain ⟨_, _, read, -⟩ := written.exists_literal? rest
    cases none.symm.trans read
  · intro none
    refine Option.eq_none_iff_forall_ne_some.mpr fun ⟨l, rest⟩ read => ?_
    obtain ⟨used, written, split⟩ := exists_written read
    exact none used ⟨rest, split.symm⟩ (mem_numeral.mpr ⟨l, written⟩)

theorem longest_of_literal? (read : literal? cs = some (l, rest)) :
    ∃ used, Written used l ∧ cs = used ++ rest ∧ Longest numeral.matches' cs used := by
  obtain ⟨used, written, split⟩ := exists_written read
  refine ⟨used, written, split, ⟨⟨rest, split.symm⟩, mem_numeral.mpr ⟨l, written⟩, ?_⟩⟩
  rintro other ⟨rest', split'⟩ member
  obtain ⟨l', written'⟩ := mem_numeral.mp member
  obtain ⟨_, _, read', bound⟩ := written'.exists_literal? rest'
  rw [split', read] at read'
  cases read'
  have := congrArg List.length (split'.trans split)
  rw [List.length_append, List.length_append] at this
  omega

/-- A whole number that a text starts with goes no further than the digits behind its sign. -/
theorem length_whole_le (member : used ∈ wholeNumeral.matches') (rest : List Char) :
    (digits (sign (used ++ rest)).2).1 ≠ [] ∧
      (digits (sign (used ++ rest)).2).2.length ≤ rest.length := by
  obtain ⟨s, negative, ds, signed, filled, all, rfl⟩ := mem_wholeNumeral.mp member
  have signs : sign (s ++ (ds ++ rest)) = (negative, ds ++ rest) := signed.sign_append (by
    rw [List.head?_append_of_ne_nil _ filled]
    exact fun c first => ne_of_isDigit (all c (List.mem_of_mem_head? first)))
  rw [List.append_assoc, signs, digits_append_run all]
  exact ⟨by simp [filled], length_digits_le rest⟩

theorem exists_whole (filled : (digits (sign cs).2).1 ≠ []) :
    ∃ used, Written used ⟨(sign cs).1, (digits (sign cs).2).1, 0⟩ ∧
      cs = used ++ (digits (sign cs).2).2 ∧ used ∈ wholeNumeral.matches' := by
  obtain ⟨s, signed, split⟩ := exists_signed cs
  have written := Written.parts signed isDigit_of_mem_digits .none (.inl filled) .none
  simp only [List.append_nil, List.length_nil] at written
  refine ⟨_, written, ?_, mem_wholeNumeral.mpr ⟨s, _, _, signed, filled, isDigit_of_mem_digits, rfl⟩⟩
  rw [List.append_assoc, digits_append_digits]
  exact split

theorem digits_eq_nil :
    (digits (sign cs).2).1 = [] ↔ ∀ used, used <+: cs → used ∉ wholeNumeral.matches' := by
  constructor
  · rintro none used ⟨rest, rfl⟩ member
    exact (length_whole_le member rest).1 none
  · intro none
    by_contra filled
    obtain ⟨used, -, split, member⟩ := exists_whole filled
    exact none used ⟨_, split.symm⟩ member

theorem longest_of_digits (filled : (digits (sign cs).2).1 ≠ []) :
    ∃ used, Written used ⟨(sign cs).1, (digits (sign cs).2).1, 0⟩ ∧
      cs = used ++ (digits (sign cs).2).2 ∧ Longest wholeNumeral.matches' cs used := by
  obtain ⟨used, written, split, member⟩ := exists_whole filled
  refine ⟨used, written, split, ⟨⟨_, split.symm⟩, member, ?_⟩⟩
  rintro other ⟨rest, split'⟩ member'
  have bound := (length_whole_le member' rest).2
  rw [split'] at bound
  have := congrArg List.length (split'.trans split)
  rw [List.length_append, List.length_append] at this
  omega

end LiveTree.Decimal
