/-!
The shortest decimal that reads back as a given double: of all decimals in the interval of reals
that round to the double, one with the fewest digits, and of those the nearest to it.
-/
namespace LiveTree.Decimal

/-- A double taken apart; a finite one is `mantissa * 2 ^ exponent`, up to its sign. -/
inductive Parts
  | nan
  | infinite (negative : Bool)
  | finite (negative : Bool) (mantissa : Nat) (exponent : Int)
  deriving DecidableEq

def parts (x : Float) : Parts :=
  let bits := x.toBits.toNat
  let negative := decide (Nat.pow 2 63 ≤ bits)
  let biased : Nat := bits / Nat.pow 2 52 % 2048
  let fraction := bits % Nat.pow 2 52
  if biased = 2047 then if fraction = 0 then .infinite negative else .nan
  else if biased = 0 then .finite negative fraction (-1074)
  else .finite negative (Nat.pow 2 52 + fraction) ((biased : Int) - 1075)

def whole? (mantissa : Nat) (exponent : Int) : Option Nat :=
  let down := Nat.pow 2 (-exponent).toNat
  if mantissa % down = 0 then some (mantissa * Nat.pow 2 exponent.toNat / down) else none

/-- The reals that round to a positive double: numerators over one denominator. The two ends
belong to it when `closed`. -/
structure Interval where
  low : Nat
  mid : Nat
  high : Nat
  den : Nat
  closed : Bool

/-- The lower neighbour of a power of two is nearer than the upper one, except at the least
exponent. Ties go to the even mantissa, so an even one owns its two ends. -/
def interval (mantissa : Nat) (exponent : Int) : Interval :=
  let up := Nat.pow 2 (exponent - 2).toNat
  let near := mantissa = Nat.pow 2 52 ∧ -1074 < exponent
  { low := (4 * mantissa - if near then 1 else 2) * up
    mid := 4 * mantissa * up
    high := (4 * mantissa + 2) * up
    den := Nat.pow 2 (2 - exponent).toNat
    closed := mantissa % 2 = 0 }

def digitCount (n : Nat) : Nat := if n < 10 then 1 else digitCount (n / 10) + 1
termination_by n

/-- The `e` with `10 ^ e ≤ num / den < 10 ^ (e + 1)`. -/
def magnitude (num den : Nat) : Int :=
  if den ≤ num then (digitCount (num / den) : Int) - 1
  else -(digitCount ((den + num - 1) / num - 1) : Int)

inductive Tie
  | up
  | even
  deriving DecidableEq

/-- The point of the grid of multiples of `10 ^ e` to write: a neighbour of the middle that lies
in the interval, the nearer one if both do. -/
def Interval.pick (i : Interval) (tie : Tie) (e : Int) : Option Nat :=
  let a := Nat.pow 10 (-e).toNat
  let b := i.den * Nat.pow 10 e.toNat
  let inside (c : Nat) : Bool :=
    if i.closed then i.low * a ≤ c * b && c * b ≤ i.high * a
    else i.low * a < c * b && c * b < i.high * a
  let below := i.mid * a / b
  let down := i.mid * a - below * b
  let up := (below + 1) * b - i.mid * a
  match inside below, inside (below + 1) with
  | true, true =>
    if down < up then some below
    else if up < down then some (below + 1)
    else match tie with
      | .up => some (below + 1)
      | .even => some (if below % 2 = 0 then below else below + 1)
  | true, false => some below
  | false, true => some (below + 1)
  | false, false => none

structure Digits where
  digits : Nat
  exponent : Int
  deriving DecidableEq

def Digits.strip (d : Digits) : Digits :=
  if _h : 0 < d.digits ∧ d.digits % 10 = 0 then
    Digits.strip { digits := d.digits / 10, exponent := d.exponent + 1 }
  else d
termination_by d.digits
decreasing_by omega

/-- The shortest decimal for the positive double `mantissa * 2 ^ exponent`. Seventeen digits
always suffice. -/
def shortest (tie : Tie) (mantissa : Nat) (exponent : Int) : Digits :=
  let i := interval mantissa exponent
  let top := magnitude i.mid i.den
  let found := (List.range 17).findSome? fun k : Nat =>
    (i.pick tie (top - k)).map fun c => { digits := c, exponent := top - k : Digits }
  (found.getD { digits := 0, exponent := 0 }).strip

end LiveTree.Decimal
