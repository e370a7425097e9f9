/-!
Decimal literals: the runs of digits they consist of, the longest literal at the start of a text,
and the double nearest to one.
-/
namespace LiveTree.Decimal

def isDigit (c : Char) : Bool := '0' ≤ c && c ≤ '9'

theorem isDigit_iff {c : Char} : isDigit c = true ↔ 48 ≤ c.toNat ∧ c.toNat ≤ 57 := by
  simp only [isDigit, Bool.and_eq_true, decide_eq_true_eq, Char.le_def, UInt32.le_iff_toNat_le]
  rfl

def digitValue (c : Char) : Nat := c.toNat - '0'.toNat

def ofDigits (ds : List Char) : Nat := ds.foldl (fun n c => 10 * n + digitValue c) 0

def digits (cs : List Char) : List Char × List Char := (cs.takeWhile isDigit, cs.dropWhile isDigit)

def infinity (negative : Bool) : Float := if negative then -1.0 / 0.0 else 1.0 / 0.0

def zero (negative : Bool) : Float := if negative then -0.0 else 0.0

def nan : Float := 0.0 / 0.0

/-- The double nearest to `n * 10 ^ exponent`. Decimals of more than 310 places before the point
exceed every double, and those that start more than 330 places behind it round to zero. -/
def nearest (negative : Bool) (n : Nat) (exponent : Int) : Float :=
  let places : Int := (Nat.toDigits 10 n).length + exponent
  if n = 0 ∨ places < -330 then zero negative
  else if 310 < places then infinity negative
  else
    let x := Float.ofScientific n (decide (exponent < 0)) exponent.natAbs
    if negative then -x else x

structure Literal where
  negative : Bool
  digits : List Char
  exponent : Int
  deriving DecidableEq

def Literal.toFloat (l : Literal) : Float := nearest l.negative (ofDigits l.digits) l.exponent

def sign (cs : List Char) : Bool × List Char :=
  match cs with
  | '-' :: cs => (true, cs)
  | '+' :: cs => (false, cs)
  | cs => (false, cs)

def fraction (afterDigit : Bool) (cs : List Char) : List Char × List Char :=
  match cs with
  | '.' :: rest => if afterDigit || !(digits rest).1.isEmpty then digits rest else ([], cs)
  | cs => ([], cs)

def power (cs : List Char) : Int × List Char :=
  match cs with
  | 'e' :: rest | 'E' :: rest =>
    let (negative, rest) := sign rest
    let (ds, rest) := digits rest
    if ds.isEmpty then (0, cs)
    else (if negative then -(ofDigits ds : Int) else ofDigits ds, rest)
  | cs => (0, cs)

def literal? (cs : List Char) : Option (Literal × List Char) :=
  let (negative, cs) := sign cs
  let (whole, cs) := digits cs
  let (fraction, cs) := fraction (!whole.isEmpty) cs
  if whole.isEmpty && fraction.isEmpty then none
  else
    let (exponent, cs) := power cs
    some ({ negative := negative, digits := whole ++ fraction,
            exponent := exponent - fraction.length }, cs)

end LiveTree.Decimal
