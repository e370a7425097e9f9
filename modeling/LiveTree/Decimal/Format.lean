import LiveTree.Decimal.Shortest

/-!
How a shortest decimal is written: which powers of ten keep the point in place, whether a whole
number keeps a fraction, and how the exponent looks otherwise.
-/
namespace LiveTree.Decimal

structure Format where
  /-- The powers of ten of the first digit that are written without an exponent, both included. -/
  positional : Option (Int × Int)
  fraction : Bool
  tie : Tie

def digitText (n : Nat) : List Char := Nat.toDigits 10 n

def zeros (n : Nat) : List Char := List.replicate n '0'

def Digits.positional (d : Digits) (fraction : Bool) : List Char :=
  let ds := digitText d.digits
  let whole := ds.length + d.exponent
  if 0 ≤ d.exponent then
    ds ++ zeros d.exponent.toNat ++ if fraction then ['.', '0'] else []
  else if 0 < whole then
    ds.take whole.toNat ++ '.' :: ds.drop whole.toNat
  else
    '0' :: '.' :: zeros (-whole).toNat ++ ds

def Digits.scientific (d : Digits) : List Char :=
  let ds := digitText d.digits
  let power := ds.length + d.exponent - 1
  let mantissa := match ds with
    | first :: second :: rest => first :: '.' :: second :: rest
    | ds => ds
  mantissa ++ 'e' :: (if power < 0 then '-' else '+') :: digitText power.natAbs

def Format.write (n : Format) (d : Digits) : List Char :=
  let power := (digitText d.digits).length + d.exponent - 1
  match n.positional with
  | none => d.positional n.fraction
  | some (least, greatest) =>
    if least ≤ power ∧ power ≤ greatest then d.positional n.fraction else d.scientific

end LiveTree.Decimal
