import LiveTree.Json
import LiveTree.Keyed
import LiveTree.Text.Blank

/-!
Reading JSON text. At most 127 arrays and objects may be nested, numbers beyond the doubles are
refused, and of members with one name the last counts, at the place of the first.
-/
namespace LiveTree.Json

/-- `x * 10 ^ exponent` by one multiplication or division, after steps of `10 ^ 308` for exponents
that have no power of ten among the doubles. Nothing if it exceeds the doubles. -/
def scale (x : Float) (exponent : Int) : Option Float :=
  if exponent < -308 then
    if x == 0.0 then some x else scale (x / Float.ofScientific 1 false 308) (exponent + 308)
  else if 308 < exponent then if x == 0.0 then some x else none
  else if exponent < 0 then some (x / Float.ofScientific 1 false exponent.natAbs)
  else
    let y := x * Float.ofScientific 1 false exponent.natAbs
    if y.isInf then none else some y
termination_by (-exponent).toNat
decreasing_by omega

def gather (n : Nat) : List Char → Nat × List Char
  | [] => (n, [])
  | c :: cs =>
    let m := 10 * n + Decimal.digitValue c
    if m < Nat.pow 2 64 then gather m cs else (n, c :: cs)

/-- A number by its parts. Digits of the whole part that do not fit count into the exponent, those
of the fraction are dropped. -/
def numberOf (negative : Bool) (whole fraction : List Char) (exponent : Option Int) :
    Option Float := do
  let (n, rest) := gather 0 whole
  let (m, tail) := gather n fraction
  let used : Int := (fraction.length - tail.length : Nat)
  let x ←
    if rest.isEmpty && fraction.isEmpty && exponent.isNone then some (Float.ofNat n)
    else scale (Float.ofNat m) (rest.length - used + exponent.getD 0)
  return if negative then -x else x

def digits? (cs : List Char) : Option (List Char × List Char) :=
  let ds := cs.takeWhile Decimal.isDigit
  if ds.isEmpty then none else some (ds, cs.dropWhile Decimal.isDigit)

def exponent? (cs : List Char) : Option (Int × List Char) :=
  match cs with
  | '-' :: cs => (digits? cs).map fun r => (-(Decimal.ofDigits r.1 : Int), r.2)
  | '+' :: cs => (digits? cs).map fun r => ((Decimal.ofDigits r.1 : Int), r.2)
  | cs => (digits? cs).map fun r => ((Decimal.ofDigits r.1 : Int), r.2)

def number? (cs : List Char) : Option (Float × List Char) := do
  let (negative, cs) := match cs with
    | '-' :: cs => (true, cs)
    | cs => (false, cs)
  let (whole, cs) ← digits? cs
  guard (whole.length = 1 ∨ whole.head? ≠ some '0')
  let (fraction, cs) ← match cs with
    | '.' :: cs => digits? cs
    | cs => some ([], cs)
  let (exponent, cs) ← match cs with
    | 'e' :: cs | 'E' :: cs => (exponent? cs).map fun r => (some r.1, r.2)
    | cs => some (none, cs)
  let x ← numberOf negative whole fraction exponent
  return (x, cs)

def hexValue (c : Char) : Option Nat :=
  if '0' ≤ c && c ≤ '9' then some (c.toNat - '0'.toNat)
  else if 'a' ≤ c && c ≤ 'f' then some (c.toNat - 'a'.toNat + 10)
  else if 'A' ≤ c && c ≤ 'F' then some (c.toNat - 'A'.toNat + 10)
  else none

def hex4 (a b c d : Char) : Option Nat := do
  return ((← hexValue a) * 16 + (← hexValue b)) * 256 + (← hexValue c) * 16 + (← hexValue d)

def simpleEscape : Char → Option Char
  | '"' => some '"'
  | '\\' => some '\\'
  | '/' => some '/'
  | 'b' => some '\x08'
  | 'f' => some '\x0c'
  | 'n' => some '\n'
  | 'r' => some '\r'
  | 't' => some '\t'
  | _ => none

/-- The rest of a string after its opening quote. A surrogate must be the first half of a pair
that is complete. -/
def stringBody : List Char → Option (List Char × List Char)
  | [] => none
  | '"' :: cs => some ([], cs)
  | '\\' :: 'u' :: a :: b :: c :: d :: cs => do
    let n ← hex4 a b c d
    if 0xDC00 ≤ n ∧ n ≤ 0xDFFF then none
    else if 0xD800 ≤ n ∧ n ≤ 0xDBFF then
      match cs with
      | '\\' :: 'u' :: a :: b :: c :: d :: cs => do
        let m ← hex4 a b c d
        guard (0xDC00 ≤ m ∧ m ≤ 0xDFFF)
        let (s, cs) ← stringBody cs
        return (Char.ofNat (0x10000 + (n - 0xD800) * 0x400 + (m - 0xDC00)) :: s, cs)
      | _ => none
    else do
      let (s, cs) ← stringBody cs
      return (Char.ofNat n :: s, cs)
  | '\\' :: c :: cs => do
    let c ← simpleEscape c
    let (s, cs) ← stringBody cs
    return (c :: s, cs)
  | c :: cs =>
    if c.toNat < 32 ∨ c = '\\' then none
    else do
      let (s, cs) ← stringBody cs
      return (c :: s, cs)

def items (item : List Char → Option (Json × List Char)) :
    (most : Nat) → List Char → Option (List Json × List Char)
  | 0, _ => none
  | most + 1, cs => do
    let (x, cs) ← item cs
    match Text.skipSpaces cs with
    | ',' :: cs => do
      let (xs, cs) ← items item most cs
      return (x :: xs, cs)
    | ']' :: cs => some ([x], cs)
    | _ => none

def members (item : List Char → Option (Json × List Char)) :
    (most : Nat) → List Char → Option (List (String × Json) × List Char)
  | 0, _ => none
  | most + 1, cs => do
    let (name, cs) ← match Text.skipSpaces cs with
      | '"' :: cs => stringBody cs
      | _ => none
    let (x, cs) ← match Text.skipSpaces cs with
      | ':' :: cs => item cs
      | _ => none
    let entry := (String.ofList name, x)
    match Text.skipSpaces cs with
    | ',' :: cs => do
      let (xs, cs) ← members item most cs
      return (entry :: xs, cs)
    | '}' :: cs => some ([entry], cs)
    | _ => none

def value? : (depth : Nat) → List Char → Option (Json × List Char)
  | 0, _ => none
  | depth + 1, cs =>
    match Text.skipSpaces cs with
    | 'n' :: 'u' :: 'l' :: 'l' :: cs => some (.null, cs)
    | 't' :: 'r' :: 'u' :: 'e' :: cs => some (.bool true, cs)
    | 'f' :: 'a' :: 'l' :: 's' :: 'e' :: cs => some (.bool false, cs)
    | '"' :: cs => (stringBody cs).map fun r => (.string (String.ofList r.1), r.2)
    | '[' :: cs =>
      if depth = 0 then none
      else match Text.skipSpaces cs with
        | ']' :: cs => some (.array [], cs)
        | _ => (items (value? depth) cs.length cs).map fun r => (.array r.1, r.2)
    | '{' :: cs =>
      if depth = 0 then none
      else match Text.skipSpaces cs with
        | '}' :: cs => some (.object [], cs)
        | _ => (members (value? depth) cs.length cs).map fun r => (.object (Keyed.ofList r.1), r.2)
    | cs => (number? cs).map fun r => (.number r.1, r.2)

def read? (cs : List Char) : Option Json := do
  let (x, cs) ← value? 128 cs
  guard (Text.skipSpaces cs).isEmpty
  return x

end LiveTree.Json
