import LiveTree.Decimal.Format
import LiveTree.Decimal.Literal

/-!
JSON data and its compact text. All numbers are doubles; members of an object keep their order.
-/
namespace LiveTree

inductive Json
  | null
  | bool (b : Bool)
  | number (x : Float)
  | string (s : String)
  | array (items : List Json)
  | object (members : List (String × Json))

namespace Json

/-- Numbers have the fewest digits that read back, keep a fraction, and get an exponent outside
the powers of ten from -5 to 15. -/
def numbers : Decimal.Format := { positional := some (-5, 15), fraction := true, tie := .even }

def numberText (x : Float) : List Char :=
  match Decimal.parts x with
  | .finite negative mantissa exponent =>
    (if negative then ['-'] else []) ++
      if mantissa = 0 then ['0', '.', '0']
      else numbers.write (Decimal.shortest numbers.tie mantissa exponent)
  | _ => "null".toList

def hexDigit (n : Nat) : Char := (Nat.digitChar n)

def escape (c : Char) : List Char :=
  match c with
  | '"' => ['\\', '"']
  | '\\' => ['\\', '\\']
  | '\n' => ['\\', 'n']
  | '\r' => ['\\', 'r']
  | '\t' => ['\\', 't']
  | '\x08' => ['\\', 'b']
  | '\x0c' => ['\\', 'f']
  | c =>
    if c.toNat < 32 then
      ['\\', 'u', '0', '0', hexDigit (c.toNat / 16), hexDigit (c.toNat % 16)]
    else [c]

def quote (s : String) : List Char := '"' :: s.toList.flatMap escape ++ ['"']

mutual
def text : Json → List Char
  | .null => "null".toList
  | .bool b => if b then "true".toList else "false".toList
  | .number x => numberText x
  | .string s => quote s
  | .array items => '[' :: itemsText items ++ [']']
  | .object members => '{' :: membersText members ++ ['}']

def itemsText : List Json → List Char
  | [] => []
  | [item] => text item
  | item :: rest => text item ++ ',' :: itemsText rest

def membersText : List (String × Json) → List Char
  | [] => []
  | [(name, value)] => quote name ++ ':' :: text value
  | (name, value) :: rest => quote name ++ ':' :: text value ++ ',' :: membersText rest
end

end Json
end LiveTree
