import LiveTree.Json
import LiveTree.Value

/-!
The JSON form of values and their text. Functions and undefined have no JSON form: objects drop
such members, arrays keep their place with null.
-/
namespace LiveTree.Value

mutual
def toJson? : Value → Option Json
  | .undefined | .function _ => none
  | .null => some .null
  | .bool b => some (.bool b)
  | .number x => some (if x.isFinite then .number x else .null)
  | .string s => some (.string s)
  | .date t => some (.string (String.ofList t.text))
  | .array items => some (.array (itemsToJson items))
  | .object members => some (.object (membersToJson members))

def itemsToJson : List Value → List Json
  | [] => []
  | v :: rest => (toJson? v).getD .null :: itemsToJson rest

def membersToJson : List (String × Value) → List (String × Json)
  | [] => []
  | (name, v) :: rest =>
    match toJson? v with
    | some json => (name, json) :: membersToJson rest
    | none => membersToJson rest
end

mutual
def ofJson : Json → Value
  | .null => .null
  | .bool b => .bool b
  | .number x => .number x
  | .string s => .string s
  | .array items => .array (ofJsonItems items)
  | .object members => .object (ofJsonMembers members)

def ofJsonItems : List Json → List Value
  | [] => []
  | json :: rest => ofJson json :: ofJsonItems rest

def ofJsonMembers : List (String × Json) → List (String × Value)
  | [] => []
  | (name, json) :: rest => (name, ofJson json) :: ofJsonMembers rest
end

/-- Fractions and numbers beyond `10 ^ 21` are written with the fewest digits that read back, the
point always in place. -/
def numbers : Decimal.Format := { positional := none, fraction := false, tie := .up }

def numberText (x : Float) : List Char :=
  match Decimal.parts x with
  | .nan => "NaN".toList
  | .infinite negative => if negative then "-Infinity".toList else "Infinity".toList
  | .finite negative mantissa exponent =>
    if mantissa = 0 then ['0']
    else
      let ds := match (Decimal.whole? mantissa exponent).filter (· < Nat.pow 10 21) with
        | some n => Decimal.digitText n
        | none => numbers.write (Decimal.shortest numbers.tie mantissa exponent)
      if negative then '-' :: ds else ds

mutual
def text : Value → List Char
  | .undefined | .null => []
  | .bool b => if b then "true".toList else "false".toList
  | .number x => numberText x
  | .string s => s.toList
  | .date t => t.text
  | .function f => f.name.toList
  | .array items => itemsText items
  | .object members => (Json.object (membersToJson members)).text

def itemsText : List Value → List Char
  | [] => []
  | [item] => text item
  | item :: rest => text item ++ ',' :: itemsText rest
end

def display (v : Value) : String := String.ofList v.text

def spelled : Value → String
  | .undefined => "undefined"
  | .null => "null"
  | v => v.display

end LiveTree.Value
