import LiveTree.Instant
import LiveTree.Keyed
import LiveTree.Text.Search

/-!
Dynamically typed values: what properties, attributes, event details and context fields carry.
`Value.same` is the identity that decides whether a write changes anything, and
`Value.WellFormed` the promise that no object names a member twice.
-/
namespace LiveTree

structure FunctionRef where
  name : String
  identity : Nat
  deriving DecidableEq, Repr

inductive Value
  | undefined
  | null
  | bool (b : Bool)
  | number (x : Float)
  | string (s : String)
  | date (t : Instant)
  | function (f : FunctionRef)
  | array (items : List Value)
  | object (members : List (String × Value))
  deriving Inhabited

namespace Value

def ofInt32 (n : Int32) : Value := .number (Float.ofInt n.toInt)

def ofInt64 (n : Int64) : Value := .number (Float.ofInt n.toInt)

def ofSize (n : UInt64) : Value := .number (Float.ofNat n.toNat)

def isUndefined : Value → Bool
  | .undefined => true
  | _ => false

def isNull : Value → Bool
  | .null => true
  | _ => false

def isNullish (v : Value) : Bool := v.isUndefined || v.isNull

def bool? : Value → Option Bool
  | .bool b => some b
  | _ => none

def number? : Value → Option Float
  | .number x => some x
  | _ => none

def string? : Value → Option String
  | .string s => some s
  | _ => none

def array? : Value → Option (List Value)
  | .array items => some items
  | _ => none

def object? : Value → Option (Keyed Value)
  | .object members => some members
  | _ => none

def function? : Value → Option FunctionRef
  | .function f => some f
  | _ => none

def typeName : Value → String
  | .undefined => "undefined"
  | .null => "null"
  | .bool _ => "boolean"
  | .number _ => "number"
  | .string _ => "string"
  | .date _ => "date"
  | .function _ => "function"
  | .array _ => "array"
  | .object _ => "object"

/-- What a negated binding takes for true: all but nothing, false, zero, the not-a-number and the
empty string. -/
def truthy : Value → Bool
  | .undefined | .null => false
  | .bool b => b
  | .number x => !(x == 0.0) && !x.isNaN
  | .string s => !s.isEmpty
  | _ => true

def negated (v : Value) : Value := if v.isUndefined then v else .bool !v.truthy

def member? (v : Value) (key : String) : Option Value := v.object?.bind (·.get? key)

def follow : Value → List String → Option Value
  | v, [] => some v
  | v, name :: rest => (v.member? name).bind (follow · rest)

def segments (path : String) : List String := (Text.splitOn '.' path.toList).map String.ofList

def get? (v : Value) (path : String) : Option Value := v.follow (segments path)

/-- Puts a value at the end of a chain of member names. Missing objects on the way are made, but
anything else in the way stops the write. -/
def put : Value → List String → Value → Option Value
  | .object members, [name], v => some (.object (Keyed.insert members name v))
  | .object members, name :: next :: rest, v =>
    (put ((Keyed.get? members name).getD (.object [])) (next :: rest) v).map fun inner =>
      .object (Keyed.insert members name inner)
  | _, _, _ => none

def set? (root : Value) (path : String) (v : Value) : Option Value := root.put (segments path) v

def sameNumber (x y : Float) : Bool := (x.isNaN && y.isNaN) || x == y

mutual
/-- The identity of values: not-a-number is itself, the two zeros are one, and arrays and objects
are compared by their members, those of objects in any order. -/
def same : Value → Value → Bool
  | .undefined, .undefined => true
  | .null, .null => true
  | .bool a, .bool b => a == b
  | .number x, .number y => sameNumber x y
  | .string s, .string t => s == t
  | .date s, .date t => s == t
  | .function f, .function g => f.identity == g.identity
  | .array xs, .array ys => sameItems xs ys
  | .object xs, .object ys => xs.length == ys.length && sameMembers xs ys
  | _, _ => false

def sameItems : List Value → List Value → Bool
  | [], [] => true
  | x :: xs, y :: ys => same x y && sameItems xs ys
  | _, _ => false

def sameMembers : List (String × Value) → List (String × Value) → Bool
  | [], _ => true
  | (name, x) :: xs, ys =>
    (match Keyed.get? ys name with
      | some y => same x y
      | none => false) && sameMembers xs ys
end

mutual
def WellFormed : Value → Prop
  | .array items => WellFormedItems items
  | .object members => (Keyed.names members).Nodup ∧ WellFormedMembers members
  | _ => True

def WellFormedItems : List Value → Prop
  | [] => True
  | v :: rest => WellFormed v ∧ WellFormedItems rest

def WellFormedMembers : List (String × Value) → Prop
  | [] => True
  | (_, v) :: rest => WellFormed v ∧ WellFormedMembers rest
end

end Value
end LiveTree
