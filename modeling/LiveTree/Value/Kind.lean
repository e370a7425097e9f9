import LiveTree.Text.Blank
import LiveTree.Value

/-!
Declared types of properties, parameters and results: their names, which values they accept, and
how a declaration such as `number?` is read.
-/
namespace LiveTree

inductive Kind
  | string
  | number
  | integer
  | float
  | boolean
  | date
  | function
  | any
  | array
  | object
  | composite
  deriving DecidableEq, Repr

namespace Kind

def name : Kind → String
  | .string => "string"
  | .number => "number"
  | .integer => "integer"
  | .float => "float"
  | .boolean => "boolean"
  | .date => "date"
  | .function => "function"
  | .any => "any"
  | .array => "array"
  | .object => "object"
  | .composite => "composite"

def named? (name : String) : Option Kind :=
  match name with
  | "string" => some .string
  | "number" => some .number
  | "int" | "integer" => some .integer
  | "float" => some .float
  | "bool" | "boolean" => some .boolean
  | "date" => some .date
  | "function" => some .function
  | "any" => some .any
  | "array" => some .array
  | "object" => some .object
  | "composite" | "propertyObject" => some .composite
  | _ => none

def declared? (declaration : String) : Option (Kind × Bool) :=
  let cs := Text.trim declaration.toList
  let (cs, nullable) := if cs.getLast? = some '?' then (cs.dropLast, true) else (cs, false)
  (named? (String.ofList cs)).map fun kind => (kind, nullable)

def isNumeric : Kind → Bool
  | .number | .integer | .float => true
  | _ => false

/-- Whether a value fits. Every numeric kind takes any number, the kinds of objects take arrays
too, and null fits where it is allowed. -/
def accepts (kind : Kind) (nullable : Bool) : Value → Bool
  | .null => nullable || kind == .any
  | .undefined => kind == .any
  | .bool _ => kind == .any || kind == .boolean
  | .number _ => kind == .any || kind.isNumeric
  | .string _ => kind == .any || kind == .string
  | .date _ => kind == .any || kind == .date
  | .function _ => kind == .any || kind == .function
  | .array _ => kind == .any || kind == .array || kind == .object || kind == .composite
  | .object _ => kind == .any || kind == .object || kind == .composite

def absent : Kind → Value
  | .boolean => .bool false
  | .array => .array []
  | .object | .composite => .object []
  | _ => .undefined

theorem named?_name (kind : Kind) : named? kind.name = some kind := by cases kind <;> rfl

end Kind
end LiveTree
