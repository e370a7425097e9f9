import LiveTree.Codec.Number
import LiveTree.Json.Reader
import LiveTree.Value.Kind
import LiveTree.Value.Text

/-!
The codec between typed values and attribute texts. A boolean is there or not; numbers are read
from the start of a text; arrays and objects are JSON, or the names of values held by the codec.
Reading never fails: what cannot be read is undefined, which overrides nothing.
-/
namespace LiveTree

structure Codec where
  globals : Keyed Value := []

namespace Codec

def addGlobal (c : Codec) (name : String) (v : Value) : Codec :=
  { c with globals := c.globals.insert name v }

def addFunction (c : Codec) (f : FunctionRef) : Codec := c.addGlobal f.name (.function f)

def global? (c : Codec) (name : String) : Option Value := c.globals.get? name

def structuredText (v : Value) : Option String :=
  match v with
  | .array [] | .object [] => none
  | v => v.toJson?.map fun json => String.ofList json.text

def isOn : Value → Bool
  | .bool b => b
  | .number x => x == 1.0
  | .string s => s == "true" || s == "1"
  | _ => false

def write (kind : Kind) (nullable : Bool) (v : Value) : Option String :=
  match v with
  | .undefined => none
  | .null => if nullable then some "null" else none
  | v =>
    match kind with
    | .boolean => if isOn v then some "" else none
    | .array | .object | .composite => structuredText v
    | .any =>
      match v with
      | .array _ | .object _ => structuredText v
      | v => some v.display
    | _ => some v.display

/-- The items of a bracketed list that is no JSON: without its first brackets and all quotes,
between commas. -/
def bareItems (text : List Char) : List Value :=
  let text := (Text.cutAt '[' text).elim text fun r => r.1 ++ r.2
  let text := (Text.cutAt ']' text).elim text fun r => r.1 ++ r.2
  let text := text.filter fun c => c != '\'' && c != '"'
  (Text.splitOn ',' (Text.trim text)).map fun item => .string (String.ofList (Text.trim item))

def readStructured (c : Codec) (kind : Kind) (text : String) : Value :=
  match Json.read? text.toList with
  | some json =>
    let v := Value.ofJson json
    if v.truthy then v else .undefined
  | none =>
    match c.global? text with
    | some (.object members) => .object members
    | some (.array items) => .array items
    | _ =>
      if kind = .array ∧ '[' ∈ text.toList then .array (bareItems text.toList) else .undefined

def numberWord? (text : String) : Option Float :=
  match text with
  | "NaN" => some Decimal.nan
  | "Infinity" => some (Decimal.infinity false)
  | "-Infinity" => some (Decimal.infinity true)
  | _ => none

def read (c : Codec) (kind : Kind) (nullable : Bool) (text : Option String) : Value :=
  match kind, text with
  | .boolean, none => .bool false
  | .boolean, some text => if text == "null" && nullable then .null else .bool true
  | _, none => .undefined
  | kind, some text =>
    if text == "null" then if nullable then .null else .undefined
    else match kind with
      | .number | .float => .number ((numberWord? text).getD (numberAtStart text.toList))
      | .integer => .number ((numberWord? text).getD (integerAtStart text.toList))
      | .string | .any => .string text
      | .date => ((Instant.read? text.toList).map Value.date).getD .undefined
      | .function =>
        match c.global? text with
        | some (.function f) => .function f
        | _ => .undefined
      | kind => readStructured c kind text

end Codec
end LiveTree
