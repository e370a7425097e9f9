import LiveTree.Binding.Expression
import LiveTree.Text.Blank

/-!
Binding tokens in texts. Double braces hold a two-way binding and double brackets a one-way one.
Of several tokens in a text the last is the binding, and what stands around it is kept; a token
without its end leaves the whole text unbound.
-/
namespace LiveTree

inductive Mode
  | oneWay
  | twoWay
  deriving DecidableEq, Repr

structure Token where
  expression : String
  source : Source
  mode : Mode
  before : String
  after : String

namespace Token

def start : Mode → List Char
  | .oneWay => ['[', '[']
  | .twoWay => ['{', '{']

def close : Mode → List Char
  | .oneWay => [']', ']']
  | .twoWay => ['}', '}']

def nextStart : List Char → Option (List Char × Mode × List Char)
  | '{' :: '{' :: cs => some ([], .twoWay, cs)
  | '[' :: '[' :: cs => some ([], .oneWay, cs)
  | c :: cs => (nextStart cs).map fun r => (c :: r.1, r.2)
  | [] => none

structure Cut where
  before : List Char
  mode : Mode
  inside : List Char
  after : List Char

/-- The last token of `seen ++ rest`, if all tokens in `rest`, at most `most`, have their end;
`last` is the one found in `seen`. -/
def lastCut (last : Option Cut) (seen : List Char) : (most : Nat) → (rest : List Char) → Option Cut
  | 0, _ => last
  | most + 1, rest =>
    match nextStart rest with
    | none => last
    | some (before, mode, rest) => do
      let (inside, after) ← Text.cutAtText (close mode) rest
      let cut : Cut := { before := seen ++ before, mode := mode, inside := inside, after := after }
      lastCut (some cut) (cut.before ++ start mode ++ inside ++ close mode) most after

def hasStart (text : String) : Bool := (nextStart text.toList).isSome

def read? (text : String) : Option Token := do
  let cs := text.toList
  let cut ← lastCut none [] cs.length cs
  let expression := Text.trim cut.inside
  let source ← Source.read? expression
  return {
    expression := String.ofList expression
    source := source
    mode := cut.mode
    before := String.ofList cut.before
    after := String.ofList cut.after }

def event? (name : String) : Option String :=
  match name.toList with
  | '(' :: cs =>
    if cs.getLast? = some ')' ∧ cs.length ≠ 1 then some (String.ofList cs.dropLast) else none
  | _ => none

def handler (text : String) : String :=
  String.ofList (Text.trim ((Text.trim text.toList).takeWhile (· ≠ '(')))

end Token
end LiveTree
