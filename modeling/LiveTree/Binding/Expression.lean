import LiveTree.Decimal.Literal
import LiveTree.Text.Letter
import LiveTree.Text.Search
import LiveTree.Value

/-!
Binding expressions: what stands inside the brackets of a binding. A property path, perhaps
negated; a path with the event after which it is written back; or a call of a method.
-/
namespace LiveTree

inductive Argument
  | property (path : String)
  | literal (v : Value)

inductive Source
  /-- A property path, whose truth is turned round if negated. -/
  | property (path : String) (negate : Bool)
  /-- A property path that is written back when the target fires the event. -/
  | channel (path event : String)
  | call (method : String) (arguments : List Argument)

namespace Source

def isNameStart (c : Char) : Bool := Text.isLetter c || c == '_' || c == '$'

def isNamePart (c : Char) : Bool := Text.isLetterOrNumeral c || c == '_' || c == '$'

def isPathPart (c : Char) : Bool := isNamePart c || c == '.'

def isEventPart (c : Char) : Bool := Text.isLetterOrNumeral c || c == '-' || c == '_'

def word? (first others : Char → Bool) : List Char → Option (List Char × List Char)
  | c :: cs => if first c then some (c :: cs.takeWhile others, cs.dropWhile others) else none
  | [] => none

def name? : List Char → Option (List Char × List Char) := word? isNameStart isNamePart

def path? : List Char → Option (List Char × List Char) := word? isNameStart isPathPart

def event? : List Char → Option (List Char × List Char) := word? isEventPart isEventPart

def quoted? : List Char → Option (List Char × List Char)
  | '\'' :: cs => Text.cutAt '\'' cs
  | '"' :: cs => Text.cutAt '"' cs
  | _ => none

def argument? (cs : List Char) : Option (Argument × List Char) :=
  match quoted? cs with
  | some (text, cs) => some (.literal (.string (String.ofList text)), cs)
  | none =>
    match path? cs with
    | some (path, cs) => some (.property (String.ofList path), cs)
    | none => (Decimal.literal? cs).map fun r => (.literal (.number r.1.toFloat), r.2)

def arguments? : (most : Nat) → List Char → Option (List Argument × List Char)
  | 0, _ => none
  | most + 1, cs => do
    let (arg, cs) ← argument? cs
    match Text.skipSpaces cs with
    | ',' :: cs => do
      let (args, cs) ← arguments? most (Text.skipSpaces cs)
      return (arg :: args, cs)
    | ')' :: cs => some ([arg], cs)
    | _ => none

def negated? : List Char → Option (Source × List Char)
  | '!' :: cs => (path? (Text.skipSpaces cs)).map fun r => (.property (String.ofList r.1) true, r.2)
  | _ => none

def withEvent? (cs : List Char) : Option (Source × List Char) := do
  let (path, cs) ← path? cs
  let cs ← Text.strip? "::".toList cs
  let (event, cs) ← event? cs
  return (.channel (String.ofList path) (String.ofList event), cs)

def call? (cs : List Char) : Option (Source × List Char) := do
  let (method, cs) ← name? cs
  match cs with
  | '(' :: cs =>
    match Text.skipSpaces cs with
    | ')' :: cs => some (.call (String.ofList method) [], cs)
    | cs => (arguments? cs.length cs).map fun r => (.call (String.ofList method) r.1, r.2)
  | _ => none

def plain? (cs : List Char) : Option (Source × List Char) :=
  (path? cs).map fun r => (.property (String.ofList r.1) false, r.2)

def read? (expression : List Char) : Option Source := do
  let (source, rest) ← negated? expression <|> withEvent? expression <|> call? expression <|>
    plain? expression
  guard rest.isEmpty
  return source

def negates : Source → Bool
  | .property _ negate => negate
  | _ => false

def rootName (path : String) : String := String.ofList (path.toList.takeWhile (· ≠ '.'))

def dependencies : Source → List String
  | .property path _ | .channel path _ => [rootName path]
  | .call _ arguments => arguments.filterMap fun
    | .property path => some (rootName path)
    | .literal _ => none

end Source
end LiveTree
