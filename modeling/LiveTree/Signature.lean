import LiveTree.Fault
import LiveTree.Text.Letter
import LiveTree.Text.Search
import LiveTree.Value.Kind

/-!
Signatures of methods, written like `(a: number, b?: string): boolean`, and the checks of
arguments and results against them.
-/
namespace LiveTree

structure Parameter where
  name : String
  /-- The kinds that fit; none stands for all. -/
  kinds : List Kind
  optional : Bool
  deriving DecidableEq

structure Signature where
  parameters : List Parameter
  results : Option (List Kind)
  deriving DecidableEq

namespace Signature

def partName (part : List Char) : List Char :=
  ((Text.trim part).reverse.dropWhile (· = '?')).reverse

/-- The kinds in a union such as `number|string`. With `any` among them everything fits; what stands
behind it is not looked at. -/
def kinds? (parts : List (List Char)) : Option (List Kind) := do
  let names := (parts.map partName).takeWhile (· ≠ "any".toList)
  let kinds ← names.mapM fun name => Kind.named? (String.ofList name)
  return if names.length < parts.length then [] else kinds

def isUnionPart (c : Char) : Bool := Text.isWord c || c == '|' || c == '?' || Text.isBlank c

def union? (cs : List Char) : Option (List Char) :=
  let cs := Text.trim cs
  if !cs.isEmpty && cs.all isUnionPart then some cs else none

def parameter? (cs : List Char) : Option Parameter := do
  let cs := Text.trimStart cs
  let name := cs.takeWhile Text.isWord
  guard (name ≠ [])
  let cs := Text.trimStart (cs.dropWhile Text.isWord)
  let (optional, cs) := match cs with
    | '?' :: cs => (true, Text.trimStart cs)
    | cs => (false, cs)
  let kinds ← match cs with
    | [] => some []
    | ':' :: cs => do kinds? (Text.splitOn '|' (← union? cs))
    | _ => none
  return { name := String.ofList name, kinds := kinds, optional := optional }

/-- Results of `void` and `any` are not checked. -/
def results? (cs : List Char) : Option (Option (List Kind)) :=
  if cs = "void".toList ∨ cs = "any".toList then some none
  else (kinds? (Text.splitOn '|' cs)).map fun kinds => if kinds.isEmpty then none else some kinds

def read? (text : String) : Option Signature := do
  let (parameters, cs) ← match Text.trimStart text.toList with
    | '(' :: cs => Text.cutAt ')' cs
    | _ => none
  let parameters ←
    if (Text.trim parameters).isEmpty then some []
    else (Text.splitOn ',' (Text.trim parameters)).mapM parameter?
  let results ← match Text.trimStart cs with
    | [] => some none
    | ':' :: cs => do results? (← union? cs)
    | _ => none
  return { parameters := parameters, results := results }

def fits (kinds : List Kind) (v : Value) : Bool := kinds.isEmpty || kinds.any (·.accepts false v)

def label (kinds : List Kind) : String := "|".intercalate (kinds.map Kind.name)

def required (s : Signature) : Nat := (s.parameters.filter fun p => !p.optional).length

def mismatch? (method : String) : (index : Nat) → List Parameter → List Value → Option Fault
  | index, p :: ps, v :: vs =>
    if (p.optional && v.isUndefined) || fits p.kinds v then mismatch? method (index + 1) ps vs
    else some (.argumentKind method v.typeName (label p.kinds) index)
  | _, _, _ => none

def checkArguments (s : Signature) (method : String) (arguments : List Value) : Except Fault Unit :=
  if arguments.length < s.required then
    .error (.argumentCount method arguments.length s.required)
  else match mismatch? method 0 s.parameters arguments with
    | some fault => .error fault
    | none => .ok ()

def checkResult (s : Signature) (method : String) (v : Value) : Except Fault Unit :=
  match s.results with
  | some kinds =>
    if fits kinds v then .ok () else .error (.resultKind method v.typeName (label kinds))
  | none => .ok ()

end Signature
end LiveTree
