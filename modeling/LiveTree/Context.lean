import LiveTree.Binding.Token
import LiveTree.Document

/-!
Data contexts: objects outside the tree whose fields feed properties of components.
-/
namespace LiveTree

structure ComponentId where
  index : Nat
  deriving DecidableEq, Repr

def ComponentId.uid (id : ComponentId) : Nat := id.index + 1

structure ContextId where
  index : Nat
  deriving DecidableEq, Repr

structure Context where
  fields : Keyed Value
  subscribers : List ComponentId := []

def headAndRest (path : String) : String × Option String :=
  match Text.cutAt '.' path.toList with
  | some (root, rest) => (String.ofList root, some (String.ofList rest))
  | none => (path, none)

namespace Context

def get? (c : Context) (path : String) : Option Value :=
  match headAndRest path with
  | (root, some rest) => (c.fields.get? root).bind (·.get? rest)
  | (root, none) => c.fields.get? root

def set? (c : Context) (path : String) (v : Value) : Option Context :=
  match headAndRest path with
  | (root, none) => some { c with fields := c.fields.insert root v }
  | (root, some rest) => do
    let field ← (← c.fields.get? root).set? rest v
    return { c with fields := c.fields.insert root field }

end Context

structure Feed where
  property : String
  path : String
  negate : Bool
  mode : Mode

namespace Feed

def root (f : Feed) : String := Source.rootName f.path

def apply (f : Feed) (v : Value) : Value := if f.negate then v.negated else v

def ofToken? (property : String) (t : Token) : Option Feed :=
  match t.source with
  | .property path negate =>
    some { property := property, path := path, negate := negate, mode := t.mode }
  | .channel path _ => some { property := property, path := path, negate := false, mode := t.mode }
  | .call .. => none

end Feed

inductive Link
  | pending (name : String)
  | bound (context : ContextId) (feeds : List Feed)
      (listeners : List (NodeId × String × ListenerId))

namespace Link

def context? : Link → Option ContextId
  | .pending _ => none
  | .bound context .. => some context

def pending? : Link → Option String
  | .pending name => some name
  | .bound .. => none

end Link
end LiveTree
