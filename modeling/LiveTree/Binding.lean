import LiveTree.Binding.Token
import LiveTree.Document
import LiveTree.Schema

/-!
Bindings: a token together with the property of a node that it feeds, and what is known of the
property that it reads.
-/
namespace LiveTree

def textTarget : String := "textContent"

structure Binding where
  target : String
  expression : String
  source : Source
  mode : Mode
  kind : Kind
  declared : Bool
  nullable : Bool
  reflect : Bool
  before : String
  after : String
  ready : Bool := false
  /-- Set while a value travels through it, so that the value does not come back. -/
  updating : Bool := false
  value : Value := .undefined
  listener : Option (NodeId × String × ListenerId) := none

namespace Binding

def sourceProperty? (schema : Schema) : Source → Option Property
  | .property path _ | .channel path _ => schema.get? path
  | .call .. => none

/-- The binding of a target by a token. Kind, nullability and reflection are those of the property
it reads; a negated reading is always boolean. -/
def ofToken (target : String) (token : Token) (property : Option Property) : Binding :=
  { target := target
    expression := token.expression
    source := token.source
    mode := token.mode
    kind := if token.source.negates then .boolean else property.elim .string Property.kind
    declared := token.source.negates || property.isSome
    nullable := property.elim true Property.nullable
    reflect := property.elim true Property.reflect
    before := token.before
    after := token.after }

def hasAffixes (b : Binding) : Bool := !b.before.isEmpty || !b.after.isEmpty

def dependencies (b : Binding) : List String := b.source.dependencies

def dependsOn (b : Binding) (property : String) : Bool := b.dependencies.contains property

def render (b : Binding) (v : Value) : Value :=
  if b.hasAffixes then .string (b.before ++ v.display ++ b.after) else v

def attributeKind (b : Binding) (v : Value) : Kind :=
  if b.declared then b.kind
  else match v with
    | .bool _ => .boolean
    | .number _ => .number
    | .array _ => .array
    | .object _ => .object
    | _ => .string

end Binding
end LiveTree
