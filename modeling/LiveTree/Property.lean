import LiveTree.Fault
import LiveTree.Schema.Name
import LiveTree.Value.Kind
import LiveTree.Value.Text

/-!
Property declarations: what a component type says about one property, and the two checks that a
value has to pass for it.
-/
namespace LiveTree

structure Property where
  name : String
  attributeName : String
  /-- A property without a declared kind takes any value. -/
  kind? : Option Kind
  nullable : Bool := false
  default : Value := .undefined
  allowed : Option (List Value) := none
  /-- Whether the attribute follows the value. -/
  reflect : Bool := true
  reflectDefault : Bool := false
  readOnly : Bool := false
  notify : Bool := false
  /-- The method that checks writes and may replace the value. -/
  validator : Option String := none
  observer : Option String := none
  /-- Whether what is left open here is taken from the base type's property of that name. -/
  inherit : Bool := false

namespace Property

def ofKind (name : String) (kind : Kind) : Property :=
  { name := name, attributeName := attributeOf name, kind? := some kind, nullable := kind == .any }

def untyped (name : String) : Property := { ofKind name .any with kind? := none }

def declared (name declaration : String) : Property :=
  match Kind.declared? declaration with
  | some (kind, nullable) => { ofKind name kind with nullable := nullable || kind == .any }
  | none => untyped name

def kind (p : Property) : Kind := p.kind?.getD .any

def isAllowed (p : Property) (v : Value) : Bool :=
  match p.allowed with
  | some allowed => allowed.any (·.same v)
  | none => true

def checkAllowed (p : Property) (v : Value) : Except Fault Unit :=
  if p.isAllowed v then .ok ()
  else .error <| .valueNotAllowed p.name v.display <|
    ", ".intercalate ((p.allowed.getD []).map Value.display)

def checkKind (p : Property) (v : Value) : Except Fault Unit :=
  if p.kind.accepts p.nullable v then .ok ()
  else .error (.valueKind p.name v.typeName p.kind.name)

def fill (p base : Property) : Property :=
  { p with
    kind? := p.kind? <|> base.kind?
    nullable := if p.kind?.isNone then base.nullable else p.nullable
    default := if p.default.isUndefined then base.default else p.default
    allowed := p.allowed <|> base.allowed
    validator := p.validator <|> base.validator
    observer := p.observer <|> base.observer }

end Property
end LiveTree
