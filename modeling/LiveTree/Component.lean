import LiveTree.Binding.Tree
import LiveTree.Component.Definition
import LiveTree.Context
import LiveTree.Slot
import LiveTree.Stage

/-!
Components: the live occurrences of component types, each at a host node.
-/
namespace LiveTree

structure Part (κ : Type) where
  capability : Capability κ
  created : Bool := false
  ready : Bool := false
  attached : Bool := false
  detached : Bool := false

inductive Moment
  | created
  | ready
  | attached
  | detached
  deriving DecidableEq, Repr

namespace Part
variable {κ : Type}

def mark (p : Part κ) : Moment → Part κ
  | .created => { p with created := true }
  | .ready => { p with ready := true }
  | .attached => { p with attached := true, detached := false }
  | .detached => { p with attached := false, detached := true }

end Part

def Moment.hook? {κ : Type} (m : Moment) (c : Capability κ) : Option κ :=
  match m with
  | .created => c.created
  | .ready => c.ready
  | .attached => c.attached
  | .detached => c.detached

structure Watcher (κ : Type) where
  properties : List String
  callback : κ

structure Component (κ : Type) where
  definition : Definition κ
  node : NodeId
  owner : Option ComponentId
  slots : Slots
  parts : List (Part κ)
  stage : Stage := .unattached
  bindings : Option BindingTree := none
  refs : Keyed NodeId := []
  content : Option NodeId := none
  /-- Text from outside the template that waits to be written to a bound property. -/
  lightText : String := ""
  /-- The components owned that lie outside the host node. -/
  strays : List ComponentId := []
  barrier : Barrier := {}
  completed : Bool := false
  waiters : List ComponentId := []
  whenReady : List κ := []
  wired : List (NodeId × String × ListenerId) := []
  watcher : Option (Watcher κ) := none
  bindingsReady : Bool := false
  boundProperties : List String := []
  /-- Set while change handlers run; writes made by them tell no handlers. -/
  changing : Bool := false
  link : Option Link := none
  /-- Set while a property is written back to the context. -/
  writingBack : Bool := false

namespace Component
variable {κ : Type}

def new (definition : Definition κ) (node : NodeId) (owner : Option ComponentId) : Component κ where
  definition := definition
  node := node
  owner := owner
  slots := .ofSchema definition.schema
  parts := definition.capabilities.map fun c => { capability := c }

def tag (c : Component κ) : String := c.definition.tag

def schema (c : Component κ) : Schema := c.definition.schema

def isReady (c : Component κ) : Bool := c.stage.isReady

def property (c : Component κ) (name : String) : Value := (c.slots.value? name).getD .undefined

def modifySlot (c : Component κ) (name : String) (f : Slot → Slot) : Component κ :=
  { c with slots := Keyed.modify c.slots name f }

def modifyBindings (c : Component κ) (f : BindingTree → BindingTree) : Component κ :=
  { c with bindings := c.bindings.map f }

def binding? (c : Component κ) (site : Nat) (target : String) : Option Binding :=
  c.bindings.bind (·.binding? site target)

def site? (c : Component κ) (stableId : String) : Option Nat := do
  let t ← c.bindings
  t.byStableId? stableId <|> (c.refs.get? stableId).bind t.byNode?

def follow (c : Component κ) (path : String) : Value :=
  match headAndRest path with
  | (root, none) => c.property root
  | (root, some rest) => ((c.property root).get? rest).getD .undefined

def adopt (c : Component κ) (definition : Definition κ) (added : Capability κ) : Component κ :=
  { c with
    definition := definition
    slots := c.slots.fill definition.schema
    parts := c.parts ++ [{ capability := added }] }

end Component
end LiveTree
