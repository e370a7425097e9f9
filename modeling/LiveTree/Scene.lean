import LiveTree.Catalog
import LiveTree.Codec
import LiveTree.Component
import LiveTree.Config

/-!
Scenes: the whole state of a live tree. The document, the component types that are registered, the
components at its nodes, listeners, data contexts, and what the operations have to remember.
-/
namespace LiveTree

inductive Listener (κ : Type)
  | consumer (k : κ)
  | handler (id : ComponentId) (method : String)
  | writeBack (id : ComponentId) (site : Nat) (target : String)
  | contextHandler (context : ContextId) (path : String)

structure Scene (κ : Type) where
  document : Document := .empty
  codec : Codec := {}
  config : Config := {}
  catalog : Catalog := .english
  /-- Where messages go; nowhere if there is none. -/
  journal : Option Journal := none
  definitions : Keyed (Definition κ) := []
  defaults : List (Capability κ) := Capability.standard
  waiting : Keyed (List κ) := []
  components : Arena (Component κ) := {}
  /-- The listeners; removed ones leave a gap. -/
  listeners : Arena (Option (Listener κ)) := {}
  contexts : Arena Context := {}
  namedContexts : Keyed ContextId := []
  /-- The component whose template is being expanded; it owns what is made meanwhile. -/
  templateOwner : Option ComponentId := none
  loading : Bool := false
  pending : List ComponentId := []

namespace Scene
variable {κ : Type}

def ofConfig (config : Config) (journal : Option Journal) : Scene κ where
  config := config
  catalog := { Catalog.english with locale := config.locale }
  journal := journal

def definition? (s : Scene κ) (tag : String) : Option (Definition κ) :=
  s.definitions.get? tag.toLower

def isRegistered (s : Scene κ) (tag : String) : Bool := (s.definition? tag).isSome

def component? (s : Scene κ) (id : ComponentId) : Option (Component κ) := s.components.get? id.index

def contextAt? (s : Scene κ) (id : ContextId) : Option Context := s.contexts.get? id.index

def componentAt? (s : Scene κ) (x : NodeId) : Option ComponentId :=
  (s.components.cells.findIdx? fun c => c.node = x).map ComponentId.mk

def componentIds (s : Scene κ) : List ComponentId :=
  (List.range s.components.size).map ComponentId.mk

def componentsWhere (s : Scene κ) (p : Component κ → Bool) : List ComponentId :=
  s.componentIds.filter fun id => (s.component? id).any p

def componentsIn (s : Scene κ) (x : NodeId) : List ComponentId :=
  (s.document.subtree x).filterMap s.componentAt?

def componentAbove? (s : Scene κ) (x : NodeId) : Option ComponentId :=
  (s.document.ancestors x).findSome? s.componentAt?

def schemaAt (s : Scene κ) (x : NodeId) : Option Schema :=
  ((s.componentAt? x).bind s.component?).map Component.schema

def property (s : Scene κ) (id : ComponentId) (name : String) : Value :=
  ((s.component? id).map fun c => c.property name).getD .undefined

def switch (s : Scene κ) (id : ComponentId) (name : String) (default : Bool) : Bool :=
  ((s.property id name).bool?).getD default

def contextField (s : Scene κ) (id : ContextId) (path : String) : Value :=
  ((s.contextAt? id).bind fun c => c.get? path).getD .undefined

def boundContext? (s : Scene κ) (id : ComponentId) : Option ContextId :=
  ((s.component? id).bind Component.link).bind Link.context?

def bindingValue? (s : Scene κ) (id : ComponentId) (stableId target : String) : Option Value := do
  let c ← s.component? id
  let b ← c.binding? (← c.site? stableId) target
  return b.value

def hasMethod (s : Scene κ) (id : ComponentId) (name : String) : Bool :=
  (s.component? id).any fun c => (c.definition.method? name).isSome

def isSettled (s : Scene κ) (id : ComponentId) : Bool :=
  (s.component? id).any fun c =>
    c.isReady && ((c.owner.bind s.component?).map Component.isReady).getD true

def ownersUpTo (s : Scene κ) : (most : Nat) → ComponentId → List ComponentId
  | 0, _ => []
  | most + 1, id =>
    match (s.component? id).bind Component.owner with
    | some owner => owner :: s.ownersUpTo most owner
    | none => []

def owners (s : Scene κ) (id : ComponentId) : List ComponentId :=
  s.ownersUpTo s.components.size id

def modify (s : Scene κ) (id : ComponentId) (f : Component κ → Component κ) : Scene κ :=
  { s with components := s.components.modify id.index f }

def edit (s : Scene κ) (f : Document → Document) : Scene κ := { s with document := f s.document }

def write (s : Scene κ) (level : Level) (message : String) : Scene κ :=
  { s with journal := s.journal.map fun j => j.add level message }

end Scene
end LiveTree
