import LiveTree.Arena
import LiveTree.Value

/-!
Documents: nodes with a parent and a list of children, attributes, live properties and listeners.
A node stays in the document for good, also while it hangs under no other; the root is its first
node. What is asked of a node that does not exist is answered with nothing.
-/
namespace LiveTree

structure NodeId where
  index : Nat
  deriving DecidableEq, Repr

structure ListenerId where
  index : Nat
  deriving DecidableEq, Repr

inductive Content
  | element (tag : String)
  | text (text : String)
  deriving DecidableEq, Repr

structure Node where
  content : Content
  parent : Option NodeId := none
  children : List NodeId := []
  attributes : Keyed String := []
  properties : Keyed Value := []
  listeners : List (String × ListenerId) := []

def Node.name (n : Node) : String :=
  match n.content with
  | .element tag => tag
  | .text _ => "#text"

structure Document where
  nodes : Arena Node

namespace Document

def empty : Document := { nodes := { cells := #[{ content := .element "#document" }] } }

def root : NodeId := { index := 0 }

def size (d : Document) : Nat := d.nodes.size

def isEmpty (d : Document) : Bool := d.size ≤ 1

def node? (d : Document) (x : NodeId) : Option Node := d.nodes.get? x.index

def contains (d : Document) (x : NodeId) : Bool := (d.node? x).isSome

def modify (d : Document) (x : NodeId) (f : Node → Node) : Document :=
  { nodes := d.nodes.modify x.index f }

def content? (d : Document) (x : NodeId) : Option Content := (d.node? x).map Node.content

def isElement (d : Document) (x : NodeId) : Bool :=
  match d.content? x with
  | some (.element _) => true
  | _ => false

def isText (d : Document) (x : NodeId) : Bool :=
  match d.content? x with
  | some (.text _) => true
  | _ => false

def tag? (d : Document) (x : NodeId) : Option String :=
  match d.content? x with
  | some (.element tag) => some tag
  | _ => none

def parent? (d : Document) (x : NodeId) : Option NodeId := (d.node? x).bind Node.parent

def children (d : Document) (x : NodeId) : List NodeId := ((d.node? x).map Node.children).getD []

def ancestorsUpTo (d : Document) : (most : Nat) → NodeId → List NodeId
  | 0, _ => []
  | most + 1, x =>
    match d.parent? x with
    | some p => p :: d.ancestorsUpTo most p
    | none => []

def ancestors (d : Document) (x : NodeId) : List NodeId := d.ancestorsUpTo d.size x

def isWithin (d : Document) (x y : NodeId) : Bool := x == y || (d.ancestors x).contains y

def isConnected (d : Document) (x : NodeId) : Bool := d.isWithin x root

def depth (d : Document) (x : NodeId) : Nat := (d.ancestors x).length

def path (d : Document) (x : NodeId) : NodeId × List Nat :=
  (d.ancestors x).foldl (fun (y, places) p => (p, (d.children p).idxOf y :: places)) (x, [])

def descendantsUpTo (d : Document) : (most : Nat) → NodeId → List NodeId
  | 0, _ => []
  | most + 1, x => (d.children x).flatMap fun c => c :: d.descendantsUpTo most c

def descendants (d : Document) (x : NodeId) : List NodeId := d.descendantsUpTo d.size x

def subtree (d : Document) (x : NodeId) : List NodeId := x :: d.descendants x

def textUpTo (d : Document) : (most : Nat) → NodeId → String
  | 0, _ => ""
  | most + 1, x =>
    match d.content? x with
    | some (.text text) => text
    | some (.element _) => String.join ((d.children x).map (d.textUpTo most))
    | none => ""

def text (d : Document) (x : NodeId) : String := d.textUpTo (d.size + 1) x

def add (d : Document) (content : Content) : NodeId × Document :=
  ({ index := d.size }, { nodes := d.nodes.push { content := content } })

def createElement (d : Document) (tag : String) : NodeId × Document := d.add (.element tag.toLower)

def createText (d : Document) (text : String) : NodeId × Document := d.add (.text text)

def detach (d : Document) (x : NodeId) : Document :=
  match d.parent? x with
  | some p =>
    (d.modify p fun n => { n with children := n.children.filter (· ≠ x) }).modify x fun n =>
      { n with parent := none }
  | none => d

/-- Puts a node last under another, away from its former parent. Nothing happens if one of them
does not exist or the new parent lies within the node. -/
def appendChild (d : Document) (parent child : NodeId) : Document :=
  if parent = child ∨ !d.contains parent ∨ !d.contains child ∨ d.isWithin parent child then d
  else
    ((d.detach child).modify child fun n => { n with parent := some parent }).modify parent
      fun n => { n with children := n.children ++ [child] }

def removeChild? (d : Document) (parent child : NodeId) : Option Document :=
  if d.parent? child = some parent then some (d.detach child) else none

def setText (d : Document) (x : NodeId) (text : String) : Document :=
  match d.content? x with
  | some (.text _) => d.modify x fun n => { n with content := .text text }
  | some (.element _) =>
    let d := (d.children x).foldl detach d
    let (t, d) := d.createText text
    d.appendChild x t
  | none => d

def attribute? (d : Document) (x : NodeId) (name : String) : Option String :=
  (d.node? x).bind (·.attributes.get? name)

def hasAttribute (d : Document) (x : NodeId) (name : String) : Bool := (d.attribute? x name).isSome

def attributeNames (d : Document) (x : NodeId) : List String :=
  ((d.node? x).map (·.attributes.names)).getD []

def setAttribute (d : Document) (x : NodeId) (name text : String) : Document :=
  d.modify x fun n => { n with attributes := n.attributes.insert name text }

def removeAttribute (d : Document) (x : NodeId) (name : String) : Document :=
  d.modify x fun n => { n with attributes := n.attributes.erase name }

def property? (d : Document) (x : NodeId) (name : String) : Option Value :=
  (d.node? x).bind (·.properties.get? name)

def setProperty (d : Document) (x : NodeId) (name : String) (v : Value) : Document :=
  d.modify x fun n => { n with properties := n.properties.insert name v }

def listeners (d : Document) (x : NodeId) (event : String) : List ListenerId :=
  match d.node? x with
  | some n => (n.listeners.filter fun l => l.1 == event).map (·.2)
  | none => []

def addListener (d : Document) (x : NodeId) (event : String) (listener : ListenerId) : Document :=
  d.modify x fun n => { n with listeners := n.listeners ++ [(event, listener)] }

def removeListener (d : Document) (x : NodeId) (event : String) (listener : ListenerId) :
    Document :=
  d.modify x fun n => { n with listeners := n.listeners.filter fun l => l ≠ (event, listener) }

def byId? (d : Document) (id : String) : Option NodeId :=
  (d.descendants root).find? fun x => d.attribute? x "id" = some id

def byTag (d : Document) (scope : NodeId) (tag : String) : List NodeId :=
  (d.descendants scope).filter fun x => (d.node? x).any fun n => n.name == tag.toLower

end Document
end LiveTree
