import LiveTree.Binding

/-!
Binding trees: for the host node and each node of an expanded template one site, with the bindings
and event handlers found there. The sites stand in document order, each before those below it, and
are known by their place in this order.
-/
namespace LiveTree

structure Site where
  node : NodeId
  stableId : Option String := none
  parent : Option Nat := none
  bindings : Keyed Binding := []
  handlers : List (String × String) := []

structure BindingTree where
  sites : Arena Site

namespace BindingTree

def ofHost (host : NodeId) : BindingTree := { sites := { cells := #[{ node := host }] } }

def size (t : BindingTree) : Nat := t.sites.size

def site? (t : BindingTree) (i : Nat) : Option Site := t.sites.get? i

def toList (t : BindingTree) : List (Nat × Site) :=
  t.sites.toList.zipIdx.map fun x => (x.2, x.1)

def binding? (t : BindingTree) (i : Nat) (target : String) : Option Binding :=
  (t.site? i).bind fun site => site.bindings.get? target

def modifySite (t : BindingTree) (i : Nat) (f : Site → Site) : BindingTree :=
  { sites := t.sites.modify i f }

def modify (t : BindingTree) (i : Nat) (target : String) (f : Binding → Binding) : BindingTree :=
  t.modifySite i fun site => { site with bindings := site.bindings.modify target f }

def insert (t : BindingTree) (i : Nat) (b : Binding) : BindingTree :=
  t.modifySite i fun site => { site with bindings := site.bindings.insert b.target b }

def erase (t : BindingTree) (i : Nat) (target : String) : BindingTree :=
  t.modifySite i fun site => { site with bindings := site.bindings.erase target }

def find? (t : BindingTree) (p : Site → Bool) : Option Nat :=
  (t.toList.find? fun x => p x.2).map (·.1)

def byStableId? (t : BindingTree) (stableId : String) : Option Nat :=
  t.find? fun site => site.stableId = some stableId

def byNode? (t : BindingTree) (x : NodeId) : Option Nat := t.find? fun site => site.node = x

def children (t : BindingTree) (i : Nat) : List Nat :=
  (t.toList.filter fun x => x.2.parent = some i).map (·.1)

def bindings (t : BindingTree) : List (Nat × Binding) :=
  t.toList.flatMap fun x => x.2.bindings.entries.map fun b => (x.1, b)

def dependencies (t : BindingTree) : List String :=
  (t.bindings.flatMap fun x => x.2.dependencies).eraseDups

def add (t : BindingTree) (parent : Nat) (site : Site) : Nat × BindingTree :=
  (t.size, { sites := t.sites.push { site with parent := some parent } })

structure Surroundings where
  document : Document
  stableId : String
  host : Option Schema
  schemaAt : NodeId → Option Schema

namespace Surroundings

def bind (s : Surroundings) (target : String) (token : Token) : Binding :=
  .ofToken target token (s.host.bind fun schema => Binding.sourceProperty? schema token.source)

def target (s : Surroundings) (x : NodeId) (attr : String) : String :=
  match (s.schemaAt x).bind (·.byAttribute? attr) with
  | some p => p.name
  | none => propertyOf attr

def addAttribute (s : Surroundings) (site : Site) (attr : String) : Site :=
  if attr = s.stableId then site
  else
    let text := (s.document.attribute? site.node attr).getD ""
    match Token.event? attr with
    | some event => { site with handlers := site.handlers ++ [(event, Token.handler text)] }
    | none =>
      match Token.read? text with
      | some token =>
        let target := s.target site.node attr
        { site with bindings := site.bindings.insert target (s.bind target token) }
      | none => site

def site? (s : Surroundings) (x : NodeId) : Option Site :=
  let site : Site := { node := x, stableId := s.document.attribute? x s.stableId }
  match s.document.content? x with
  | some (.text text) =>
    match Token.read? text with
    | some token => some { site with bindings := [(textTarget, s.bind textTarget token)] }
    | none => some site
  | some (.element _) => some ((s.document.attributeNames x).foldl s.addAttribute site)
  | none => none

def grow (s : Surroundings) : (most : Nat) → (parent : Nat) → BindingTree → NodeId → BindingTree
  | 0, _, t, _ => t
  | most + 1, parent, t, x =>
    match s.site? x with
    | some site =>
      let (i, t) := t.add parent site
      if s.document.isElement x then (s.document.children x).foldl (s.grow most i) t else t
    | none => t

end Surroundings

def ofTemplate (s : Surroundings) (host : NodeId) (template : List NodeId) : BindingTree :=
  template.foldl (s.grow (s.document.size + 1) 0) (ofHost host)

end BindingTree
end LiveTree
