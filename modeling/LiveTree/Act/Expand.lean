import LiveTree.Act.Deliver
import LiveTree.Markup.Reader

/-!
Expansion: how components are made at nodes, and how a template comes to hang below its host node
with stable ids, a place for the children from outside, and bindings.
-/
namespace LiveTree

namespace Act
variable {κ : Type}

def setStage (id : ComponentId) (stage : Stage) : Act κ Unit :=
  modify id fun c => { c with stage := stage }

def tellParts (id : ComponentId) (m : Moment) : Act κ Unit :=
  withComponent id () fun c => do
    modify id fun c => { c with parts := c.parts.map (·.mark m) }
    each c.parts fun p =>
      match m.hook? p.capability with
      | some k => guarded id p.capability.name k (.capability id p.capability.name)
      | none => return ()

def runHook (id : ComponentId) (name : String) (pick : Hooks κ → Option κ) : Act κ Unit :=
  withComponent id () fun c =>
    match pick c.definition.hooks with
    | some k => guarded id name k (.hook id)
    | none => return ()

def instantiate (x : NodeId) (d : Definition κ) (owner : Option ComponentId) :
    Act κ ComponentId := do
  let s ← scene
  let id : ComponentId := { index := s.components.size }
  update fun s => { s with components := s.components.push (.new d x owner) }
  setStage id .created
  tellParts id .created
  runHook id "created" Hooks.created
  return id

def createText (text : String) : Act κ NodeId := do
  let s ← scene
  let (x, d) := s.document.createText text
  edit fun _ => d
  return x

def createElement (tag : String) : Act κ NodeId := do
  let s ← scene
  let (x, d) := s.document.createElement tag
  edit fun _ => d
  match s.definition? tag with
  | some definition => do
    let _ ← instantiate x definition s.templateOwner
  | none => pure ()
  return x

mutual
def grow : Markup → Act κ NodeId
  | .text text => createText text
  | .element tag attributes children => do
    let x ← createElement tag
    edit fun d => attributes.foldl (fun d a => d.setAttribute x a.1 a.2) d
    let _ ← growBelow x children
    return x

def growBelow (parent : NodeId) : List Markup → Act κ (List NodeId)
  | [] => return []
  | m :: rest => do
    let x ← grow m
    edit (·.appendChild parent x)
    return x :: (← growBelow parent rest)
end

def growTemplate (id : ComponentId) (x : NodeId) (template : List Markup) : Act κ (List NodeId) := do
  let s ← scene
  update fun s => { s with templateOwner := some id }
  let nodes ← growBelow x template
  update fun t => { t with templateOwner := s.templateOwner }
  return nodes

end Act

structure Layout where
  content : NodeId
  refs : Keyed NodeId

namespace Layout

/-- Where the children from outside go: into the place of the slot, else into the element that is
marked for it, else into the first element. -/
def contentOf (d : Document) (root : NodeId) (slot : Option NodeId) (elements : List NodeId) :
    NodeId :=
  let marked := elements.find? fun x => d.hasAttribute x "inner-h-t-m-l"
  ((slot.bind d.parent?) <|> marked).getD root

/-- The stable ids of elements: their ids, or numbers if no element has one. -/
def stableIds (d : Document) (elements : List NodeId) : List (NodeId × String) :=
  if elements.any (d.hasAttribute · "id") then
    elements.filterMap fun x => (d.attribute? x "id").map fun id => (x, id)
  else elements.zipIdx.map fun (x, i) => (x, s!"child{i}")

def ofTemplate (d : Document) (attr : String) (host : NodeId) (template : List NodeId) :
    Layout × Document :=
  let elements := (template.flatMap d.subtree).filter d.isElement
  let root := elements.head?.getD host
  let slot := elements.find? fun x => d.tag? x = some "content"
  let elements := elements.filter fun x => slot ≠ some x
  let content := contentOf d root slot elements
  let d := slot.elim d d.detach
  let stable := stableIds d elements
  let refs : Keyed NodeId := stable.foldl (fun acc r => acc.insert r.2 r.1) []
  ({ content := content, refs := (refs.insert "root" root).insert "content" content },
    stable.foldl (fun d r => d.setAttribute r.1 attr r.2) d)

end Layout

def BindingTree.takesText (t : BindingTree) (d : Document) (content : NodeId) : Bool :=
  t.toList.any fun (_, site) =>
    d.parent? site.node = some content &&
      (site.bindings.get? textTarget).any fun b => b.mode == .twoWay

def textOf (d : Document) (xs : List NodeId) : String :=
  String.ofList (Text.trim (String.join (xs.map d.text)).toList)

namespace Act
variable {κ : Type}

def expand (id : ComponentId) (c : Component κ) (light : List NodeId) :
    Act κ (Option (List NodeId)) := do
  match c.definition.template.map Markup.read with
  | none => return none
  | some (.error reason) =>
    note (some id) (.badTemplate c.tag reason)
    return none
  | some (.ok template) =>
    edit fun d => light.foldl (fun d x => (d.removeChild? c.node x).getD d) d
    return some (← growTemplate id c.node template)

def layOut (x : NodeId) (template : List NodeId) : Act κ (Layout × BindingTree) := do
  let s ← scene
  let (layout, d) := Layout.ofTemplate s.document s.config.stableId x template
  edit fun _ => d
  return (layout, .ofTemplate {
    document := d
    stableId := s.config.stableId
    host := s.schemaAt x
    schemaAt := s.schemaAt } x template)

def placeLight (light : List NodeId) (content : NodeId) (t : BindingTree) : Act κ String := do
  let s ← scene
  let d := s.document
  if !light.isEmpty && light.all d.isText && t.takesText d content then return textOf d light
  edit fun d => light.foldl (fun d x => d.appendChild content x) d
  return ""

end Act
end LiveTree
