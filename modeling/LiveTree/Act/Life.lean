import LiveTree.Act.Expand

/-!
The life of a component. Its first connection decodes the attributes of the host node, expands the
template and waits for the components nested in it; when the last hold is dropped it is completed.
From then on it is attached and detached as its node moves. A component waits for all that lie
below its host node, so that readiness goes from the bottom up.
-/
namespace LiveTree.Act
variable {κ : Type}

/-- Takes an attribute of the host node into its property, at the first connection. The text
`false` turns a boolean attribute into an empty one, which is on. -/
def configureAttribute (id : ComponentId) (x : NodeId) (schema : Schema) (attr : String) :
    Act κ Unit := do
  let s ← scene
  match schema.byAttribute? attr, s.document.attribute? x attr with
  | some p, some text =>
    if Token.hasStart text then return ()
    let blank := p.kind == .boolean && text == "false"
    if blank then edit (·.setAttribute x attr "")
    let v := s.codec.read p.kind p.nullable (some (if blank then "" else text))
    if !v.isUndefined then
      let _ ← ask (.write id p.name v .markup)
  | _, _ => return ()

def reflectDefault (id : ComponentId) (x : NodeId) (p : Property) : Act κ Unit := do
  let s ← scene
  if p.reflect && p.reflectDefault && !s.document.hasAttribute x p.attributeName then
    reflect x p (s.property id p.name)

def configure (id : ComponentId) : Act κ Unit :=
  withComponent id () fun c => do
    if c.stage = .created then
      let s ← scene
      each (s.document.attributeNames c.node) (configureAttribute id c.node c.schema)
      setStage id .configured
      each c.schema.toList (reflectDefault id c.node)
      resolveContext id

def await (id child : ComponentId) : Act κ Unit :=
  withComponent child () fun c => do
    if !c.waiters.contains id then
      modify child fun c => { c with waiters := c.waiters ++ [id] }
      modify id fun c => { c with barrier := c.barrier.hold }

def awaitNested (id : ComponentId) (x : NodeId) : Act κ Unit := do
  let s ← scene
  let nested := (s.componentsIn x).filter fun child =>
    child ≠ id && (s.component? child).any fun c => !c.completed
  each nested (await id)
  each nested fun child => ask (.connect child)

def applyTemplate (id : ComponentId) : Act κ Unit :=
  withComponent id () fun c => do
    if c.stage = .configured then
      let s ← scene
      let light := s.document.children c.node
      let template ← expand id c light
      let (layout, tree) ← layOut c.node (template.getD [])
      let text ← if template.isSome then placeLight light layout.content tree else pure ""
      modify id fun c => { c with
        stage := .expanded
        bindings := some tree
        boundProperties := tree.dependencies
        refs := layout.refs
        content := some layout.content
        lightText := text
        barrier := c.barrier.hold }
      awaitNested id c.node
      ask (.release id)

def subscriptionsOf (c : Component κ) : List (NodeId × String × String) :=
  let own := c.definition.subscriptions.filterMap fun l =>
    let x := match l.target with
      | none => some c.node
      | some stableId => c.refs.get? stableId
    x.map fun x => (x, l.event, l.handler)
  let sites := (c.bindings.map BindingTree.toList).getD []
  own ++ sites.flatMap fun (_, site) => site.handlers.map fun h => (site.node, h.1, h.2)

def wireEach (id : ComponentId) :
    List (NodeId × String × String) → Act κ (List (NodeId × String × ListenerId))
  | [] => return []
  | (x, event, method) :: rest => do
    let l ← listen x event (.handler id method)
    return (x, event, l) :: (← wireEach id rest)

def wire (id : ComponentId) : Act κ Unit :=
  withComponent id () fun c => do
    if c.wired.isEmpty then
      let wired ← wireEach id (subscriptionsOf c)
      modify id fun c => { c with wired := wired }

def unwire (id : ComponentId) : Act κ Unit :=
  withComponent id () fun c => do
    modify id fun c => { c with wired := [] }
    unlistenAll c.wired

def noteMissing (id : ComponentId) (d : Definition κ) : Act κ Unit :=
  match d.requires.filter fun name => !d.has name with
  | [] => return ()
  | missing => note (some id) (.missingModules d.tag (", ".intercalate missing))

def pushOwner (owner : ComponentId) : Act κ Unit :=
  withComponent owner () fun c => do
    if !c.bindingsReady then pushFirst owner

def enter (id : ComponentId) : Act κ Unit := do
  setStage id .attached
  tellParts id .attached
  runHook id "attached" Hooks.attached
  wire id

def tellWaiting (id : ComponentId) : Act κ Unit := do
  withComponent id () fun c => do
    modify id fun c => { c with whenReady := [] }
    each c.whenReady fun k => guarded id "when_ready" k (.hook id)
  withComponent id () fun c => do
    modify id fun c => { c with waiters := [] }
    each c.waiters fun waiter => ask (.release waiter)

/-- Makes a component ready. The bindings of its owners come first, from the outermost inwards, so
that it starts with the values that they give it. -/
def complete (id : ComponentId) : Act κ Unit :=
  withComponent id () fun c => do
    if !c.completed && c.stage == .expanded then
      let s ← scene
      noteMissing id c.definition
      each (s.owners id).reverse pushOwner
      pushFirst id
      setStage id .ready
      tellParts id .ready
      runHook id "ready" Hooks.ready
      enter id
      modify id fun c => { c with completed := true }
      runHook id "completed" Hooks.completed
      tellWaiting id

def hold (id : ComponentId) : Act κ Unit :=
  modify id fun c => if c.completed then c else { c with barrier := c.barrier.hold }

def release (id : ComponentId) : Act κ Unit :=
  withComponent id () fun c => do
    modify id fun c => { c with barrier := c.barrier.drop }
    if c.barrier.clearsOnDrop && c.stage == .expanded then complete id

def whenReady (id : ComponentId) (k : κ) : Act κ Unit :=
  withComponent id () fun c => do
    if c.completed then guarded id "when_ready" k (.hook id)
    else modify id fun c => { c with whenReady := c.whenReady ++ [k] }

def attach (id : ComponentId) : Act κ Unit :=
  withComponent id () fun c => do
    enter id
    let s ← scene
    match c.owner with
    | some owner =>
      if (s.component? owner).any fun o => s.document.isWithin c.node o.node then
        modify owner fun o => { o with strays := o.strays.filter (· ≠ id) }
    | none => return ()

def detach (id : ComponentId) : Act κ Unit :=
  withComponent id () fun c => do
    if c.stage = .attached then
      unwire id
      setStage id .detached
      tellParts id .detached
      runHook id "detached" Hooks.detached
    update fun s => { s with pending := s.pending.filter (· ≠ id) }
    let s ← scene
    match c.owner with
    | some owner =>
      if (s.component? owner).any fun o => !s.document.isWithin c.node o.node then
        modify owner fun o =>
          if o.strays.contains id then o else { o with strays := o.strays ++ [id] }
    | none => return ()

def connect (id : ComponentId) : Act κ Unit :=
  withComponent id () fun c => do
    match c.stage with
    | .created =>
      let s ← scene
      if s.loading then
        update fun s =>
          { s with pending := if s.pending.contains id then s.pending else s.pending ++ [id] }
      else
        configure id
        applyTemplate id
    | .detached => attach id
    | _ => return ()

def appendChild (parent child : NodeId) : Act κ Unit := do
  let before ← scene
  edit (·.appendChild parent child)
  let s ← scene
  if s.document.parent? child = some parent then
    let inside := s.componentsIn child
    if before.document.isConnected child then each inside detach
    let s ← scene
    if s.document.isConnected child then each inside connect

def removeChild (parent child : NodeId) : Act κ Bool := do
  let before ← scene
  match before.document.removeChild? parent child with
  | none => return false
  | some d => do
    edit fun _ => d
    if before.document.isConnected child then
      let s ← scene
      each (s.componentsIn child) detach
    return true

def beginLoading : Act κ Unit := update fun s => { s with loading := true }

def byDepth (s : Scene κ) (ids : List ComponentId) : List ComponentId :=
  let depth (id : ComponentId) := ((s.component? id).map fun c => s.document.depth c.node).getD 0
  ids.mergeSort fun a b => depth a ≤ depth b

def finishLoading : Act κ Unit := do
  let s ← scene
  if s.loading then
    update fun s => { s with loading := false, pending := [] }
    each (byDepth s s.pending) fun id =>
      withComponent id () fun c => do
        let s ← scene
        if s.document.isConnected c.node then connect id
    resolveWaiting

end LiveTree.Act
