import LiveTree.Act.Push

/-!
Data contexts at work. The attributes of a host node name the fields that feed the properties of its
component, in the language of bindings. A write to a context is taken to every subscriber at once,
and a write to a property bound both ways goes back to the context.
-/
namespace LiveTree

def contextAttribute : String := "data-context"

namespace Act
variable {κ : Type}

def createContext (fields : Keyed Value) : Act κ ContextId := do
  let s ← scene
  update fun s => { s with contexts := s.contexts.push { fields := fields } }
  return { index := s.contexts.size }

def pushFeed (id : ComponentId) (context : ContextId) (f : Feed) : Act κ Unit := do
  let s ← scene
  let v := f.apply (s.contextField context f.path)
  if !v.isUndefined then
    let _ ← ask (.write id f.property v .context)

def routeChange (id : ComponentId) (context : ContextId) (root : String) : Act κ Unit :=
  withComponent id () fun c => do
    match c.link with
    | some (.bound _ feeds _) =>
      if !c.writingBack then each (feeds.filter fun f => f.root == root) (pushFeed id context)
    | _ => return ()

def setContextField (context : ContextId) (path : String) (v : Value) : Act κ Bool := do
  let s ← scene
  match (s.contextAt? context).bind fun c => c.set? path v with
  | none => return false
  | some c =>
    update fun s => { s with contexts := s.contexts.modify context.index fun _ => c }
    each c.subscribers fun id => routeChange id context (headAndRest path).1
    return true

def pushFeeds (id : ComponentId) : Act κ Unit :=
  withComponent id () fun c =>
    match c.link with
    | some (.bound context feeds _) => each feeds (pushFeed id context)
    | _ => done ()

def writeBackProperty (id : ComponentId) (property : String) : Act κ Unit :=
  withComponent id () fun c => do
    match c.link with
    | some (.bound context feeds _) =>
      match feeds.find? fun f => f.property == property && f.mode == .twoWay with
      | some f =>
        if !c.writingBack then
          modify id fun c => { c with writingBack := true }
          let _ ← setContextField context f.path (f.apply (c.property property))
          modify id fun c => { c with writingBack := false }
      | none => return ()
    | _ => return ()

def unbindContext (id : ComponentId) : Act κ Unit :=
  withComponent id () fun c => do
    modify id fun c => { c with link := none }
    match c.link with
    | some (.bound context _ listeners) =>
      unlistenAll listeners
      update fun s => { s with contexts := s.contexts.modify context.index fun c =>
        { c with subscribers := c.subscribers.filter (· ≠ id) } }
    | _ => return ()

def eventsOf (d : Document) (x : NodeId) : List (String × String) :=
  (d.attributeNames x).filterMap fun attr =>
    (Token.event? attr).map fun event => (event, Token.handler ((d.attribute? x attr).getD ""))

def feedsOf (d : Document) (x : NodeId) (schema : Schema) : List Feed :=
  (d.attributeNames x).filterMap fun attr => do
    guard (Token.event? attr).isNone
    let p ← schema.byAttribute? attr
    Feed.ofToken? p.name (← Token.read? ((d.attribute? x attr).getD ""))

def listenForContext (x : NodeId) (context : ContextId) :
    List (String × String) → Act κ (List (NodeId × String × ListenerId))
  | [] => return []
  | (event, path) :: rest => do
    let l ← listen x event (.contextHandler context path)
    return (x, event, l) :: (← listenForContext x context rest)

def bindContext (id : ComponentId) (context : ContextId) : Act κ Bool := do
  let s ← scene
  if (s.contextAt? context).isNone then return false
  withComponent id false fun c => do
    unbindContext id
    let s ← scene
    let listeners ← listenForContext c.node context (eventsOf s.document c.node)
    let feeds := feedsOf s.document c.node c.schema
    modify id fun c => { c with link := some (.bound context feeds listeners) }
    update fun s => { s with contexts := s.contexts.modify context.index fun c =>
      if c.subscribers.contains id then c else { c with subscribers := c.subscribers ++ [id] } }
    pushFeeds id
    return true

def resolveContext (id : ComponentId) : Act κ Unit := do
  let s ← scene
  match (s.component? id).bind fun c => s.document.attribute? c.node contextAttribute with
  | none => return ()
  | some name =>
    match s.namedContexts.get? name with
    | some context => let _ ← bindContext id context
    | none => modify id fun c => { c with link := some (.pending name) }

def waitingForContext (s : Scene κ) : List (ComponentId × String) :=
  s.componentIds.filterMap fun id =>
    (((s.component? id).bind Component.link).bind Link.pending?).map fun name => (id, name)

def registerContext (name : String) (context : ContextId) : Act κ Unit := do
  update fun s => { s with namedContexts := s.namedContexts.insert name context }
  let s ← scene
  each ((waitingForContext s).filter fun w => w.2 == name) fun w => do
    let _ ← bindContext w.1 context

def resolveWaiting : Act κ Unit := do
  let s ← scene
  each (waitingForContext s) fun w => do
    let s ← scene
    match s.namedContexts.get? w.2 with
    | some context => let _ ← bindContext w.1 context
    | none => return ()

def refresh (id : ComponentId) : Act κ Unit :=
  withComponent id () fun c => do
    if c.completed then
      pushTexts id
      pushBound id none
      pushFeeds id

end Act
end LiveTree
