import LiveTree.Act.Register

/-!
Requests: everything that can be asked of a live tree from outside, with the act that each of them
stands for. Consumer code changes the tree by these and in no other way. Left out is what a host can do on
the document itself, past the tree, beyond the edits below: to make nodes, and to add and remove listeners.
-/
namespace LiveTree

/-- Changes of the document that go past the components. -/
inductive Edit
  | setAttribute (x : NodeId) (name text : String)
  | removeAttribute (x : NodeId) (name : String)
  | setText (x : NodeId) (text : String)
  | setProperty (x : NodeId) (name : String) (v : Value)
  | appendChild (parent child : NodeId)
  | removeChild (parent child : NodeId)

def Edit.apply : Edit → Document → Document
  | .setAttribute x name text, d => d.setAttribute x name text
  | .removeAttribute x name, d => d.removeAttribute x name
  | .setText x text, d => d.setText x text
  | .setProperty x name v, d => d.setProperty x name v
  | .appendChild parent child, d => d.appendChild parent child
  | .removeChild parent child, d => (d.removeChild? parent child).getD d

inductive Request (κ : Type)
  -- Types
  | register (d : Definition κ)
  | whenRegistered (tag : String) (k : κ)
  | addCapability (tag : String) (c : Capability κ)
  | setDefaults (cs : List (Capability κ))
  -- The document
  | createElement (tag : String)
  | createText (text : String)
  | appendChild (parent child : NodeId)
  | removeChild (parent child : NodeId)
  | setAttribute (x : NodeId) (name text : String)
  | removeAttribute (x : NodeId) (name : String)
  | edit (e : Edit)
  | beginLoading
  | finishLoading
  -- Properties and methods
  | set (id : ComponentId) (property : String) (v : Value) (notify : Bool)
  | force (id : ComponentId) (property : String) (v : Value)
  | watch (id : ComponentId) (properties : List String) (k : κ)
  | unwatch (id : ComponentId)
  | call (id : ComponentId) (method : String) (arguments : List Value)
  -- Life
  | hold (id : ComponentId)
  | release (id : ComponentId)
  | whenReady (id : ComponentId) (k : κ)
  | refresh (id : ComponentId)
  -- Events
  | listen (x : NodeId) (event : String) (k : κ)
  | unlisten (x : NodeId) (event : String) (l : ListenerId)
  | dispatch (x : NodeId) (e : Event)
  -- Contexts
  | createContext (fields : Keyed Value)
  | registerContext (name : String) (context : ContextId)
  | setContextField (context : ContextId) (path : String) (v : Value)
  | bindContext (id : ComponentId) (context : ContextId)
  | unbindContext (id : ComponentId)
  -- Bindings
  | addBinding (id : ComponentId) (expression target stableId : String)
  | removeBinding (id : ComponentId) (expression target stableId : String)
  -- Messages and names
  | localize (id : ComponentId) (key : String) (arguments : List (String × String))
  | report (id : Option ComponentId) (fault : Fault)
  | log (id : ComponentId) (level : Level) (text : String)
  | setCatalog (c : Catalog)
  | addGlobal (name : String) (v : Value)

namespace Request
variable {κ : Type}

@[reducible] def Answer : Request κ → Type
  | .register _ | .addCapability .. | .removeChild .. | .unlisten .. | .setContextField ..
  | .bindContext .. | .addBinding .. | .removeBinding .. => Bool
  | .createElement _ | .createText _ => NodeId
  | .setAttribute .. | .removeAttribute .. | .report .. => Except Fault Unit
  | .set .. | .force .. => Except Fault Bool
  | .call .. => Except Fault Value
  | .listen .. => ListenerId
  | .createContext _ => ContextId
  | .localize .. => Option String
  | .log .. => Except Failure Unit
  | _ => Unit

def act : (r : Request κ) → Act κ r.Answer
  | .register d => Act.register d
  | .whenRegistered tag k => Act.whenRegistered tag k
  | .addCapability tag c => Act.addCapability tag c
  | .setDefaults cs => Act.update fun s => { s with defaults := cs }
  | .createElement tag => Act.createElement tag
  | .createText text => Act.createText text
  | .appendChild parent child => Act.appendChild parent child
  | .removeChild parent child => Act.removeChild parent child
  | .setAttribute x name text => Act.setAttribute x name text
  | .removeAttribute x name => Act.removeAttribute x name
  | .edit e => Act.edit e.apply
  | .beginLoading => Act.beginLoading
  | .finishLoading => Act.finishLoading
  | .set id property v notify => Act.ask (.write id property v (if notify then .code else .quiet))
  | .force id property v => Act.ask (.write id property v .internal)
  | .watch id properties k => Act.modify id fun c =>
      { c with watcher := some { properties := properties, callback := k } }
  | .unwatch id => Act.modify id fun c => { c with watcher := none }
  | .call id method arguments => Act.callMethod id method arguments
  | .hold id => Act.hold id
  | .release id => Act.ask (.release id)
  | .whenReady id k => Act.whenReady id k
  | .refresh id => Act.refresh id
  | .listen x event k => Act.listen x event (.consumer k)
  | .unlisten x event l => Act.unlisten x event l
  | .dispatch x e => Act.dispatch x e
  | .createContext fields => Act.createContext fields
  | .registerContext name context => Act.registerContext name context
  | .setContextField context path v => Act.setContextField context path v
  | .bindContext id context => Act.bindContext id context
  | .unbindContext id => Act.unbindContext id
  | .addBinding id expression target stableId => Act.addBinding id expression target stableId
  | .removeBinding id expression target stableId =>
    Act.removeBinding id expression target stableId
  | .localize id key arguments => Act.localize id key arguments
  | .report id fault => Act.report id fault
  | .log id level text => Act.log id level text
  | .setCatalog c => Act.update fun s => { s with catalog := c }
  | .addGlobal name v => Act.update fun s => { s with codec := s.codec.addGlobal name v }

end Request
end LiveTree
