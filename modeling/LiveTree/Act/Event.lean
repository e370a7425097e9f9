import LiveTree.Act.Report

/-!
Events: listeners and how events reach them, and the methods that listeners, bindings, validators
and observers call. A call from outside is checked against the stage of the component and against
the signature of the method.
-/
namespace LiveTree.Act
variable {κ : Type}

def listen (x : NodeId) (event : String) (l : Listener κ) : Act κ ListenerId := do
  let s ← scene
  let id : ListenerId := { index := s.listeners.size }
  update fun s => { s.edit (·.addListener x event id) with listeners := s.listeners.push (some l) }
  return id

def unlisten (x : NodeId) (event : String) (l : ListenerId) : Act κ Bool := do
  let s ← scene
  update fun s => { s.edit (·.removeListener x event l) with
    listeners := s.listeners.modify l.index fun _ => none }
  return (s.listeners.get? l.index).join.isSome

def unlistenAll (ls : List (NodeId × String × ListenerId)) : Act κ Unit :=
  each ls fun l => do
    let _ ← unlisten l.1 l.2.1 l.2.2

def invoke (id : ComponentId) (name : String) (arguments : List Value) :
    Act κ (Except Failure Value) := do
  let s ← scene
  match (s.component? id).bind fun c => c.definition.method? name with
  | some (.custom k) => ask (.callback k (.method id arguments))
  | some (.service service) => ask (.service service id arguments)
  | none => return .error (.other s!"unknown method '{name}'")

def notify (id : ComponentId) (name : String) (arguments : List Value) : Act κ Unit := do
  match ← invoke id name arguments with
  | .ok _ => return ()
  | .error failure => noteFailure id name failure

def dispatch (x : NodeId) (e : Event) : Act κ Unit := ask (.deliver x { e with target := x })

def refuseCall (id : ComponentId) (fault : Fault) : Act κ (Except Fault Value) := do
  return (← report (some id) fault).map fun _ => .undefined

def callChecked (id : ComponentId) (name : String) (signature : Option Signature)
    (arguments : List Value) : Act κ (Except Fault Value) := do
  match ← invoke id name arguments with
  | .error failure =>
    noteFailure id name failure
    return .ok .undefined
  | .ok v =>
    match signature.elim (.ok ()) fun s => s.checkResult name v with
    | .error fault => return (← report (some id) fault).map fun _ => v
    | .ok () => return .ok v

def callMethod (id : ComponentId) (name : String) (arguments : List Value) :
    Act κ (Except Fault Value) :=
  withComponent id (.ok .undefined) fun c =>
    if (c.definition.method? name).isNone then refuseCall id (.unknownMethod c.tag name)
    else if !c.isReady then refuseCall id .notAttached
    else
      let signature := c.definition.signatures.get? name
      match signature.elim (.ok ()) fun s => s.checkArguments name arguments with
      | .error fault => refuseCall id fault
      | .ok () => callChecked id name signature arguments

end LiveTree.Act
