import LiveTree.Act.Write

/-!
Delivery: what listeners do when an event reaches them, and what the methods of the standard
capabilities do.
-/
namespace LiveTree.Act
variable {κ : Type}

def hear (l : Listener κ) (e : Event) : Act κ Unit := do
  match l with
  | .consumer k => let _ ← callback k (.event e)
  | .handler id method => notify id method [e.detail]
  | .writeBack id site target => writeBack id site target e
  | .contextHandler context path =>
    let s ← scene
    match s.contextField context path with
    | .function f => let _ ← ask (.apply f [e.detail])
    | _ => return ()

/-- Runs the listeners of a node that are there when the event comes, but for those that are removed
before their turn. Then the event goes on to the parent, if it bubbles. -/
def deliver (x : NodeId) (e : Event) : Act κ Unit := do
  let e := { e with current := x }
  let s ← scene
  each (s.document.listeners x e.kind) fun id => do
    let s ← scene
    match (s.listeners.get? id.index).join with
    | some l => hear l e
    | none => return ()
  let s ← scene
  if e.bubbles then
    match s.document.parent? x with
    | some parent => ask (.deliver parent e)
    | none => return ()

def textArgument (arguments : List Value) (i : Nat) : String :=
  (arguments[i]?.map Value.display).getD ""

def withMessages (messages : Keyed Value) (locale : String) (added : Keyed Value) : Keyed Value :=
  match (messages.get? locale).getD (.object []) with
  | .object table =>
    let table := added.foldl (fun (acc : Keyed Value) m => acc.insert m.1 m.2) table
    messages.insert locale (.object table)
  | other => messages.insert locale other

def addMessages (id : ComponentId) (locale : String) (added : Keyed Value) :
    Act κ (Except Failure Value) := do
  let s ← scene
  let messages := (s.property id "messages").object?.getD []
  match ← ask (.write id "messages" (.object (withMessages messages locale added)) .code) with
  | .ok _ => return .ok .undefined
  | .error fault => return .error (.fault fault)

def service (s : Service) (id : ComponentId) (arguments : List Value) :
    Act κ (Except Failure Value) := do
  let text := textArgument arguments
  match s with
  | .log level => return (← log id level (text 0)).map fun _ => .undefined
  | .localize =>
    let named := ((arguments[1]?.bind Value.object?).getD []).map fun m => (m.1, m.2.display)
    return .ok (((← localize id (text 0) named).map Value.string).getD .undefined)
  | .addMessages =>
    match arguments[1]?.bind Value.object? with
    | some added => addMessages id (text 0) added
    | none => return .ok .undefined
  | .addBinding => return .ok (.bool (← addBinding id (text 0) (text 1) (text 2)))
  | .removeBinding => return .ok (.bool (← removeBinding id (text 0) (text 1) (text 2)))

end LiveTree.Act
