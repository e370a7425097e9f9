import LiveTree.Act.Feed

/-!
Writes. Whatever changes a property goes through `Act.write`: a slot that is busy discards the write;
then come the checks, the commit, the attribute, and, for a component that is settled, the handlers,
the news of the change, the bindings that read the property and the data context.
-/
namespace LiveTree.Act
variable {κ : Type}

def refuse (id : ComponentId) (fault : Fault) : Act κ (Except Fault Bool) := do
  return (← report (some id) fault).map fun _ => false

def validated (id : ComponentId) (p : Property) (old v : Value) : Act κ Value := do
  match p.validator with
  | none => return v
  | some method =>
    match ← invoke id method [old, v] with
    | .ok result => return if result.isUndefined then v else result
    | .error failure =>
      noteFailure id method failure
      return v

def reflect (x : NodeId) (p : Property) (v : Value) : Act κ Unit :=
  edit fun d =>
    match Codec.write p.kind p.nullable v with
    | some text => d.setAttribute x p.attributeName text
    | none => d.removeAttribute x p.attributeName

def tellOfChange (id : ComponentId) (p : Property) (old new : Value) : Act κ Unit :=
  withComponent id () fun c => do
    let change : Occasion := .change id p.name old new
    modify id fun c => { c with changing := true }
    match c.definition.hooks.changed with
    | some k => guarded id "property_changed" k change
    | none => pure ()
    match p.observer with
    | some method => notify id method [old, new]
    | none => pure ()
    match c.watcher.filter fun w => w.properties.contains p.name with
    | some w => do
      let _ ← callback w.callback change
    | none => pure ()
    modify id fun d => { d with changing := c.changing }

def announce (x : NodeId) (p : Property) (old new : Value) : Act κ Unit := do
  let s ← scene
  if s.config.changeEvents then dispatch x (.changed p.attributeName x old new)

/-- Takes a committed change further: to the attribute and, if the component is settled, to whoever
is to be told. Who that is is decided by the component and the slot as they were at the commit. -/
def spread (id : ComponentId) (p : Property) (c : Component κ) (slot : Slot) (old v : Value)
    (origin : Origin) : Act κ Unit := do
  let bound := c.boundProperties.contains p.name
  if origin ≠ .markup ∧ p.reflect then reflect c.node p v
  let s ← scene
  if s.isSettled id then
    if origin ≠ .quiet ∧ !c.changing then tellOfChange id p old v
    if p.notify || slot.notify || bound then announce c.node p old v
    if bound then pushBound id (some p.name)
    if origin ≠ .context then writeBackProperty id p.name

def commit (id : ComponentId) (p : Property) (old v : Value) (origin : Origin) :
    Act κ (Except Fault Bool) :=
  withComponent id (.ok false) fun c => do
    match Keyed.get? c.slots p.name with
    | none => return .ok false
    | some slot =>
      modify id fun c => c.modifySlot p.name fun slot => { slot with value := v }
      spread id p c slot old v origin
      return .ok true

def attempt (id : ComponentId) (p : Property) (v : Value) (origin : Origin) :
    Act κ (Except Fault Bool) := do
  if p.readOnly ∧ origin ≠ .internal then return .ok false
  match p.checkAllowed v with
  | .error fault => refuse id fault
  | .ok () =>
    let s ← scene
    let old := s.property id p.name
    let v ← validated id p old v
    if old.same v then return .ok false
    match p.checkKind v with
    | .error fault => refuse id fault
    | .ok () => commit id p old v origin

def write (id : ComponentId) (property : String) (v : Value) (origin : Origin) :
    Act κ (Except Fault Bool) :=
  withComponent id (.ok false) fun c => do
    match c.schema.get? property, Keyed.get? c.slots property with
    | some p, some slot =>
      if slot.busy then return .ok false
      modify id fun c => c.modifySlot property fun slot => { slot with busy := true }
      let result ← attempt id p v origin
      modify id fun c => c.modifySlot property fun slot => { slot with busy := false }
      return result
    | _, _ => return .ok false

/-- Takes a changed or removed attribute of a host node to its property. Before the component is
configured, and for text that holds a binding, nothing happens. -/
def attributeChanged (id : ComponentId) (attr : String) (text : Option String) :
    Act κ (Except Fault Unit) :=
  withComponent id (.ok ()) fun c => do
    if !c.stage.isConfigured || text.any Token.hasStart then return .ok ()
    let s ← scene
    match c.schema.byAttribute? attr with
    | none => return .ok ()
    | some p =>
      let v := s.codec.read p.kind p.nullable text
      if v.isUndefined then return .ok ()
      return (← ask (.write id p.name v .markup)).map fun _ => ()

def setAttribute (x : NodeId) (attr text : String) : Act κ (Except Fault Unit) := do
  edit (·.setAttribute x attr text)
  let s ← scene
  match s.componentAt? x with
  | some id => attributeChanged id attr (some text)
  | none => return .ok ()

def removeAttribute (x : NodeId) (attr : String) : Act κ (Except Fault Unit) := do
  let s ← scene
  edit (·.removeAttribute x attr)
  match (s.componentAt? x).filter fun _ => s.document.hasAttribute x attr with
  | some id => attributeChanged id attr none
  | none => return .ok ()

end LiveTree.Act
