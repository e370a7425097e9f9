import LiveTree.Act.Life

/-!
Registration of component types. A type is composed with the default capabilities when it is
registered; nodes of its tag that are already in the document become components then.
-/
namespace LiveTree.Act
variable {κ : Type}

def upgrade (d : Definition κ) : List NodeId → Act κ (List ComponentId)
  | [] => return []
  | x :: rest => do
    let s ← scene
    let id ← instantiate x d (s.componentAbove? x)
    return id :: (← upgrade d rest)

def register (d : Definition κ) : Act κ Bool := do
  let s ← scene
  if s.isRegistered d.tag then return false
  let d := d.compose s.defaults
  each d.schema.problems (note none)
  update fun s => { s with
    definitions := s.definitions.insert d.tag d
    waiting := s.waiting.erase d.tag }
  each ((s.waiting.get? d.tag).getD []) fun k => do
    let _ ← callback k .registered
  let s ← scene
  let nodes := (s.document.descendants Document.root).filter fun x =>
    s.document.tag? x = some d.tag && (s.componentAt? x).isNone
  each (← upgrade d nodes) connect
  return true

def whenRegistered (tag : String) (k : κ) : Act κ Unit := do
  let s ← scene
  if s.isRegistered tag then
    let _ ← callback k .registered
  else
    let tag := tag.toLower
    update fun s => { s with
      waiting := s.waiting.insert tag ((s.waiting.get? tag).getD [] ++ [k]) }

def addCapability (tag : String) (c : Capability κ) : Act κ Bool := do
  let s ← scene
  match (s.definition? tag).bind (·.add? c) with
  | none => return false
  | some d => do
    update fun s => { s with definitions := s.definitions.insert d.tag d }
    each (s.componentsWhere fun i => i.tag == tag) fun id => modify id (·.adopt d c)
    return true

end LiveTree.Act
