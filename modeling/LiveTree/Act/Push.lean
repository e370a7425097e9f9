import LiveTree.Act.Event

/-!
Bindings at work. A push takes the value that a binding reads to its target; a write-back takes the
value of a target that is bound both ways to the property it came from. A binding through which a
value travels is marked, so that the value does not come back on the same way.
-/
namespace LiveTree

namespace Scene
variable {κ : Type}

def follow (s : Scene κ) (id : ComponentId) (path : String) : Value :=
  ((s.component? id).map fun c => c.follow path).getD .undefined

def declaring? (s : Scene κ) (x : NodeId) (name : String) : Option ComponentId :=
  (s.componentAt? x).filter fun id => (s.component? id).any fun c => c.schema.contains name

def targetValue (s : Scene κ) (x : NodeId) (target : String) : Value :=
  match s.declaring? x target with
  | some id => s.property id target
  | none =>
    let text := (s.document.attribute? x (attributeOf target)).map Value.string
    (s.document.property? x target <|> text).getD .undefined

def changeEvent? (s : Scene κ) (x : NodeId) (b : Binding) : Option String :=
  match b.source with
  | .channel _ event => some event
  | .property .. =>
    match (s.schemaAt x).bind (·.get? b.target) with
    | some p => some (p.attributeName ++ "-changed")
    | none => some (attributeOf b.target ++ "-changed")
  | .call .. => none

end Scene

def Binding.show (b : Binding) (x : NodeId) (v : Value) (d : Document) : Document :=
  let attr := attributeOf b.target
  let d := match if b.reflect then Codec.write (b.attributeKind v) b.nullable v else none with
    | some text => d.setAttribute x attr text
    | none => d.removeAttribute x attr
  d.setProperty x b.target v

def Component.rebound {κ : Type} (c : Component κ) : Component κ :=
  { c with boundProperties := (c.bindings.map BindingTree.dependencies).getD [] }

namespace Act
variable {κ : Type}

def modifyBinding (id : ComponentId) (site : Nat) (target : String) (f : Binding → Binding) :
    Act κ Unit :=
  modify id fun c => c.modifyBindings fun t => t.modify site target f

def evaluate (id : ComponentId) (source : Source) : Act κ Value := do
  let s ← scene
  match source with
  | .property path negate =>
    let v := s.follow id path
    return if negate then v.negated else v
  | .channel path _ => return s.follow id path
  | .call method arguments =>
    let values := arguments.map fun
      | .property path => s.follow id path
      | .literal v => v
    match ← invoke id method values with
    | .ok v => return v
    | .error _ => return .undefined

/-- Makes a two-way binding listen for changes of its target. Texts and targets with literal text
around the token are never written back. -/
def installWriteBack (id : ComponentId) (site : Nat) (x : NodeId) (b : Binding) : Act κ Unit := do
  let s ← scene
  match if b.target == textTarget || b.hasAffixes then none else s.changeEvent? x b with
  | none => return ()
  | some event =>
    match s.componentAt? x with
    | some child => modify child fun c =>
        c.modifySlot b.target fun slot => { slot with notify := true }
    | none => pure ()
    let l ← listen x event (.writeBack id site b.target)
    modifyBinding id site b.target fun b => { b with listener := some (x, event, l) }

def uninstallWriteBack (b : Binding) : Act κ Unit := unlistenAll b.listener.toList

def assign (x : NodeId) (b : Binding) (v : Value) : Act κ Unit := do
  let s ← scene
  if b.target = textTarget then edit (·.setText x v.display)
  else
    match s.declaring? x b.target with
    | some child => do
      let _ ← ask (.write child b.target v .code)
    | none => if s.document.isElement x then edit (b.show x v)

def push (id : ComponentId) (site : Nat) (target : String) : Act κ Unit := do
  let s ← scene
  let found := do
    let t ← (← s.component? id).bindings
    return ((← t.site? site).node, ← t.binding? site target)
  match found with
  | none => return ()
  | some (x, b) =>
    if b.updating || !s.document.contains x then return ()
    if !b.ready then
      if b.mode = .twoWay then installWriteBack id site x b
      modifyBinding id site target fun b => { b with ready := true }
    let v ← evaluate id b.source
    if v.isUndefined then return ()
    let shown := b.render v
    modifyBinding id site target fun b => { b with value := shown, updating := true }
    assign x b shown
    modifyBinding id site target fun b => { b with updating := false }

/-- Writes a value at a dotted path that starts at a property. What lies deeper replaces the
property by a changed copy; a path that meets something other than an object is not written. -/
def writePath (id : ComponentId) (path : String) (v : Value) : Act κ Unit := do
  match headAndRest path with
  | (root, none) => do
    let _ ← ask (.write id root v .code)
  | (root, some rest) =>
    let s ← scene
    match (s.property id root).set? rest v with
    | some object => do
      let _ ← ask (.write id root object .code)
    | none => return ()

def lightTarget? (d : Document) (content : Option NodeId) (texts : List (Site × Binding)) :
    Option String :=
  texts.findSome? fun (site, b) =>
    match b.source with
    | .property path false =>
      if b.mode = .twoWay ∧ d.parent? site.node = content then some path else none
    | _ => none

def pushTexts (id : ComponentId) : Act κ Unit :=
  withComponent id () fun c => do
    modify id fun c => { c with lightText := "" }
    let s ← scene
    let sites := (c.bindings.map BindingTree.toList).getD []
    let texts := sites.filterMap fun (i, site) =>
      (site.bindings.get? textTarget).map fun b => (i, site, b)
    match lightTarget? s.document c.content (texts.map (·.2)) with
    | some path => if !c.lightText.isEmpty then writePath id path (.string c.lightText)
    | none => pure ()
    each texts fun (i, _) => push id i textTarget

def pushBound (id : ComponentId) (changed : Option String) : Act κ Unit :=
  withComponent id () fun c => do
    let bindings := (c.bindings.map BindingTree.bindings).getD []
    if c.bindingsReady then
      each (bindings.filter fun x => changed.all x.2.dependsOn) fun (i, b) => push id i b.target

def pushFirst (id : ComponentId) : Act κ Unit := do
  modify id fun c => { c with bindingsReady := true }
  pushTexts id
  pushBound id none

def carryBack (id : ComponentId) (site : Nat) (target path : String) (v : Value) : Act κ Unit := do
  modifyBinding id site target fun b => { b with value := v, updating := true }
  writePath id path v
  modifyBinding id site target fun b => { b with updating := false }

def writeBack (id : ComponentId) (site : Nat) (target : String) (e : Event) : Act κ Unit := do
  let s ← scene
  match (s.component? id).bind fun c => c.binding? site target with
  | none => return ()
  | some b =>
    let news := (e.detail.member? "value").getD .undefined
    let (path, v) := match b.source with
      | .channel path _ => (path, s.targetValue e.current target)
      | .property path negate => (path, if negate then news.negated else news)
      | .call .. => ("", .undefined)
    if !b.updating && !v.isUndefined then carryBack id site target path v

def addBinding (id : ComponentId) (expression target stableId : String) : Act κ Bool := do
  let text := if Token.hasStart expression then expression else "[[" ++ expression ++ "]]"
  match Token.read? text with
  | none => return false
  | some token =>
    withComponent id false fun c =>
      match c.site? stableId with
      | none => return false
      | some site => do
        let p := Binding.sourceProperty? c.schema token.source
        modify id fun c =>
          (c.modifyBindings fun t => t.insert site (.ofToken target token p)).rebound
        each (c.binding? site target).toList uninstallWriteBack
        if c.bindingsReady then push id site target
        return true

/-- The expression that a text asks for: the one in its brackets, or the text itself. Nothing for
no text or for brackets that hold no expression. -/
def wantedExpression? (text : String) : Option String :=
  if text.isEmpty then none
  else if Token.hasStart text then (Token.read? text).map Token.expression
  else some (String.ofList (Text.trim text.toList))

def removeBinding (id : ComponentId) (expression target stableId : String) : Act κ Bool :=
  withComponent id false fun c =>
    match c.site? stableId with
    | none => return false
    | some site =>
      match c.binding? site target with
      | none => return false
      | some b => do
        if (wantedExpression? expression).all (· == b.expression) then
          modify id fun c => (c.modifyBindings fun t => t.erase site target).rebound
          uninstallWriteBack b
          return true
        else return false

end Act
end LiveTree
