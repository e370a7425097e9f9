import LiveTree.Act.Register
import LiveTree.Proofs.Document.Operations

/-! Acts that are made of other acts. Most of what is said of acts goes over from parts to wholes;
what the acts are made of that write properties and that make, move and register nodes is said once
here, whatever it is that goes over. -/
namespace LiveTree
variable {κ α β : Type}

structure Act.Composes (P : ∀ {α : Type}, Act κ α → Prop) : Prop where
  pure : ∀ {α : Type} (a : α), P (Pure.pure a : Act κ α)
  scene : P (Act.scene : Act κ (Scene κ))
  bind : ∀ {α β : Type} {m : Act κ β} {f : β → Act κ α}, P m → (∀ b, P (f b)) → P (m >>= f)

namespace Act.Composes
variable {P : ∀ {α : Type}, Act κ α → Prop}

theorem ite (_ : Composes @P) {c : Prop} [Decidable c] {m n : Act κ α} (yes : P m) (no : P n) :
    P (if c then m else n) := by split <;> assumption

variable (composes : Composes @P)
include composes

theorem sceneBind {f : Scene κ → Act κ α} (body : ∀ s, P (f s)) : P (Act.scene >>= f) :=
  composes.bind composes.scene body

theorem withComponent {id : ComponentId} {a : α} {f : Component κ → Act κ α}
    (body : ∀ c, P (f c)) : P (withComponent id a f) := by
  refine composes.sceneBind fun s => ?_
  split
  · next c _ => exact body c
  · exact composes.pure a

theorem each {f : β → Act κ Unit} (items : List β) (body : ∀ b, P (f b)) : P (each items f) := by
  induction items with
  | nil => exact composes.pure ()
  | cons b rest ih => exact composes.bind (body b) fun _ => ih

section Writing
variable {id : ComponentId} {p : Property} {v : Value} {origin : Origin}

theorem spread {c : Component κ} {old : Value} (reflect : P (Act.reflect c.node p v : Act κ _))
    (tell : P (Act.tellOfChange id p old v : Act κ _))
    (announce : P (Act.announce c.node p old v : Act κ _))
    (push : P (Act.pushBound id (some p.name) : Act κ _))
    (back : P (Act.writeBackProperty id p.name : Act κ _)) (slot : Slot) :
    P (Act.spread id p c slot old v origin) := by
  unfold Act.spread
  extract_lets bound written pushed announced told
  have writing (r) : P (written r) := composes.ite back (composes.pure _)
  have pushing (r) : P (pushed r) := composes.ite (composes.bind push writing) (writing ())
  have announcing (r) : P (announced r) :=
    composes.ite (composes.bind announce pushing) (pushing ())
  have telling (r) : P (told r) := by
    refine composes.sceneBind fun s => composes.ite ?_ (composes.pure _)
    exact composes.ite (composes.bind tell announcing) (announcing ())
  exact composes.ite (composes.bind reflect telling) (telling ())

theorem commit {old : Value} (put : P (Act.modify id fun c : Component κ =>
      c.modifySlot p.name fun slot => { slot with value := v }))
    (spread : ∀ (c : Component κ) slot, P (Act.spread id p c slot old v origin)) :
    P (Act.commit id p old v origin : Act κ _) := by
  refine composes.withComponent fun c => ?_
  split
  · exact composes.pure _
  · exact composes.bind put fun _ => composes.bind (spread _ _) fun _ => composes.pure _

theorem attempt (refuse : ∀ fault, P (Act.refuse id fault : Act κ _))
    (validated : ∀ old, P (Act.validated id p old v : Act κ _))
    (commit : ∀ old x, P (Act.commit id p old x origin : Act κ _)) :
    P (Act.attempt id p v origin : Act κ _) := by
  refine composes.ite (composes.pure _) ?_
  split
  · exact refuse _
  · refine composes.sceneBind fun s => composes.bind (validated _) fun x => ?_
    refine composes.ite (composes.pure _) ?_
    split
    · exact refuse _
    · exact commit _ _

theorem write {name : String} (mark : ∀ busy, P (Act.modify id fun c : Component κ =>
      c.modifySlot name fun slot => { slot with busy := busy }))
    (attempt : ∀ p, P (Act.attempt id p v origin : Act κ _)) :
    P (Act.write id name v origin : Act κ _) := by
  refine composes.withComponent fun c => ?_
  split
  · refine composes.ite (composes.pure _) (composes.bind (mark _) fun _ => ?_)
    exact composes.bind (attempt _) fun _ => composes.bind (mark _) fun _ => composes.pure _
  · exact composes.pure _

end Writing

theorem upgrade (d : Definition κ) (instantiate : ∀ x owner, P (Act.instantiate x d owner : Act κ _))
    (xs : List NodeId) : P (Act.upgrade d xs) := by
  induction xs with
  | nil => exact composes.pure _
  | cons x rest ih =>
    refine composes.sceneBind fun s => composes.bind (instantiate x _) fun id => ?_
    exact composes.bind ih fun _ => composes.pure _

theorem createElement (edit : ∀ d, P (Act.edit fun _ => d : Act κ Unit))
    (instantiate : ∀ x d owner, P (Act.instantiate x d owner : Act κ _)) (tag : String) :
    P (Act.createElement tag : Act κ _) := by
  refine composes.sceneBind fun s => ?_
  dsimp -zeta only
  refine composes.bind (edit _) fun _ => ?_
  split
  · exact composes.bind (instantiate _ _ _) fun _ => composes.pure _
  · exact composes.pure _

mutual
theorem grow (edit : ∀ f, (∀ d : Document, d.Reworks (f d)) → P (Act.edit f : Act κ Unit))
    (createText : ∀ text, P (Act.createText text : Act κ _))
    (createElement : ∀ tag, P (Act.createElement tag : Act κ _)) (m : Markup) :
    P (Act.grow m : Act κ _) := by
  cases m with
  | text text => exact createText text
  | element tag attributes children =>
    have named (x : NodeId) (d : Document) :
        d.Reworks (attributes.foldl (fun d a => d.setAttribute x a.1 a.2) d) :=
      .foldl (fun d a => d.reworks_setAttribute x a.1 a.2) attributes d
    unfold Act.grow
    refine composes.bind (createElement tag) fun x => composes.bind (edit _ (named x)) fun _ => ?_
    exact composes.bind (growBelow edit createText createElement x children) fun _ => composes.pure _

theorem growBelow (edit : ∀ f, (∀ d : Document, d.Reworks (f d)) → P (Act.edit f : Act κ Unit))
    (createText : ∀ text, P (Act.createText text : Act κ _))
    (createElement : ∀ tag, P (Act.createElement tag : Act κ _)) (parent : NodeId)
    (ms : List Markup) : P (Act.growBelow parent ms : Act κ _) := by
  cases ms with
  | nil => unfold Act.growBelow; exact composes.pure _
  | cons m rest =>
    unfold Act.growBelow
    refine composes.bind (grow edit createText createElement m) fun x => ?_
    refine composes.bind (edit _ fun d => d.reworks_appendChild parent x) fun _ => ?_
    exact composes.bind (growBelow edit createText createElement parent rest) fun _ => composes.pure _
end

theorem growTemplate (owned : ∀ owner : Option ComponentId,
      P (Act.update fun s : Scene κ => { s with templateOwner := owner }))
    (growBelow : ∀ x ms, P (Act.growBelow x ms : Act κ _)) (id : ComponentId) (x : NodeId)
    (template : List Markup) : P (Act.growTemplate id x template : Act κ _) := by
  refine composes.sceneBind fun s => composes.bind (owned _) fun _ => ?_
  refine composes.bind (growBelow x template) fun _ => ?_
  exact composes.bind (owned _) fun _ => composes.pure _

theorem expand (edit : ∀ f, (∀ d : Document, d.Reworks (f d)) → P (Act.edit f : Act κ Unit))
    (note : ∀ id fault, P (Act.note (some id) fault : Act κ _))
    (growTemplate : ∀ id x template, P (Act.growTemplate id x template : Act κ _))
    (id : ComponentId) (c : Component κ) (light : List NodeId) : P (Act.expand id c light) := by
  unfold Act.expand
  split
  · exact composes.pure _
  · exact composes.bind (note _ _) fun _ => composes.pure _
  · have emptied (d : Document) :
        d.Reworks (light.foldl (fun d x => (d.removeChild? c.node x).getD d) d) :=
      .foldl (fun d x => d.reworks_removeChild c.node x) light d
    refine composes.bind (edit _ emptied) fun _ => ?_
    exact composes.bind (growTemplate _ _ _) fun _ => composes.pure _

theorem applyTemplate (expand : ∀ id (c : Component κ) light, P (Act.expand id c light))
    (layOut : ∀ x template, P (Act.layOut x template : Act κ _))
    (placeLight : ∀ light content t, P (Act.placeLight light content t : Act κ _))
    (applied : ∀ id (t : BindingTree) refs content text, P (Act.modify id fun c : Component κ =>
      { c with
        stage := .expanded
        bindings := some t
        boundProperties := t.dependencies
        refs := refs
        content := some content
        lightText := text
        barrier := c.barrier.hold }))
    (awaitNested : ∀ id x, P (Act.awaitNested id x : Act κ _))
    (release : ∀ id, P (Act.ask (.release id) : Act κ _)) (id : ComponentId) :
    P (Act.applyTemplate id : Act κ _) := by
  refine composes.withComponent fun c => composes.ite ?_ (composes.pure _)
  refine composes.sceneBind fun s => composes.bind (expand _ _ _) fun template => ?_
  refine composes.bind (layOut _ _) fun laid => ?_
  obtain ⟨layout, tree⟩ := laid
  dsimp -zeta only
  extract_lets placed
  have later (text) : P (placed text) := by
    refine composes.bind (applied _ _ _ _ _) fun _ => ?_
    exact composes.bind (awaitNested _ _) fun _ => release _
  exact composes.ite (composes.bind (placeLight _ _ _) later) (later _)

section Going
variable {id : ComponentId} (setStage : ∀ stage, P (Act.setStage id stage : Act κ _))
  (tellParts : ∀ m, P (Act.tellParts id m : Act κ _))

include setStage tellParts

theorem enter (hook : P (Act.runHook id "attached" Hooks.attached : Act κ _))
    (wire : P (Act.wire id : Act κ _)) : P (Act.enter id : Act κ _) :=
  composes.bind (setStage _) fun _ => composes.bind (tellParts _) fun _ =>
    composes.bind hook fun _ => wire

theorem detach (hook : P (Act.runHook id "detached" Hooks.detached : Act κ _))
    (unwire : P (Act.unwire id : Act κ _))
    (dequeued : P (Act.update fun s : Scene κ => { s with pending := s.pending.filter (· ≠ id) }))
    (strayed : ∀ owner, P (Act.modify owner fun o : Component κ => if o.strays.contains id then o
      else { o with strays := o.strays ++ [id] })) : P (Act.detach id : Act κ _) := by
  refine composes.withComponent fun c => ?_
  extract_lets left
  have later (r) : P (left r) := by
    refine composes.bind dequeued fun _ => composes.sceneBind fun s => ?_
    split
    · exact composes.ite (strayed _) (composes.pure _)
    · exact composes.pure _
  refine composes.ite ?_ (later ())
  refine composes.bind unwire fun _ => composes.bind (setStage _) fun _ => ?_
  exact composes.bind (tellParts _) fun _ => composes.bind hook later

end Going

theorem attach {id : ComponentId} (enter : P (Act.enter id : Act κ _))
    (returned : ∀ owner, P (Act.modify owner fun o : Component κ =>
      { o with strays := o.strays.filter (· ≠ id) })) : P (Act.attach id : Act κ _) := by
  refine composes.withComponent fun c => composes.bind enter fun _ => composes.sceneBind fun s => ?_
  split
  · exact composes.ite (returned _) (composes.pure _)
  · exact composes.pure _

theorem connect {id : ComponentId} (queued : ∀ ids : Scene κ → List ComponentId,
      P (Act.update fun s : Scene κ => { s with pending := ids s }))
    (configure : P (Act.configure id : Act κ _)) (applyTemplate : P (Act.applyTemplate id : Act κ _))
    (attach : P (Act.attach id : Act κ _)) : P (Act.connect id : Act κ _) := by
  refine composes.withComponent fun c => ?_
  split
  · refine composes.sceneBind fun s => composes.ite (queued _) ?_
    exact composes.bind configure fun _ => applyTemplate
  · exact attach
  · exact composes.pure _

section Moving
variable (detach : ∀ id, P (Act.detach id : Act κ _)) (connect : ∀ id, P (Act.connect id : Act κ _))

include detach in
theorem removeChild (edit : ∀ d, P (Act.edit fun _ => d : Act κ Unit)) (parent child : NodeId) :
    P (Act.removeChild parent child : Act κ _) := by
  refine composes.sceneBind fun s => ?_
  split
  · exact composes.pure _
  · refine composes.bind (edit _) fun _ => ?_
    extract_lets ended
    refine composes.ite (composes.sceneBind fun s => ?_) (composes.pure _)
    exact composes.bind (composes.each _ fun _ => detach _) fun _ => composes.pure _

include detach connect in
theorem appendChild (parent child : NodeId)
    (edit : P (Act.edit fun d => d.appendChild parent child : Act κ Unit)) :
    P (Act.appendChild parent child : Act κ _) := by
  refine composes.sceneBind fun s => composes.bind edit fun _ => composes.sceneBind fun t => ?_
  refine composes.ite ?_ (composes.pure _)
  extract_lets inside moved
  have later (r) : P (moved r) :=
    composes.sceneBind fun s => composes.ite (composes.each _ fun _ => connect _) (composes.pure _)
  exact composes.ite (composes.bind (composes.each _ fun _ => detach _) later) (later ())

include connect in
theorem finishLoading
    (loaded : P (Act.update fun s : Scene κ => { s with loading := false, pending := [] }))
    (resolve : P (Act.resolveWaiting : Act κ _)) : P (Act.finishLoading : Act κ _) := by
  refine composes.sceneBind fun s => composes.ite (composes.bind loaded fun _ => ?_) (composes.pure _)
  refine composes.bind (composes.each _ fun id => composes.withComponent fun c => ?_) fun _ => resolve
  exact composes.sceneBind fun s => composes.ite (connect id) (composes.pure _)

include connect in
theorem register (d : Definition κ) (note : ∀ fault, P (Act.note none fault : Act κ _))
    (define : ∀ cs : List (Capability κ), P (Act.update fun s : Scene κ => { s with
      definitions := s.definitions.insert (d.compose cs).tag (d.compose cs)
      waiting := s.waiting.erase (d.compose cs).tag }))
    (callback : ∀ k : κ, P (Act.callback k .registered))
    (instantiate : ∀ x cs owner, P (Act.instantiate x (d.compose cs) owner : Act κ _)) :
    P (Act.register d) := by
  refine composes.sceneBind fun s => composes.ite (composes.pure _) ?_
  refine composes.bind (composes.each _ note) fun _ => composes.bind (define _) fun _ => ?_
  refine composes.bind (composes.each _ fun k => ?_) fun _ => ?_
  · exact composes.bind (callback k) fun _ => composes.pure _
  · refine composes.sceneBind fun s => ?_
    refine composes.bind (composes.upgrade _ (fun x owner => instantiate x _ owner) _) fun ids => ?_
    exact composes.bind (composes.each _ connect) fun _ => composes.pure _

end Moving
end Act.Composes
end LiveTree
