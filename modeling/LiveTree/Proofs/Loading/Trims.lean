import LiveTree.Proofs.Attachment
import LiveTree.Proofs.Document.Links

/-! What runs besides connection. Writes, pushes and completion may take nodes from below others, and
they put none there but new texts; they make no components and configure none. Only the acts that
move and make nodes and those that connect components are not of this kind. -/
namespace LiveTree
variable {κ σ α β : Type}

structure Scene.Trims (s t : Scene κ) : Prop where
  document : s.document.Prunes t.document
  node : ∀ id c, s.component? id = some c → ∃ d, t.component? id = some d ∧ d.node = c.node
  size : t.components.size = s.components.size
  stage : s.Bars .configured t
  loading : t.loading = s.loading
  pending : t.pending = s.pending

namespace Scene.Trims
variable {s t : Scene κ}

theorem edit (s : Scene κ) {d : Document} (prunes : s.document.Prunes d) : s.Trims (s.edit fun _ => d) where
  document := prunes
  node _ c found := ⟨c, found, rfl⟩
  size := rfl
  stage _ here := here
  loading := rfl
  pending := rfl

theorem setStage (s : Scene κ) (id : ComponentId) {f : Component κ → Component κ}
    (node : ∀ c, (f c).node = c.node) (elsewhere : ∀ c, (f c).stage ≠ .configured) :
    s.Trims (s.modify id f) where
  document := .refl _
  node other c found := by
    rw [component?_modify, found]
    split
    · exact ⟨f c, rfl, node c⟩
    · exact ⟨c, rfl, rfl⟩
  size := s.size_modify id f
  stage := .modify s id elsewhere
  loading := rfl
  pending := rfl

end Scene.Trims

theorem Scene.Alike.trims {F : List Field} {s t : Scene κ} (alike : s.Alike F t)
    (out : ∀ f ∈ [Field.tree, .components, .stage, .loading, .pending], f ∉ F) : s.Trims t where
  document :=
    have same : t.document.tree = s.document.tree := alike.view .tree (out _ (by decide))
    .of_tree same
  node := fun id c found => by
    obtain ⟨d, there, alike⟩ := alike.component id c found
    exact ⟨d, there, alike.node⟩
  size := alike.view .components (out _ (by decide))
  stage := .of_stages fun id => alike.stage? (fun f member => out f (by grind)) id
  loading := alike.view .loading (out _ (by decide))
  pending := alike.view .pending (out _ (by decide))

def Act.Trims (m : Act κ α) : Prop := ∀ s, m.Within Scene.Trims (fun c => c.kind ≠ .connect) s

namespace Act.Trims

theorem of_touches {F : List Field} {C : List Call.Kind} {m : Act κ α} (touches : m.Touches F C)
    (out : (∀ f ∈ [Field.tree, .components, .stage, .loading, .pending], f ∉ F) ∧ .connect ∉ C) :
    m.Trims := fun s =>
  (touches s).mono (fun _ _ alike => alike.trims out.1) fun _ kind same => out.2 (same ▸ kind)

theorem pure (a : α) : (Pure.pure a : Act κ α).Trims := fun _ => trivial

theorem bind {m : Act κ β} {f : β → Act κ α} (first : m.Trims) (second : ∀ b, (f b).Trims) :
    (m >>= f).Trims := fun s => (first s).bind fun b t => second b t

theorem composes : Composes fun {_} (m : Act κ _) => m.Trims where
  pure := pure
  scene _ := trivial
  bind := bind

theorem ask (c : Call κ) (other : c.kind ≠ .connect) : (Act.ask c).Trims := fun _ =>
  ⟨other, fun _ _ => trivial⟩

theorem edit {f : Document → Document} (prunes : ∀ d : Document, d.Prunes (f d)) :
    (Act.edit f : Act κ Unit).Trims := fun s => ⟨.edit s (prunes s.document), trivial⟩

theorem setStage (id : ComponentId) {stage : Stage} (other : stage ≠ .configured) :
    (Act.setStage id stage : Act κ _).Trims := fun s =>
  ⟨.setStage s id (fun _ => rfl) fun _ => other, trivial⟩

theorem createText (text : String) : (Act.createText text : Act κ _).Trims := fun s =>
  ⟨.edit s (s.document.prunes_createText text), trivial⟩

theorem assign (x : NodeId) (b : Binding) (v : Value) : (Act.assign x b v : Act κ _).Trims := by
  refine composes.sceneBind fun s => composes.ite (edit fun d => d.prunes_setText x _) ?_
  split
  · exact bind (ask _ nofun) fun _ => pure _
  · exact composes.ite (edit fun d => d.prunes_show b x v) (pure _)

theorem modifyBinding (id : ComponentId) (site : Nat) (target : String) {f : Binding → Binding}
    (keeps : ∀ b, (f b).still = b.still) : (Act.modifyBinding id site target f : Act κ _).Trims :=
  of_touches (.modifyBinding id site target keeps) (by decide)

theorem installWriteBack (id : ComponentId) (site : Nat) (x : NodeId) (b : Binding) :
    (Act.installWriteBack id site x b : Act κ _).Trims := by
  refine composes.sceneBind fun s => ?_
  split
  · exact pure _
  · extract_lets installed
    have later : (installed ()).Trims :=
      bind (of_touches (.listen _ _ _) (by decide)) fun _ => modifyBinding _ _ _ fun _ => rfl
    split
    · exact bind (of_touches (.modifyNotify _ _) (by decide)) fun _ => later
    · exact later

theorem push (id : ComponentId) (site : Nat) (target : String) :
    (Act.push id site target : Act κ _).Trims := by
  have marked (f : Binding → Binding) (keeps : ∀ b, (f b).still = b.still) :
      (Act.modifyBinding id site target f : Act κ _).Trims := modifyBinding id site target keeps
  refine composes.sceneBind fun s => ?_
  extract_lets found
  clear_value found
  rcases found with _ | ⟨x, b⟩
  · exact pure _
  refine composes.ite (pure _) ?_
  extract_lets ready installed
  have pushing (r) : (ready r).Trims := by
    refine bind (of_touches (.evaluate id b.source) (by decide)) fun v => composes.ite (pure _) ?_
    exact bind (marked _ fun _ => rfl) fun _ => bind (assign x b _) fun _ => marked _ fun _ => rfl
  have marking (r) : (installed r).Trims := bind (marked _ fun _ => rfl) pushing
  exact composes.ite (composes.ite (bind (installWriteBack id site x b) marking) (marking ())) (pushing ())

theorem pushTexts (id : ComponentId) : (Act.pushTexts id : Act κ _).Trims := by
  have cleared : (Act.modify id fun c : Component κ => { c with lightText := "" }).Trims :=
    of_touches (F := [.lightText]) (C := []) (.modify fun c => .put c .lightText _ (by decide)) (by decide)
  refine composes.withComponent fun c => bind cleared fun _ => composes.sceneBind fun s => ?_
  extract_lets sites texts written
  have later (r) : (written r).Trims := composes.each _ fun _ => push _ _ _
  split
  · exact composes.ite (bind (of_touches (.writePath _ _ _) (by decide)) later) (later ())
  · exact later ()

theorem pushBound (id : ComponentId) (changed : Option String) :
    (Act.pushBound id changed : Act κ _).Trims :=
  composes.withComponent fun _ => composes.ite (composes.each _ fun _ => push _ _ _) (pure _)

theorem pushFirst (id : ComponentId) : (Act.pushFirst id : Act κ _).Trims := by
  have readied : (Act.modify id fun c : Component κ => { c with bindingsReady := true }).Trims :=
    of_touches (F := [.bindingsReady]) (C := [])
      (.modify fun c => .put c .bindingsReady _ (by decide)) (by decide)
  exact bind readied fun _ => bind (pushTexts id) fun _ => pushBound id none

theorem write (id : ComponentId) (name : String) (v : Value) (origin : Origin) :
    (Act.write id name v origin : Act κ _).Trims := by
  have held (f : Slot → Slot) (keeps : ∀ slot, (f slot).notify = slot.notify) :
      (Act.modify id fun c : Component κ => c.modifySlot name f).Trims :=
    of_touches (.modifyValue id name keeps) (by decide)
  refine composes.write (fun _ => held _ fun _ => rfl) fun p => ?_
  refine composes.attempt (fun _ => of_touches (.refuse _ _) (by decide))
    (fun _ => of_touches (.validated _ _ _ _) (by decide)) fun old x => ?_
  refine composes.commit (of_touches (.modifyValue id p.name fun _ => rfl) (by decide)) fun c slot => ?_
  exact composes.spread (of_touches (.reflect _ _ _) (by decide))
    (of_touches (.tellOfChange _ _ _ _) (by decide)) (of_touches (.announce _ _ _ _) (by decide))
    (pushBound _ _) (of_touches (.writeBackProperty _ _) (by decide)) slot

theorem refresh (id : ComponentId) : (Act.refresh id : Act κ _).Trims :=
  composes.withComponent fun _ => composes.ite (bind (pushTexts id) fun _ =>
    bind (pushBound id none) fun _ => of_touches (.pushFeeds id) (by decide)) (pure _)

theorem rebound (id : ComponentId) (f : BindingTree → BindingTree) :
    (Act.modify id fun c : Component κ => (c.modifyBindings f).rebound).Trims :=
  of_touches (C := []) (.modify fun c => .rebound c f) (by decide)

theorem addBinding (id : ComponentId) (expression target stableId : String) :
    (Act.addBinding id expression target stableId : Act κ _).Trims := by
  unfold Act.addBinding
  extract_lets text
  split
  · exact pure _
  refine composes.withComponent fun c => ?_
  split
  · exact pure _
  · refine bind (rebound id _) fun _ => ?_
    refine bind (composes.each _ fun b => of_touches (.uninstallWriteBack b) (by decide)) fun _ => ?_
    exact composes.ite (bind (push _ _ _) fun _ => pure _) (pure _)

theorem removeBinding (id : ComponentId) (expression target stableId : String) :
    (Act.removeBinding id expression target stableId : Act κ _).Trims := by
  refine composes.withComponent fun c => ?_
  split
  · exact pure _
  · split
    · exact pure _
    · refine composes.ite (bind (rebound id _) fun _ => bind ?_ fun _ => pure _) (pure _)
      exact of_touches (.uninstallWriteBack _) (by decide)

theorem service (x : Service) (id : ComponentId) (arguments : List Value) :
    (Act.service x id arguments : Act κ _).Trims := by
  unfold Act.service
  extract_lets text
  split
  · exact bind (of_touches (.log _ _ _) (by decide)) fun _ => pure _
  · exact bind (of_touches (.localize _ _ _) (by decide)) fun _ => pure _
  · split
    · exact of_touches (.addMessages _ _ _) (by decide)
    · exact pure _
  · exact bind (addBinding _ _ _ _) fun _ => pure _
  · exact bind (removeBinding _ _ _ _) fun _ => pure _

theorem enter (id : ComponentId) : (Act.enter id : Act κ _).Trims :=
  bind (setStage id nofun) fun _ => bind (of_touches (.tellParts _ _) (by decide)) fun _ =>
    bind (of_touches (.runHook _ _ _) (by decide)) fun _ => of_touches (.wire _) (by decide)

theorem complete (id : ComponentId) : (Act.complete id : Act κ _).Trims := by
  refine composes.withComponent fun c => composes.ite (composes.sceneBind fun s => ?_) (pure _)
  refine bind (of_touches (.noteMissing _ _) (by decide)) fun _ => ?_
  refine bind (composes.each _ fun owner => ?_) fun _ => bind (pushFirst id) fun _ => ?_
  · exact composes.withComponent fun _ => composes.ite (pushFirst owner) (pure _)
  refine bind (setStage id nofun) fun _ => bind (of_touches (.tellParts _ _) (by decide)) fun _ => ?_
  refine bind (of_touches (.runHook _ _ _) (by decide)) fun _ => bind (enter id) fun _ => ?_
  refine bind (of_touches (F := [.completed]) (C := []) (.modify fun c =>
    .put c .completed _ (by decide)) (by decide)) fun _ => ?_
  exact bind (of_touches (.runHook _ _ _) (by decide)) fun _ => of_touches (.tellWaiting _) (by decide)

theorem release (id : ComponentId) : (Act.release id : Act κ _).Trims :=
  composes.withComponent fun _ => bind (of_touches (touches_drop id) (by decide)) fun _ =>
    composes.ite (complete _) (pure _)

theorem attach (id : ComponentId) : (Act.attach id : Act κ _).Trims :=
  composes.attach (enter id) fun owner =>
    of_touches (F := [.strays]) (C := []) (.modify fun c => .put c .strays _ (by decide)) (by decide)

end Act.Trims

def Call.Trims : Call κ → Prop
  | .write id name v origin => (Act.write id name v origin : Act κ _).Trims
  | .release id => (Act.release id : Act κ _).Trims
  | .service x id arguments => (Act.service x id arguments : Act κ _).Trims
  | .deliver x e => (Act.deliver x e : Act κ _).Trims
  | .connect .. | .callback .. | .apply .. => True

namespace Act.Trims

theorem call (c : Call κ) : Call.Trims c := by
  cases c with
  | write id name v origin => exact write id name v origin
  | release id => exact release id
  | service x id arguments => exact service x id arguments
  | deliver x e => exact of_touches (.deliver x e) (by decide)
  | connect | callback | apply => trivial

def moves : Request κ → Bool
  | .register _ | .createElement _ | .appendChild .. | .removeChild .. | .edit _ | .beginLoading
  | .finishLoading => true
  | _ => false

theorem request (r : Request κ) (still : moves r = false) : r.act.Trims := by
  cases r with
  | register | createElement | appendChild | removeChild | edit | beginLoading | finishLoading =>
    cases still
  | createText text => exact createText text
  | refresh id => exact refresh id
  | addBinding id expression target stableId => exact addBinding id expression target stableId
  | removeBinding id expression target stableId =>
    exact removeBinding id expression target stableId
  | _ =>
    refine of_touches (.request _) ?_
    dsimp only [Touches.requested, Touches.calling]
    decide

/-- Where such an act keeps to a contract. -/
theorem wp {K : Contract κ σ} {m : Act κ α} {I : Point κ σ → Prop} {p : Point κ σ} (trims : m.Trims)
    (change : ∀ q t, I q → q.scene.Trims t → K.Takes q.past (.change q.scene t) (I (q.change t)))
    (call : ∀ (c : Call κ) q, I q → c.kind ≠ .connect → K.before c q ∧ ∀ a r, K.after c q a r →
      K.Takes r.past (.answer c q.world a r.world) (I (r.answered c q.world a)))
    (start : I p) : m.wp K (fun _ q => I q) p :=
  wp_of_within change call start (trims p.scene)

end Act.Trims
end LiveTree
