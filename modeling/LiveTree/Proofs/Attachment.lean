import LiveTree.Proofs.Stages

/-! Where no consumer code runs, a node that is moved takes the components along that lie at it or
below: if it is in the document then, none of them is left detached, and if it was and is no more,
none is left attached. Moves alone do that. Completion does not look where the node is, so that a
component whose node was taken out while it waited is attached all the same when it completes. -/
namespace LiveTree
variable {κ σ α : Type} {R : Scene κ → Scene κ → Prop} {stage : Stage}

def Scene.Bars (stage : Stage) (s t : Scene κ) : Prop :=
  ∀ id, t.stage? id = some stage → s.stage? id = some stage

namespace Scene.Bars
variable {s t : Scene κ}

theorem of_stages (same : ∀ id, t.stage? id = s.stage? id) : s.Bars stage t :=
  fun id here => (same id).symm.trans here

theorem modify (s : Scene κ) (id : ComponentId) {f : Component κ → Component κ}
    (elsewhere : ∀ c, (f c).stage ≠ stage) : s.Bars stage (s.modify id f) := by
  intro other here
  rw [stage?, component?_modify] at here
  split at here
  · rw [Option.map_map] at here
    obtain ⟨c, -, same⟩ := Option.map_eq_some_iff.mp here
    exact absurd same (elsewhere c)
  · exact here

theorem push (s : Scene κ) {c : Component κ} (elsewhere : c.stage ≠ stage) :
    s.Bars stage { s with components := s.components.push c } := by
  intro id here
  rw [stage?, component?, Arena.get?_push] at here
  split at here
  · exact absurd (Option.some.inj here) elsewhere
  · exact here

end Scene.Bars

instance : IsPreorder (Scene κ) (Scene.Bars stage) where
  refl _ _ here := here
  trans _ _ _ first second id here := first id (second id here)

theorem Scene.stage?_setStage_ne (s : Scene κ) (id : ComponentId) {new : Stage} (other : new ≠ stage) :
    (s.modify id fun c => { c with stage := new }).stage? id ≠ some stage := by
  rw [stage?_setStage, if_pos rfl]
  intro here
  obtain ⟨_, -, same⟩ := Option.map_eq_some_iff.mp here
  exact other same

section Away
variable {K : Contract κ σ} [IsPreorder (Scene κ) R] (bars : ∀ {s t}, R s t → s.Bars stage t)
include bars

/-- A component that has left a stage stays away from it while none comes to it. -/
theorem Act.wp_past {m : Act κ α} {id : ComponentId} {s : Scene κ} {p : Point κ σ}
    (kept : m.wp K (fun _ q => R p.scene q.scene) p) (before : R s p.scene)
    (away : p.scene.stage? id ≠ some stage) :
    m.wp K (fun _ q => R s q.scene ∧ q.scene.stage? id ≠ some stage) p :=
  wp_mono _ (fun _ _ after => ⟨IsTrans.trans _ _ _ before after, fun here => away (bars after id here)⟩)
    kept

theorem Act.wp_each_past {f : ComponentId → Act κ Unit} (step : ∀ id (p : Point κ σ),
      (f id).wp K (fun _ q => R p.scene q.scene ∧ q.scene.stage? id ≠ some stage) p)
    (ids : List ComponentId) (p : Point κ σ) : (Act.each ids f).wp K
      (fun _ q => R p.scene q.scene ∧ ∀ id ∈ ids, q.scene.stage? id ≠ some stage) p := by
  induction ids generalizing p with
  | nil => exact ⟨Std.Refl.refl _, fun _ => nofun⟩
  | cons id rest ih =>
    refine (wp_actBind _ _).mpr (wp_mono _ (fun _ q first => ?_) (step id p))
    refine wp_mono _ (fun _ r later => ⟨IsTrans.trans _ _ _ first.1 later.1, ?_⟩) (ih q)
    exact List.forall_mem_cons.mpr ⟨fun here => first.2 (bars later.1 id here), later.2⟩

end Away

def Act.Retains (m : Act κ α) : Prop := m.Leads ⊤ (Scene.Bars .detached)

namespace Act.Retains

theorem of_touches {F : List Field} {C : List Call.Kind} {m : Act κ α} (touches : m.Touches F C)
    (out : ∀ f ∈ [Field.stage, .components], f ∉ F) : m.Retains :=
  .of_within (fun _ _ alike => ⟨trivial, .of_stages fun id => alike.stage? out id⟩) touches

theorem modify {id : ComponentId} {f : Component κ → Component κ}
    (elsewhere : ∀ c, (f c).stage ≠ .detached) : (Act.modify id f).Retains :=
  Leads.update (fun _ => trivial) fun s => .modify s id elsewhere

theorem update {f : Scene κ → Scene κ} (same : ∀ s : Scene κ, (f s).components = s.components) :
    (Act.update f).Retains :=
  Leads.update (fun _ => trivial) fun s => .of_stages fun id => by
    rw [Scene.stage?, Scene.component?, same, Scene.stage?, Scene.component?]

theorem instantiate (x : NodeId) (d : Definition κ) (owner : Option ComponentId) :
    (Act.instantiate x d owner : Act κ _).Retains := by
  refine .bind .scene fun s => .bind (Leads.update (fun _ => trivial) fun s => .push s nofun) ?_
  refine fun _ => .bind (modify fun _ => nofun) fun _ => ?_
  exact .bind (of_touches (.tellParts _ _) (by decide)) fun _ =>
    .bind (of_touches (.runHook _ _ _) (by decide)) fun _ => .pure _

theorem edit (f : Document → Document) : (Act.edit f : Act κ _).Retains := update fun _ => rfl

theorem createElement (tag : String) : (Act.createElement tag : Act κ _).Retains :=
  Leads.composes.createElement (fun _ => edit _) instantiate tag

theorem expand (id : ComponentId) (c : Component κ) (light : List NodeId) :
    (Act.expand id c light).Retains := by
  have text (text : String) : (Act.createText text : Act κ _).Retains :=
    of_touches (.createText text) (by decide)
  have noted (id : ComponentId) (fault : Fault) : (Act.note (some id) fault : Act κ _).Retains :=
    of_touches (.note _ _) (by decide)
  have grown := Leads.composes.growBelow (fun f _ => edit f) text createElement
  have templated := Leads.composes.growTemplate (fun _ => update fun _ => rfl) grown
  exact Leads.composes.expand (fun f _ => edit f) noted templated id c light

theorem configure (id : ComponentId) : (Act.configure id : Act κ _).Retains := by
  refine .withComponent fun c => .ite (.bind .scene fun s => .bind (.each _ fun _ => ?_) ?_) (.pure _)
  · exact of_touches (.configureAttribute _ _ _ _) (by decide)
  refine fun _ => .bind (modify fun _ => nofun) fun _ => .bind (.each _ fun _ => ?_) fun _ => ?_
  · exact of_touches (.reflectDefault _ _ _) (by decide)
  · exact of_touches (.resolveContext id) (by decide)

theorem applyTemplate (id : ComponentId) : (Act.applyTemplate id : Act κ _).Retains := by
  refine .withComponent fun c => .ite (.bind .scene fun s => .bind (expand _ _ _) ?_) (.pure _)
  refine fun template => .bind (of_touches (.layOut _ _) (by decide)) fun laid => ?_
  obtain ⟨layout, tree⟩ := laid
  dsimp -zeta only
  extract_lets placed
  have later (text) : (placed text).Retains :=
    .bind (modify fun _ => nofun) fun _ =>
      .bind (of_touches (.awaitNested _ _) (by decide)) fun _ => .ask _
  exact .ite (.bind (of_touches (.placeLight _ _ _) (by decide)) later) (later _)

theorem enter (id : ComponentId) : (Act.enter id : Act κ _).Retains :=
  .bind (modify fun _ => nofun) fun _ => .bind (of_touches (.tellParts _ _) (by decide)) fun _ =>
    .bind (of_touches (.runHook _ _ _) (by decide)) fun _ => of_touches (.wire _) (by decide)

theorem complete (id : ComponentId) : (Act.complete id : Act κ _).Retains := by
  refine .withComponent fun c => .ite (.bind .scene fun s => ?_) (.pure _)
  refine .bind (of_touches (.noteMissing _ _) (by decide)) fun _ => ?_
  refine .bind (.each _ fun o => of_touches (.pushOwner o) (by decide)) fun _ => ?_
  refine .bind (of_touches (.pushFirst _) (by decide)) fun _ => .bind (modify fun _ => nofun) fun _ => ?_
  refine .bind (of_touches (.tellParts _ _) (by decide)) fun _ => ?_
  refine .bind (of_touches (.runHook _ _ _) (by decide)) fun _ => .bind (enter id) fun _ => ?_
  refine .bind (of_touches (F := [.completed]) (C := []) (.modify fun c =>
    .put c .completed _ (by decide)) (by decide)) fun _ => ?_
  exact .bind (of_touches (.runHook _ _ _) (by decide)) fun _ => of_touches (.tellWaiting _) (by decide)

theorem release (id : ComponentId) : (Act.release id : Act κ _).Retains :=
  .withComponent fun _ => .bind (of_touches (touches_drop id) (by decide)) fun _ =>
    .ite (complete _) (.pure _)

end Act.Retains

section Connecting
variable {id : ComponentId} {p : Point κ σ}

theorem Act.wp_attach : (Act.attach id).wp (Leading σ ⊤ (Scene.Bars .detached)) (fun _ q =>
    p.scene.Bars .detached q.scene ∧ q.scene.stage? id ≠ some .detached) p := by
  refine wp_withComponent (fun c _ => ?_) fun missing => ?_
  · have stays : p.scene.Bars .detached (p.scene.modify id fun c => { c with stage := .attached }) :=
      .modify p.scene id fun _ => show Stage.attached ≠ .detached by decide
    have away := p.scene.stage?_setStage_ne id (show Stage.attached ≠ .detached by decide)
    have rest : (do
        Act.tellParts id .attached
        Act.runHook id "attached" Hooks.attached
        Act.wire id : Act κ Unit).Retains :=
      .bind (Retains.of_touches (.tellParts _ _) (by decide)) fun _ =>
        .bind (Retains.of_touches (.runHook _ _ _) (by decide)) fun _ =>
          Retains.of_touches (.wire _) (by decide)
    refine (wp_bind _ _).mpr ⟨trivial, fun _ => wp_mono _ (fun _ q kept => ?_)
      (wp_past (fun bars => bars) (rest σ _) stays away)⟩
    refine wp_past (fun bars => bars) (Leads.bind .scene (fun s => ?_) σ q) kept.1 kept.2
    split
    · exact .ite (Retains.of_touches (.modifyStrays _ _) (by decide)) (.pure _)
    · exact .pure _
  · exact ⟨fun _ here => here, by simp [Scene.stage?, missing]⟩

theorem Act.wp_connect : (Act.connect id).wp (Leading σ ⊤ (Scene.Bars .detached)) (fun _ q =>
    p.scene.Bars .detached q.scene ∧ q.scene.stage? id ≠ some .detached) p := by
  refine wp_withComponent (fun c found => ?_) fun missing => ?_
  · have there : p.scene.stage? id = some c.stage := by rw [Scene.stage?, found, Option.map_some]
    split
    · next created =>
      have made : (do
          let s ← Act.scene
          if s.loading then
            Act.update fun s => { s with
              pending := if s.pending.contains id then s.pending else s.pending ++ [id] }
          else
            Act.configure id
            Act.applyTemplate id : Act κ Unit).Retains :=
        .bind .scene fun s => .ite (Retains.update fun _ => rfl) <|
          .bind (Retains.configure id) fun _ => Retains.applyTemplate id
      exact wp_past (fun bars => bars) (made σ p) (Std.Refl.refl _) (by rw [there, created]; decide)
    · exact wp_attach
    · next _ other =>
      exact ⟨fun _ here => here, fun here => other (Option.some.inj (there.symm.trans here))⟩
  · exact ⟨fun _ here => here, by simp [Scene.stage?, missing]⟩

end Connecting

theorem Act.Retains.call (c : Call κ) : c.Leads ⊤ (Scene.Bars .detached) := by
  cases c with
  | write id name v origin => exact of_touches (.write id name v origin) (by decide)
  | connect id => exact fun σ p => wp_mono _ (fun _ _ kept => kept.1) wp_connect
  | release id => exact release id
  | service s id arguments => exact of_touches (.service s id arguments) (by decide)
  | deliver x e => exact of_touches (.deliver x e) (by decide)
  | callback k o => trivial
  | apply f arguments => trivial

structure Scene.Quits (s t : Scene κ) : Prop where
  tree : t.document.tree = s.document.tree
  bars : s.Bars .attached t

instance : IsPreorder (Scene κ) Scene.Quits where
  refl _ := ⟨rfl, fun _ here => here⟩
  trans _ _ _ first second :=
    ⟨second.tree.trans first.tree, IsTrans.trans _ _ _ first.bars second.bars⟩

section Detaching
variable {F : List Field} {id : ComponentId} {p : Point κ σ}

theorem Scene.Alike.quits {s t : Scene κ} (alike : s.Alike F t)
    (out : ∀ f ∈ [Field.tree, .stage, .components], f ∉ F) : s.Quits t where
  tree := alike.view .tree (out _ (by decide))
  bars := .of_stages fun id => alike.stage? (fun f member => out f (List.mem_cons_of_mem _ member)) id

theorem Act.wp_quits {m : Act κ α} (touches : m.Touches F [])
    (out : ∀ f ∈ [Field.tree, .stage, .components], f ∉ F) :
    m.wp (Leading σ ⊤ R) (fun _ q => p.scene.Quits q.scene) p := by
  refine wp_of_within (I := fun q => p.scene.Quits q.scene) ?_ ?_ (Std.Refl.refl _) (touches p.scene)
  · exact fun q t kept alike => ⟨trivial, fun _ => IsTrans.trans _ _ _ kept (alike.quits out)⟩
  · exact fun c q _ none => absurd none List.not_mem_nil

variable [IsEmpty κ]

theorem Act.Touches.alone {C : List Call.Kind} {m : Act κ α} (touches : m.Touches F C)
    (consumer : C ⊆ [.callback, .hook]) : m.Touches F [] :=
  fun s => (touches s).mono (fun _ _ alike => alike) fun c kind => by
    cases c with
    | callback k o => exact isEmptyElim k
    | _ => exact absurd (consumer kind) (by simp [Call.kind])

theorem Act.wp_detach : (Act.detach id).wp (Leading σ ⊤ R)
    (fun _ q => p.scene.Quits q.scene ∧ q.scene.stage? id ≠ some .attached) p := by
  refine wp_withComponent (fun c found => ?_) fun missing => ?_
  · have there : p.scene.stage? id = some c.stage := by rw [Scene.stage?, found, Option.map_some]
    extract_lets left
    have later (r) : (left r).Touches [.pending, .strays] [] := by
      refine .bind (.update fun s => .put s .pending _ (by decide)) fun _ => .bind .scene fun s => ?_
      split
      · exact .ite (.mono (.addStray _ _) (by decide)) (.pure _)
      · exact .pure _
    split
    · refine (wp_bind _ _).mpr (wp_mono _ (fun _ q quits => ?_) (wp_quits (.unwire id) (by decide)))
      have stays : q.scene.Quits (q.scene.modify id fun c => { c with stage := .detached }) :=
        ⟨rfl, .modify q.scene id fun _ => show Stage.detached ≠ .attached by decide⟩
      have away := q.scene.stage?_setStage_ne id (show Stage.detached ≠ .attached by decide)
      have rest : (do
          Act.tellParts id .detached
          let r ← Act.runHook id "detached" Hooks.detached
          left r : Act κ Unit).Touches [.parts, .journal, .pending, .strays] [] :=
        .bind (.mono ((Touches.tellParts _ _).alone (by decide)) (by decide)) fun _ =>
          .bind (.mono ((Touches.runHook _ _ _).alone (by decide)) (by decide)) fun r => (later r).mono (by decide)
      exact (wp_bind _ _).mpr ⟨trivial, fun _ => wp_past Scene.Quits.bars
        (wp_quits rest (by decide)) (IsTrans.trans _ _ _ quits stays) away⟩
    · next other =>
      refine wp_past Scene.Quits.bars (wp_quits (later ()) (by decide)) (Std.Refl.refl _) ?_
      exact fun here => other (Option.some.inj (there.symm.trans here))
  · exact ⟨Std.Refl.refl _, by simp [Scene.stage?, missing]⟩

end Detaching

def Stage.misplaced (connected : Bool) : Stage := if connected then .detached else .attached

section Moves
variable [IsEmpty κ] {parent child : NodeId}

theorem Act.wp_appendChild {p : Point κ σ} {s : Scene κ}
    (moved : p.scene.edit (·.appendChild parent child) = s)
    (under : s.document.parent? child = some parent)
    (near : p.scene.document.isConnected child = true ∨ s.document.isConnected child = true) :
    (Act.appendChild parent child).wp (Leading σ ⊤ (Scene.Bars .detached)) (fun _ q =>
      ∀ id ∈ s.componentsIn child,
        q.scene.stage? id ≠ some (.misplaced (s.document.isConnected child))) p := by
  refine (wp_bind _ _).mpr (wp_scene.mpr ((wp_bind _ _).mpr ⟨trivial, fun _ => ?_⟩))
  generalize next : p.change (p.scene.edit (·.appendChild parent child)) = q
  have here : q.scene = s := next ▸ moved
  refine (wp_bind _ _).mpr (wp_scene.mpr ((wp_ite _ _ _).mpr ?_))
  rw [here, if_pos under]
  extract_lets inside moved
  -- Nodes stay where they are when components are detached, so that it is still the same question.
  have later (r) {q : Point κ σ} (quits : s.Quits q.scene)
      (away : s.document.isConnected child = false → ∀ id ∈ inside, q.scene.stage? id ≠ some .attached) :
      (moved r).wp (Leading σ ⊤ (Scene.Bars .detached)) (fun _ q => ∀ id ∈ inside,
        q.scene.stage? id ≠ some (.misplaced (s.document.isConnected child))) q := by
    refine (wp_bind _ _).mpr (wp_scene.mpr ((wp_ite _ _ _).mpr ?_))
    rw [Document.isConnected_of_tree quits.tree child]
    split
    · next connected =>
      rw [connected]
      exact wp_mono _ (fun _ r kept => kept.2)
        (wp_each_past (fun bars => bars) (fun _ _ => wp_connect) inside q)
    · next apart =>
      have apart := Bool.eq_false_iff.mpr apart
      rw [apart]
      exact away apart
  split
  · refine (wp_bind _ _).mpr (wp_mono _ (fun r q kept => ?_)
      (wp_each_past Scene.Quits.bars (fun _ _ => wp_detach) inside q))
    exact later r (here ▸ kept.1) fun _ => kept.2
  · next apart =>
    refine later () (here ▸ Std.Refl.refl _) fun out => ?_
    exact absurd (near.resolve_left apart) (Bool.eq_false_iff.mp out)

theorem Act.wp_removeChild {p : Point κ σ} {d : Document}
    (removed : p.scene.document.removeChild? parent child = some d)
    (near : p.scene.document.isConnected child = true) :
    (Act.removeChild parent child).wp (Leading σ ⊤ (Scene.Bars .detached)) (fun _ q =>
      ∀ id ∈ (p.scene.edit fun _ => d).componentsIn child, q.scene.stage? id ≠ some .attached) p := by
  refine (wp_bind _ _).mpr (wp_scene.mpr ?_)
  rw [removed]
  refine (wp_bind _ _).mpr ⟨trivial, fun _ => ?_⟩
  rw [if_pos near]
  refine (wp_bind _ _).mpr (wp_scene.mpr ((wp_bind _ _).mpr ?_))
  exact wp_mono _ (fun _ _ kept => kept.2) (wp_each_past Scene.Quits.bars (fun _ _ => wp_detach) _ _)

theorem Environment.retains (env : Environment κ σ) :
    env.Meets (Leading σ ⊤ (Scene.Bars .detached)) :=
  Leading.meets_of_scripts Act.Retains.call fun k => isEmptyElim k

variable (env : Environment κ σ) {fuel : Nat} {w w' : World κ σ}

/-- A node that is put into the document, out of it or elsewhere in it leaves no component below it
in the stage for the other place. -/
theorem attachment_of_appendChild {s : Scene κ}
    (played : env.play fuel (.request (.appendChild parent child)) w = some ((), w'))
    (moved : w.scene.edit (·.appendChild parent child) = s)
    (under : s.document.parent? child = some parent)
    (near : w.scene.document.isConnected child = true ∨ s.document.isConnected child = true) :
    ∀ id ∈ s.componentsIn child,
      w'.scene.stage? id ≠ some (.misplaced (s.document.isConnected child)) := by
  refine env.retains.play_reaches (Q := fun _ t => ∀ id ∈ s.componentsIn child,
    t.stage? id ≠ some (.misplaced (s.document.isConnected child))) ?_ played
  exact ⟨trivial, fun _ => Act.wp_appendChild moved under near⟩

/-- A node that is taken out of the document has no component below it that is attached. -/
theorem attachment_of_removeChild {removed : Bool} {d : Document}
    (played : env.play fuel (.request (.removeChild parent child)) w = some (removed, w'))
    (taken : w.scene.document.removeChild? parent child = some d)
    (near : w.scene.document.isConnected child = true) :
    ∀ id ∈ (w.scene.edit fun _ => d).componentsIn child, w'.scene.stage? id ≠ some .attached := by
  refine env.retains.play_reaches (Q := fun _ t => ∀ id ∈ (w.scene.edit fun _ => d).componentsIn child,
    t.stage? id ≠ some .attached) ?_ played
  exact ⟨trivial, fun _ => Act.wp_removeChild taken near⟩

end Moves

def showing : Script Empty Unit Unit := do
  let _ ← Script.request (.register (Declaration.define { tag := "x-h", template := some "<p>hi</p>" }))
  let _ ← Script.request (.createElement "x-h")

theorem attachment_of_appendChild_showing : ∃ w w',
    silent.play 20 showing ⟨.ofConfig {} none, ()⟩ = some ((), w) ∧
      silent.play 20 (.request (.appendChild Document.root ⟨1⟩)) w = some ((), w') ∧
      (w.scene.edit (·.appendChild Document.root ⟨1⟩)).document.isConnected ⟨1⟩ = true ∧
      ⟨0⟩ ∈ (w.scene.edit (·.appendChild Document.root ⟨1⟩)).componentsIn ⟨1⟩ ∧
      w'.scene.stage? ⟨0⟩ ≠ some .detached := by
  have answered : (silent.play 20 showing ⟨.ofConfig {} none, ()⟩).bind (fun r =>
      (silent.play 20 (.request (.appendChild Document.root ⟨1⟩)) r.2).map fun _ =>
        decide ((r.2.scene.edit (·.appendChild Document.root ⟨1⟩)).document.parent? ⟨1⟩ = some Document.root ∧
          (r.2.scene.edit (·.appendChild Document.root ⟨1⟩)).document.isConnected ⟨1⟩ = true ∧
          ⟨0⟩ ∈ (r.2.scene.edit (·.appendChild Document.root ⟨1⟩)).componentsIn ⟨1⟩)) = some true := by
    decide +kernel
  obtain ⟨⟨_, w⟩, played, answered⟩ := Option.bind_eq_some_iff.mp answered
  obtain ⟨⟨_, w'⟩, put, same⟩ := Option.map_eq_some_iff.mp answered
  obtain ⟨under, connected, inside⟩ := of_decide_eq_true same
  have apart := attachment_of_appendChild silent put rfl under (.inr connected) ⟨0⟩ inside
  rw [connected] at apart
  exact ⟨w, w', played, put, connected, inside, apart⟩

theorem attachment_of_removeChild_showing : ∃ w w' d,
    silent.play 20 (showing >>= fun _ => .request (.appendChild Document.root ⟨1⟩)) ⟨.ofConfig {} none, ()⟩ =
        some ((), w) ∧
      silent.play 20 (.request (.removeChild Document.root ⟨1⟩)) w = some (true, w') ∧
      w.scene.stage? ⟨0⟩ = some .attached ∧ ⟨0⟩ ∈ (w.scene.edit fun _ => d).componentsIn ⟨1⟩ ∧
      w'.scene.stage? ⟨0⟩ ≠ some .attached := by
  have answered : (silent.play 20 (showing >>= fun _ => .request (.appendChild Document.root ⟨1⟩))
      ⟨.ofConfig {} none, ()⟩).bind (fun r => (r.2.scene.document.removeChild? Document.root ⟨1⟩).bind fun d =>
        (silent.play 20 (.request (.removeChild Document.root ⟨1⟩)) r.2).map fun q =>
          decide (q.1 = true ∧ r.2.scene.document.isConnected ⟨1⟩ = true ∧
            r.2.scene.stage? ⟨0⟩ = some .attached ∧
            ⟨0⟩ ∈ (r.2.scene.edit fun _ => d).componentsIn ⟨1⟩)) = some true := by decide +kernel
  obtain ⟨⟨_, w⟩, played, answered⟩ := Option.bind_eq_some_iff.mp answered
  obtain ⟨d, taken, answered⟩ := Option.bind_eq_some_iff.mp answered
  obtain ⟨⟨removed, w'⟩, cut, same⟩ := Option.map_eq_some_iff.mp answered
  obtain ⟨rfl, near, attached, inside⟩ := of_decide_eq_true same
  have apart := attachment_of_removeChild silent cut taken near ⟨0⟩ inside
  exact ⟨w, w', d, played, cut, attached, inside, apart⟩

def withdrawing : Script Empty Unit (Option Stage × Bool) := do
  showing
  Script.request (.hold ⟨0⟩)
  Script.request (.appendChild Document.root ⟨1⟩)
  let _ ← Script.request (.removeChild Document.root ⟨1⟩)
  Script.request (.release ⟨0⟩)
  let s ← Script.scene
  return (s.stage? ⟨0⟩, s.document.isConnected ⟨1⟩)

/-- That nothing is attached out of the document is true of moves only. -/
example : (silent.play 20 withdrawing ⟨.ofConfig {} none, ()⟩).map Prod.fst =
    some (some .attached, false) := by decide +kernel

end LiveTree
