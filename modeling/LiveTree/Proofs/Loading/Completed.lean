import LiveTree.Proofs.Stages

/-! A component that is completed has been configured. The mark is set when the component has become
ready, and by then nothing leads back to the stages before. -/
namespace LiveTree
variable {κ σ α β : Type}

namespace Scene

def Tidy (s : Scene κ) : Prop :=
  ∀ id c, s.component? id = some c → c.completed = true → c.stage.isConfigured = true

structure Tidies (s t : Scene κ) : Prop where
  ahead : s.Ahead t
  tidy : s.Tidy → t.Tidy

instance : IsPreorder (Scene κ) Tidies where
  refl _ := ⟨Std.Refl.refl _, fun tidy => tidy⟩
  trans _ _ _ first second :=
    ⟨IsTrans.trans _ _ _ first.ahead second.ahead, fun tidy => second.tidy (first.tidy tidy)⟩

namespace Tidies
variable {s t : Scene κ}

theorem of_components (same : t.components = s.components) : s.Tidies t := by
  have found (id) : t.component? id = s.component? id := by rw [component?, same, component?]
  refine ⟨fun id => ?_, fun tidy id c here => tidy id c ((found id).symm.trans here)⟩
  rw [stage?, stage?, found]

theorem modify (s : Scene κ) (id : ComponentId) {f : Component κ → Component κ}
    (forward : ∀ c, s.component? id = some c → Stage.rank (some c.stage) ≤ Stage.rank (some (f c).stage))
    (marked : ∀ c, s.component? id = some c → (f c).completed = true →
      c.completed = true ∨ (f c).stage.isConfigured = true) : s.Tidies (s.modify id f) := by
  refine ⟨fun other => ?_, fun tidy other d found completed => ?_⟩
  · unfold stage?
    rw [component?_modify]
    split
    · next same =>
      subst same
      cases here : s.component? id with
      | none => exact Nat.le_refl _
      | some c => exact forward c here
    · exact Nat.le_refl _
  · rw [component?_modify] at found
    split at found
    · next same =>
      subst same
      obtain ⟨c, here, rfl⟩ := Option.map_eq_some_iff.mp found
      rcases marked c here completed with before | configured
      · refine Stage.isConfigured_of_rank ((forward c here).trans' ?_)
        have started := tidy id c here before
        cases stage : c.stage <;> simp_all [Stage.isConfigured, Stage.rank]
      · exact configured
    · exact tidy other d found completed

end Tidies

theorem Alike.tidies {F : List Field} {s t : Scene κ} (alike : s.Alike F t)
    (out : ∀ f ∈ [Field.stage, .components, .completed], f ∉ F) : s.Tidies t := by
  have stages (id) : t.stage? id = s.stage? id := alike.stage? (fun f member => out f (by grind)) id
  refine ⟨fun id => (congrArg Stage.rank (stages id)).ge, fun tidy id d found completed => ?_⟩
  obtain ⟨c, here, same⟩ := alike.component_of (out _ (by decide)) found
  have stage : d.stage = c.stage := same.view .stage (out _ (by decide))
  have mark : d.completed = c.completed := same.view .completed (out _ (by decide))
  rw [stage]
  exact tidy id c here (mark ▸ completed)

end Scene

def Act.Tidies (m : Act κ α) : Prop := m.Leads Scene.Tidies Scene.Tidies

def Act.TidiesFrom (id : ComponentId) (m : Act κ α) : Prop :=
  ∀ (σ : Type) (p : Point κ σ), 3 ≤ Stage.rank (p.scene.stage? id) →
    m.wp (Leading σ Scene.Tidies Scene.Tidies) (fun _ q => p.scene.Tidies q.scene) p

namespace Act.TidiesFrom
variable {id : ComponentId}

theorem of_tidies {m : Act κ α} (tidies : m.Tidies) : m.TidiesFrom id := fun σ p _ => tidies σ p

theorem bind {m : Act κ β} {f : β → Act κ α} (first : m.TidiesFrom id)
    (second : ∀ b, (f b).TidiesFrom id) : (m >>= f).TidiesFrom id := by
  intro σ p far
  refine (wp_bind _ _).mpr (wp_mono _ (fun b q kept => ?_) (first σ p far))
  have later := second b σ q (far.trans (kept.ahead id))
  exact wp_mono _ (fun _ _ more => IsTrans.trans _ _ _ kept more) later

end Act.TidiesFrom

namespace Act.Tidies

theorem of_touches {F : List Field} {C : List Call.Kind} {m : Act κ α} (touches : m.Touches F C)
    (out : ∀ f ∈ [Field.stage, .components, .completed], f ∉ F) : m.Tidies :=
  .of_within (fun _ _ alike => ⟨alike.tidies out, alike.tidies out⟩) touches

theorem update {f : Scene κ → Scene κ} (same : ∀ s : Scene κ, (f s).components = s.components) :
    (Act.update f).Tidies :=
  Leads.update (fun s => .of_components (same s)) fun s => .of_components (same s)

theorem edit (f : Document → Document) : (Act.edit f : Act κ _).Tidies := update fun _ => rfl

/-- A component may be set to any of the later stages. -/
theorem modify {id : ComponentId} {f : Component κ → Component κ}
    (later : ∀ c, (f c).stage.isConfigured = true) : (Act.modify id f).Tidies := by
  have change (s : Scene κ) : s.Tidies (s.modify id f) := by
    refine .modify s id (fun c _ => ?_) fun c _ _ => .inr (later c)
    have far : Stage.rank (some (f c).stage) = 3 := by
      cases stage : (f c).stage <;> have := later c <;> simp_all [Stage.isConfigured, Stage.rank]
    rw [far]
    cases c.stage <;> decide
  exact Leads.update change change

theorem instantiate (x : NodeId) (d : Definition κ) (owner : Option ComponentId) :
    (Act.instantiate x d owner : Act κ _).Tidies := by
  intro σ p
  refine (wp_bind _ _).mpr (wp_scene.mpr ((wp_bind _ _).mpr ?_))
  have made : p.scene.Tidies { p.scene with components := p.scene.components.push (.new d x owner) } := by
    refine ⟨(Scene.Moves.push p.scene rfl).ahead, fun tidy id c found completed => ?_⟩
    rw [Scene.component?, Arena.get?_push] at found
    split at found
    · cases found
      cases completed
    · exact tidy id c found completed
  refine ⟨made, fun _ => ?_⟩
  have created : (({ p.scene with components := p.scene.components.push (.new d x owner) } :
      Scene κ)).Tidies (Scene.modify { p.scene with components := p.scene.components.push (.new d x owner) }
        ⟨p.scene.components.size⟩ fun c => { c with stage := .created }) := by
    have new (c) (found : ({ p.scene with components := p.scene.components.push (.new d x owner) } :
        Scene κ).component? ⟨p.scene.components.size⟩ = some c) : c = .new d x owner := by
      rw [Scene.component?, Arena.get?_push, if_pos rfl] at found
      exact (Option.some.inj found).symm
    refine .modify _ _ (fun c found => ?_) fun c found completed => ?_
    · cases new c found
      exact Nat.le_succ _
    · cases new c found
      cases completed
  refine (wp_bind _ _).mpr ⟨created, fun _ => ?_⟩
  have rest (id : ComponentId) : (do
      Act.tellParts id .created
      Act.runHook id "created" Hooks.created
      return id : Act κ ComponentId).Tidies :=
    .bind (of_touches (.tellParts _ _) (by decide)) fun _ =>
      .bind (of_touches (.runHook _ _ _) (by decide)) fun _ => .pure _
  exact (rest _).after (IsTrans.trans _ _ _ made created)

theorem createElement (tag : String) : (Act.createElement tag : Act κ _).Tidies :=
  Leads.composes.createElement (fun _ => edit _) instantiate tag

theorem expand (id : ComponentId) (c : Component κ) (light : List NodeId) :
    (Act.expand id c light).Tidies := by
  have text (text : String) : (Act.createText text : Act κ _).Tidies :=
    of_touches (.createText text) (by decide)
  have noted (id : ComponentId) (fault : Fault) : (Act.note (some id) fault : Act κ _).Tidies :=
    of_touches (.note _ _) (by decide)
  have grown := Leads.composes.growBelow (fun f _ => edit f) text createElement
  have templated := Leads.composes.growTemplate (fun _ => update fun _ => rfl) grown
  exact Leads.composes.expand (fun f _ => edit f) noted templated id c light

theorem configure (id : ComponentId) : (Act.configure id : Act κ _).Tidies := by
  refine .withComponent fun c => .ite (.bind .scene fun s => .bind (.each _ fun _ => ?_) ?_) (.pure _)
  · exact of_touches (.configureAttribute _ _ _ _) (by decide)
  refine fun _ => .bind (modify fun _ => rfl) fun _ => .bind (.each _ fun _ => ?_) fun _ => ?_
  · exact of_touches (.reflectDefault _ _ _) (by decide)
  · exact of_touches (.resolveContext id) (by decide)

theorem applyTemplate (id : ComponentId) : (Act.applyTemplate id : Act κ _).Tidies :=
  Leads.composes.applyTemplate expand (fun _ _ => of_touches (.layOut _ _) (by decide))
    (fun _ _ _ => of_touches (.placeLight _ _ _) (by decide)) (fun _ _ _ _ _ => modify fun _ => rfl)
    (fun _ _ => of_touches (.awaitNested _ _) (by decide)) (fun _ => .ask _) id

theorem enter (id : ComponentId) : (Act.enter id : Act κ _).Tidies :=
  .bind (modify fun _ => rfl) fun _ => .bind (of_touches (.tellParts _ _) (by decide)) fun _ =>
    .bind (of_touches (.runHook _ _ _) (by decide)) fun _ => of_touches (.wire _) (by decide)

theorem complete (id : ComponentId) : (Act.complete id : Act κ _).Tidies := by
  refine fun σ p => wp_withComponent (fun c found => ?_) fun _ => Std.Refl.refl p.scene
  split
  · next fine =>
    have expanded : c.stage = .expanded := by simpa using (Bool.and_eq_true_iff.mp fine).2
    have far : 3 ≤ Stage.rank (p.scene.stage? id) := by
      rw [Scene.stage?, found, Option.map_some, expanded]
      exact Nat.le_refl _
    have marked : (Act.modify id fun c : Component κ => { c with completed := true }).TidiesFrom id := by
      intro σ q far
      have change : q.scene.Tidies (q.scene.modify id fun c => { c with completed := true }) := by
        refine .modify q.scene id (fun _ _ => Nat.le_refl _) fun d here _ => .inr ?_
        exact Stage.isConfigured_of_rank (by rwa [Scene.stage?, here] at far)
      exact ⟨change, fun _ => change⟩
    refine TidiesFrom.bind (.of_tidies .scene) (fun s => ?_) σ p far
    refine .bind (.of_tidies (of_touches (.noteMissing _ _) (by decide))) fun _ => ?_
    refine .bind (.of_tidies (.each _ fun o => of_touches (.pushOwner o) (by decide))) fun _ => ?_
    refine .bind (.of_tidies (of_touches (.pushFirst _) (by decide))) fun _ => ?_
    refine .bind (.of_tidies (modify fun _ => rfl)) fun _ => ?_
    refine .bind (.of_tidies (of_touches (.tellParts _ _) (by decide))) fun _ => ?_
    refine .bind (.of_tidies (of_touches (.runHook _ _ _) (by decide))) fun _ => ?_
    refine .bind (.of_tidies (enter id)) fun _ => .bind marked fun _ => .of_tidies ?_
    exact .bind (of_touches (.runHook _ _ _) (by decide)) fun _ => of_touches (.tellWaiting _) (by decide)
  · exact Std.Refl.refl p.scene

theorem release (id : ComponentId) : (Act.release id : Act κ _).Tidies :=
  .withComponent fun _ => .bind (of_touches (touches_drop id) (by decide)) fun _ =>
    .ite (complete _) (.pure _)

theorem attach (id : ComponentId) : (Act.attach id : Act κ _).Tidies :=
  Leads.composes.attach (enter id) fun _ => of_touches (.modifyStrays _ _) (by decide)

theorem detach (id : ComponentId) : (Act.detach id : Act κ _).Tidies := by
  refine .withComponent fun c => ?_
  extract_lets left
  have later (r) : (left r).Tidies := by
    refine .bind (update fun _ => rfl) fun _ => .bind .scene fun s => ?_
    split
    · exact .ite (of_touches (.addStray _ _) (by decide)) (.pure _)
    · exact .pure _
  refine .ite ?_ (later ())
  refine .bind (of_touches (.unwire id) (by decide)) fun _ => .bind (modify fun _ => rfl) fun _ => ?_
  exact .bind (of_touches (.tellParts _ _) (by decide)) fun _ =>
    .bind (of_touches (.runHook _ _ _) (by decide)) later

theorem connect (id : ComponentId) : (Act.connect id : Act κ _).Tidies :=
  Leads.composes.connect (fun _ => update fun _ => rfl) (configure id) (applyTemplate id) (attach id)

theorem request (r : Request κ) : r.act.Tidies := by
  cases r with
  | register d =>
    exact Leads.composes.register connect d (fun _ => of_touches (.note _ _) (by decide))
      (fun _ => update fun _ => rfl) (fun k => of_touches (.registered k) (by decide))
      fun x _ owner => instantiate x _ owner
  | createElement tag => exact createElement tag
  | release id => exact .ask _
  | appendChild parent child =>
    exact Leads.composes.appendChild detach connect parent child (edit _)
  | removeChild parent child =>
    exact Leads.composes.removeChild detach (fun _ => edit _) parent child
  | finishLoading =>
    exact Leads.composes.finishLoading connect (update fun _ => rfl) (of_touches .resolveWaiting (by decide))
  | _ =>
    refine of_touches (.request _) ?_
    dsimp only [Touches.requested]
    decide

theorem call (c : Call κ) : c.Leads Scene.Tidies Scene.Tidies := by
  cases c with
  | write id name v origin => exact of_touches (.write id name v origin) (by decide)
  | connect id => exact connect id
  | release id => exact release id
  | service s id arguments => exact of_touches (.service s id arguments) (by decide)
  | deliver x e => exact of_touches (.deliver x e) (by decide)
  | callback k o => trivial
  | apply f arguments => trivial

end Act.Tidies

/-- Whatever consumer code does, a component that is completed has been configured. -/
theorem tidies_of_run (env : Environment κ σ) (fuel : Nat) (m : Script κ σ α) (w : World κ σ)
    (s t : Scene κ) (step : .change s t ∈ (env.record fuel m w).steps) : s.Tidies t :=
  env.record_changes Act.Tidies.call Act.Tidies.request step

end LiveTree
