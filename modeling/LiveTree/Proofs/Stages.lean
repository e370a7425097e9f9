import LiveTree.Proofs.Contract.Relation
import LiveTree.Proofs.Readiness.Acts

/-! How stages change. Each act looks at the stage of a component when it begins, and consumer code
may have moved the component on by the time the act writes the next stage. What holds nevertheless of
every single change is this: nothing leads back to what comes before the configured stage, and only
an attached component is ever detached. -/
namespace LiveTree
variable {κ σ α β : Type}

namespace Stage

inductive Moves : Option Stage → Option Stage → Prop
  | stay (a : Option Stage) : Moves a a
  | make : Moves none (some unattached)
  | create : Moves (some unattached) (some created)
  | configure {a : Stage} (made : a ≠ unattached) : Moves (some a) (some configured)
  | advance {a b : Stage} (started : a.isConfigured = true)
    (next : b = expanded ∨ b = ready ∨ b = attached) : Moves (some a) (some b)
  | detach : Moves (some attached) (some detached)

def rank : Option Stage → Nat
  | none => 0
  | some unattached => 1
  | some created => 2
  | some _ => 3

theorem Moves.rank_le {a b : Option Stage} (moves : Moves a b) : rank a ≤ rank b := by
  cases moves with
  | stay => exact Nat.le_refl _
  | make | create | detach => decide
  | @configure a made => cases a <;> decide
  | @advance a b started next => rcases next with rfl | rfl | rfl <;> cases a <;> decide

theorem isConfigured_of_rank {a : Stage} (far : 3 ≤ rank (some a)) : a.isConfigured = true := by
  cases a <;> first | rfl | exact absurd far (by decide)

end Stage

namespace Scene

def Moves (s t : Scene κ) : Prop := ∀ id, Stage.Moves (s.stage? id) (t.stage? id)

def Ahead (s t : Scene κ) : Prop := ∀ id, Stage.rank (s.stage? id) ≤ Stage.rank (t.stage? id)

theorem Moves.ahead {s t : Scene κ} (moves : s.Moves t) : s.Ahead t := fun id => (moves id).rank_le

theorem Moves.of_stages {s t : Scene κ} (same : ∀ id, t.stage? id = s.stage? id) : s.Moves t :=
  fun id => same id ▸ .stay _

theorem Moves.setStage {s : Scene κ} {id : ComponentId} {stage : Stage} {f : Component κ → Component κ}
    (sets : ∀ c, (f c).stage = stage)
    (moves : ∀ a, s.stage? id = some a → Stage.Moves (some a) (some stage)) :
    s.Moves (s.modify id f) := by
  intro other
  by_cases same : id = other
  · subst same
    unfold stage?
    rw [component?_modify, if_pos rfl]
    cases found : s.component? id with
    | none => exact .stay none
    | some c =>
      rw [Option.map_some, Option.map_some, Option.map_some, sets]
      exact moves c.stage (by rw [stage?, found, Option.map_some])
  · unfold stage?
    rw [component?_modify, if_neg same]
    exact .stay _

theorem Moves.push (s : Scene κ) {c : Component κ} (fresh : c.stage = .unattached) :
    s.Moves { s with components := s.components.push c } := by
  intro id
  unfold stage? component?
  rw [Arena.get?_push]
  split
  · next new =>
    have missing : s.components.get? id.index = none := Array.getElem?_eq_none (Nat.le_of_eq new.symm)
    rw [missing, Option.map_some, fresh]
    exact .make
  · exact .stay _

end Scene

instance : IsPreorder (Scene κ) Scene.Ahead where
  refl _ _ := Nat.le_refl _
  trans _ _ _ first second id := (first id).trans (second id)

def Act.Stages (m : Act κ α) : Prop := m.Leads Scene.Moves Scene.Ahead

def Act.StagesFrom (id : ComponentId) (n : Nat) (m : Act κ α) : Prop :=
  ∀ (σ : Type) (p : Point κ σ), n ≤ Stage.rank (p.scene.stage? id) →
    m.wp (Leading σ Scene.Moves Scene.Ahead) (fun _ q => p.scene.Ahead q.scene) p

theorem Act.Stages.of_touches {F : List Field} {C : List Call.Kind} {m : Act κ α}
    (touches : m.Touches F C) (out : ∀ f ∈ [Field.stage, .components], f ∉ F) : m.Stages := by
  refine .of_within (fun s t alike => ?_) touches
  have moves : s.Moves t := .of_stages fun id => alike.stage? out id
  exact ⟨moves, moves.ahead⟩

/-- Without calls the stages stay exactly as they are. -/
theorem Act.wp_stages {F : List Field} {m : Act κ α} (touches : m.Touches F [])
    (out : ∀ f ∈ [Field.stage, .components], f ∉ F) (p : Point κ σ) :
    m.wp (Leading σ Scene.Moves Scene.Ahead)
      (fun _ q => ∀ id, q.scene.stage? id = p.scene.stage? id) p := by
  refine wp_of_within (I := fun q => ∀ id, q.scene.stage? id = p.scene.stage? id) ?_ ?_
    (fun _ => rfl) (touches p.scene)
  · intro q t kept alike
    have same (id) : t.stage? id = q.scene.stage? id := alike.stage? out id
    exact ⟨.of_stages same, fun _ id => (same id).trans (kept id)⟩
  · exact fun c q _ none => absurd none List.not_mem_nil

namespace Act.StagesFrom
variable {id : ComponentId} {n : Nat}

theorem of_stages {m : Act κ α} (stages : m.Stages) : m.StagesFrom id n := fun σ p _ => stages σ p

theorem bind {m : Act κ β} {f : β → Act κ α} (first : m.StagesFrom id n)
    (second : ∀ b, (f b).StagesFrom id n) : (m >>= f).StagesFrom id n := by
  intro σ p far
  refine (wp_bind _ _).mpr (wp_mono _ (fun b q kept => ?_) (first σ p far))
  have later := second b σ q (far.trans (kept id))
  exact wp_mono _ (fun _ _ more => IsTrans.trans _ _ _ kept more) later

theorem modify {stage : Stage} {f : Component κ → Component κ} (sets : ∀ c, (f c).stage = stage)
    (moves : ∀ a, n ≤ Stage.rank (some a) → Stage.Moves (some a) (some stage)) :
    (Act.modify id f).StagesFrom id n := by
  intro σ p far
  have change : p.scene.Moves (p.scene.modify id f) :=
    .setStage sets fun a here => moves a (here ▸ far)
  exact ⟨change, fun _ => change.ahead⟩

end Act.StagesFrom

namespace Act.Stages

theorem update {f : Scene κ → Scene κ} (same : ∀ s : Scene κ, (f s).components = s.components) :
    (Act.update f).Stages := by
  have moves (s : Scene κ) : s.Moves (f s) := .of_stages fun id => by
    rw [Scene.stage?, Scene.component?, same, Scene.stage?, Scene.component?]
  exact Leads.update moves fun s => (moves s).ahead

/-- An act that looks at the component's stage first. -/
theorem withStage {id : ComponentId} {a : α} {f : Component κ → Act κ α}
    (body : ∀ c, (f c).StagesFrom id (Stage.rank (some c.stage))) :
    (withComponent id a f).Stages := by
  refine fun σ p => wp_withComponent (fun c found => body c σ p ?_) fun _ => Std.Refl.refl p.scene
  rw [Scene.stage?, found]
  exact Nat.le_refl _

theorem instantiate (x : NodeId) (d : Definition κ) (owner : Option ComponentId) :
    (Act.instantiate x d owner : Act κ _).Stages := by
  intro σ p
  refine (wp_bind _ _).mpr (wp_scene.mpr ((wp_bind _ _).mpr ?_))
  have made : p.scene.Moves { p.scene with components := p.scene.components.push (.new d x owner) } :=
    .push p.scene rfl
  refine ⟨made, fun _ => ?_⟩
  have new (a) (here : ({ p.scene with components := p.scene.components.push (.new d x owner) } :
      Scene κ).stage? ⟨p.scene.components.size⟩ = some a) : Stage.Moves (some a) (some .created) := by
    rw [Scene.stage?, Scene.component?, Arena.get?_push, if_pos rfl] at here
    cases here
    exact .create
  have created := Scene.Moves.setStage (f := fun c => { c with stage := .created }) (fun _ => rfl) new
  refine (wp_bind _ _).mpr ⟨created, fun _ => ?_⟩
  have rest (id : ComponentId) : (do
      Act.tellParts id .created
      Act.runHook id "created" Hooks.created
      return id : Act κ ComponentId).Stages :=
    .bind (of_touches (.tellParts _ _) (by decide)) fun _ =>
      .bind (of_touches (.runHook _ _ _) (by decide)) fun _ => .pure _
  exact (rest _).after (IsTrans.trans _ _ _ made.ahead created.ahead)

theorem edit (f : Document → Document) : (Act.edit f : Act κ _).Stages := update fun _ => rfl

theorem createElement (tag : String) : (Act.createElement tag : Act κ _).Stages :=
  Leads.composes.createElement (fun _ => edit _) instantiate tag

theorem expand (id : ComponentId) (c : Component κ) (light : List NodeId) :
    (Act.expand id c light).Stages := by
  have text (text : String) : (Act.createText text : Act κ _).Stages :=
    of_touches (.createText text) (by decide)
  have noted (id : ComponentId) (fault : Fault) : (Act.note (some id) fault : Act κ _).Stages :=
    of_touches (.note _ _) (by decide)
  have grown := Leads.composes.growBelow (fun f _ => edit f) text createElement
  have templated := Leads.composes.growTemplate (fun _ => update fun _ => rfl) grown
  exact Leads.composes.expand (fun f _ => edit f) noted templated id c light

theorem configure (id : ComponentId) : (Act.configure id : Act κ _).Stages := by
  refine withStage fun c => ?_
  split
  · next created =>
    rw [created]
    refine .bind (.of_stages .scene) fun s => .bind (.of_stages (.each _ fun _ => ?_)) fun _ => ?_
    · exact of_touches (.configureAttribute _ _ _ _) (by decide)
    refine .bind (.modify (fun _ => rfl) fun a made => .configure ?_) fun _ => ?_
    · rintro rfl
      exact absurd made (by decide)
    refine .of_stages (.bind (.each _ fun _ => ?_) fun _ => of_touches (.resolveContext id) (by decide))
    exact of_touches (.reflectDefault _ _ _) (by decide)
  · exact .of_stages (.pure _)

theorem applyTemplate (id : ComponentId) : (Act.applyTemplate id : Act κ _).Stages := by
  refine withStage fun c => ?_
  split
  · next configured =>
    rw [configured]
    refine .bind (.of_stages .scene) fun s => .bind (.of_stages (expand _ _ _)) fun template => ?_
    refine .bind (.of_stages (of_touches (.layOut _ _) (by decide))) fun laid => ?_
    obtain ⟨layout, tree⟩ := laid
    dsimp -zeta only
    extract_lets placed
    have later (text) : (placed text).StagesFrom id (Stage.rank (some .configured)) := by
      refine .bind (.modify (fun _ => rfl) fun a far => ?_) fun _ => .of_stages ?_
      · exact .advance (Stage.isConfigured_of_rank far) (.inl rfl)
      · exact .bind (of_touches (.awaitNested _ _) (by decide)) fun _ => .ask _
    split
    · exact .bind (.of_stages (of_touches (.placeLight _ _ _) (by decide))) later
    · exact later _
  · exact .of_stages (.pure _)

theorem enter (id : ComponentId) : (Act.enter id : Act κ _).StagesFrom id 3 := by
  refine .bind (.modify (fun _ => rfl) fun a far => ?_) fun _ => .of_stages ?_
  · exact .advance (Stage.isConfigured_of_rank far) (.inr (.inr rfl))
  · exact .bind (of_touches (.tellParts _ _) (by decide)) fun _ =>
      .bind (of_touches (.runHook _ _ _) (by decide)) fun _ => of_touches (.wire _) (by decide)

theorem complete (id : ComponentId) : (Act.complete id : Act κ _).Stages := by
  refine withStage fun c => ?_
  split
  · next fine =>
    have expanded : c.stage = .expanded := by simpa using (Bool.and_eq_true_iff.mp fine).2
    rw [expanded]
    refine .bind (.of_stages .scene) fun s => ?_
    refine .bind (.of_stages (of_touches (.noteMissing _ _) (by decide))) fun _ => ?_
    refine .bind (.of_stages (.each _ fun o => of_touches (.pushOwner o) (by decide))) fun _ => ?_
    refine .bind (.of_stages (of_touches (.pushFirst _) (by decide))) fun _ => ?_
    refine .bind (.modify (fun _ => rfl) fun a far => ?_) fun _ => ?_
    · exact .advance (Stage.isConfigured_of_rank far) (.inr (.inl rfl))
    refine .bind (.of_stages (of_touches (.tellParts _ _) (by decide))) fun _ => ?_
    refine .bind (.of_stages (of_touches (.runHook _ _ _) (by decide))) fun _ => ?_
    refine .bind (enter id) fun _ => .of_stages ?_
    refine .bind (of_touches (F := [.completed]) (C := []) (.modify fun c =>
      .put c .completed _ (by decide)) (by decide)) fun _ => ?_
    exact .bind (of_touches (.runHook _ _ _) (by decide)) fun _ => of_touches (.tellWaiting _) (by decide)
  · exact .of_stages (.pure _)

theorem release (id : ComponentId) : (Act.release id : Act κ _).Stages :=
  Leads.withComponent fun _ => .bind (of_touches (touches_drop id) (by decide)) fun _ =>
    .ite (complete _) (.pure _)

theorem attach (id : ComponentId) : (Act.attach id : Act κ _).StagesFrom id 3 := by
  intro σ p far
  refine wp_withComponent (fun c _ => ?_) fun _ => Std.Refl.refl p.scene
  refine StagesFrom.bind (enter id) (fun _ => .of_stages (.bind .scene fun s => ?_)) σ p far
  split
  · exact .ite (of_touches (.modifyStrays _ _) (by decide)) (.pure _)
  · exact .pure _

theorem detach (id : ComponentId) : (Act.detach id : Act κ _).Stages := by
  refine fun σ p => wp_withComponent (fun c found => ?_) fun _ => Std.Refl.refl p.scene
  extract_lets left
  have later (r) : (left r).Stages := by
    refine .bind (update fun _ => rfl) fun _ => .bind .scene fun s => ?_
    split
    · exact .ite (of_touches (.addStray _ _) (by decide)) (.pure _)
    · exact .pure _
  split
  · next attached =>
    -- Nothing is called before the stage is written, so it is still the one that was looked at.
    refine (wp_bind _ _).mpr (wp_mono _ (fun _ q same => ?_) (wp_stages (.unwire id) (by decide) p))
    have here : q.scene.stage? id = some .attached := by
      rw [same, Scene.stage?, found, Option.map_some, attached]
    have change : q.scene.Moves (q.scene.modify id fun c => { c with stage := .detached }) :=
      .setStage (fun _ => rfl) fun a there => by
        rw [here] at there
        cases there
        exact .detach
    have rest : (do
        Act.tellParts id .detached
        let r ← Act.runHook id "detached" Hooks.detached
        left r : Act κ Unit).Stages :=
      .bind (of_touches (.tellParts _ _) (by decide)) fun _ =>
        .bind (of_touches (.runHook _ _ _) (by decide)) later
    refine (wp_bind _ _).mpr ⟨change, fun _ => rest.after fun other => ?_⟩
    rw [← same other]
    exact change.ahead other
  · exact later () σ p

theorem connect (id : ComponentId) : (Act.connect id : Act κ _).Stages := by
  refine withStage fun c => ?_
  split
  · refine .of_stages (.bind .scene fun s => .ite (update fun _ => rfl) ?_)
    exact .bind (configure id) fun _ => applyTemplate _
  · next detached =>
    rw [detached]
    exact attach id
  · exact .of_stages (.pure _)

theorem request (r : Request κ) : r.act.Stages := by
  cases r with
  | register d =>
    exact Leads.composes.register connect d (fun _ => of_touches (.note _ _) (by decide))
      (fun _ => update fun _ => rfl) (fun k => of_touches (.registered k) (by decide))
      fun x _ owner => instantiate x _ owner
  | createElement tag => exact createElement tag
  | appendChild parent child =>
    exact Leads.composes.appendChild detach connect parent child (edit _)
  | removeChild parent child =>
    exact Leads.composes.removeChild detach (fun _ => edit _) parent child
  | finishLoading =>
    exact Leads.composes.finishLoading connect (update fun _ => rfl) (of_touches .resolveWaiting (by decide))
  | _ =>
    refine of_touches (.request _) ?_
    dsimp only [Touches.requested]
    decide

theorem call (c : Call κ) : c.Leads Scene.Moves Scene.Ahead := by
  cases c with
  | write id name v origin => exact of_touches (.write id name v origin) (by decide)
  | connect id => exact connect id
  | release id => exact release id
  | service s id arguments => exact of_touches (.service s id arguments) (by decide)
  | deliver x e => exact of_touches (.deliver x e) (by decide)
  | callback k o => trivial
  | apply f arguments => trivial

end Act.Stages

/-- Whatever consumer code does, a component is made once and created once, it is detached from the
attached stage only, and it never comes back to a stage before the configured one. -/
theorem stages_of_run (env : Environment κ σ) (fuel : Nat) (m : Script κ σ α) (w : World κ σ)
    (s t : Scene κ) (step : .change s t ∈ (env.record fuel m w).steps) : s.Moves t :=
  env.record_changes Act.Stages.call Act.Stages.request step

end LiveTree
