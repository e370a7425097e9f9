import LiveTree.Proofs.Contract.Preserving
import LiveTree.Proofs.Placement
import LiveTree.Proofs.Stages

/-! Bindings come with the template. A component gets them when its template is expanded, at no other
time and in no other way, so that one that has not been connected has none. -/
namespace LiveTree
variable {κ σ α β : Type}

def Scene.Binds (s t : Scene κ) : Prop :=
  ∀ id d, t.component? id = some d → d.bindings.isSome = true →
    d.stage = .expanded ∨ ∃ c, s.component? id = some c ∧ c.bindings.isSome = true

namespace Scene.Binds
variable {s t : Scene κ}

theorem of_same (same : ∀ id, (t.component? id).map Component.bindings =
    (s.component? id).map Component.bindings) : s.Binds t := by
  intro id d found bound
  have before := same id
  rw [found, Option.map_some] at before
  obtain ⟨c, here, equal⟩ := Option.map_eq_some_iff.mp before.symm
  exact .inr ⟨c, here, equal ▸ bound⟩

theorem of_alike {F : List Field} (alike : s.Alike F t)
    (out : ∀ f ∈ [Field.bindings, .components], f ∉ F) : s.Binds t := by
  intro id d found bound
  obtain ⟨c, here, same⟩ := alike.component_of (out _ (by decide)) found
  have trees : d.bindings.map BindingTree.still = c.bindings.map BindingTree.still :=
    same.view .bindings (out _ (by decide))
  refine .inr ⟨c, here, ?_⟩
  rw [← Option.isSome_map, ← trees, Option.isSome_map, bound]

theorem modify (s : Scene κ) (id : ComponentId) {f : Component κ → Component κ}
    (binds : ∀ c, (f c).bindings.isSome = true → (f c).stage = .expanded ∨ c.bindings.isSome = true) :
    s.Binds (s.modify id f) := by
  intro other d found bound
  rw [component?_modify] at found
  split at found
  · obtain ⟨c, here, rfl⟩ := Option.map_eq_some_iff.mp found
    exact (binds c bound).imp_right fun before => ⟨c, here, before⟩
  · exact .inr ⟨d, found, bound⟩

theorem push (s : Scene κ) (d : Definition κ) (x : NodeId) (owner : Option ComponentId) :
    s.Binds { s with components := s.components.push (.new d x owner) } := by
  intro id e found bound
  rw [s.component?_push] at found
  split at found
  · cases found
    cases bound
  · exact .inr ⟨e, found, bound⟩

end Scene.Binds

def Act.Binds (m : Act κ α) : Prop := m.Leads Scene.Binds ⊤

namespace Act.Binds

theorem of_touches {F : List Field} {C : List Call.Kind} {m : Act κ α} (touches : m.Touches F C)
    (out : ∀ f ∈ [Field.bindings, .components], f ∉ F) : m.Binds :=
  .of_within (fun _ _ alike => ⟨.of_alike alike out, trivial⟩) touches

theorem bind {m : Act κ β} {f : β → Act κ α} (first : m.Binds) (second : ∀ b, (f b).Binds) :
    (m >>= f).Binds := Leads.bind first second

theorem composes : Composes fun {_} (m : Act κ _) => m.Binds := Leads.composes

theorem modify (id : ComponentId) {f : Component κ → Component κ}
    (binds : ∀ c, (f c).bindings.isSome = true → (f c).stage = .expanded ∨ c.bindings.isSome = true) :
    (Act.modify id f).Binds := Leads.update (fun s => .modify s id binds) fun _ => trivial

theorem edit (f : Document → Document) : (Act.edit f : Act κ Unit).Binds :=
  Leads.update (fun _ => .of_same fun _ => rfl) fun _ => trivial

theorem instantiate (x : NodeId) (d : Definition κ) (owner : Option ComponentId) :
    (Act.instantiate x d owner : Act κ _).Binds := by
  have made : (Act.update fun s : Scene κ =>
      { s with components := s.components.push (.new d x owner) }).Binds :=
    Leads.update (fun s => .push s d x owner) fun _ => trivial
  refine composes.sceneBind fun s => bind made fun _ => ?_
  refine bind (of_touches (.setStage _ _) (by decide)) fun _ => ?_
  refine bind (of_touches (.tellParts _ _) (by decide)) fun _ => ?_
  exact bind (of_touches (.runHook _ _ _) (by decide)) fun _ => composes.pure _

theorem createElement (tag : String) : (Act.createElement tag : Act κ _).Binds :=
  composes.createElement (fun _ => edit _) instantiate tag

theorem expand (id : ComponentId) (c : Component κ) (light : List NodeId) :
    (Act.expand id c light).Binds := by
  have owned (owner : Option ComponentId) :
      (Act.update fun s : Scene κ => { s with templateOwner := owner }).Binds :=
    Leads.update (fun _ => .of_same fun _ => rfl) fun _ => trivial
  have text (text : String) : (Act.createText text : Act κ _).Binds :=
    of_touches (.createText text) (by decide)
  have noted (id : ComponentId) (fault : Fault) : (Act.note (some id) fault : Act κ _).Binds :=
    of_touches (.note _ _) (by decide)
  have grown := composes.growBelow (fun f _ => edit f) text createElement
  exact composes.expand (fun f _ => edit f) noted (composes.growTemplate owned grown) id c light

theorem applyTemplate (id : ComponentId) : (Act.applyTemplate id : Act κ _).Binds := by
  refine composes.applyTemplate expand ?_ ?_ ?_ ?_ (fun _ => Leads.ask _) id
  · exact fun _ _ => of_touches (.layOut _ _) (by decide)
  · exact fun _ _ _ => of_touches (.placeLight _ _ _) (by decide)
  · exact fun _ _ _ _ _ => modify _ fun _ _ => .inl rfl
  · exact fun _ _ => of_touches (.awaitNested _ _) (by decide)

theorem connect (id : ComponentId) : (Act.connect id : Act κ _).Binds := by
  have queued (ids : Scene κ → List ComponentId) :
      (Act.update fun s : Scene κ => { s with pending := ids s }).Binds :=
    Leads.update (fun _ => .of_same fun _ => rfl) fun _ => trivial
  exact composes.connect queued (of_touches (.configure id) (by decide)) (applyTemplate id)
    (of_touches (.attach id) (by decide))

theorem addBinding (id : ComponentId) (expression target stableId : String) :
    (Act.addBinding id expression target stableId : Act κ _).Binds := by
  unfold Act.addBinding
  extract_lets text
  split
  · exact composes.pure _
  · refine composes.withComponent fun c => ?_
    split
    · exact composes.pure _
    · refine bind (modify _ fun d bound => .inr ?_) fun _ => ?_
      · rwa [← Option.isSome_map]
      refine bind (composes.each _ fun b => of_touches (.uninstallWriteBack b) (by decide)) fun _ => ?_
      exact composes.ite (bind (of_touches (.push _ _ _) (by decide)) fun _ => composes.pure _)
        (composes.pure _)

theorem removeBinding (id : ComponentId) (expression target stableId : String) :
    (Act.removeBinding id expression target stableId : Act κ _).Binds := by
  refine composes.withComponent fun c => ?_
  split
  · exact composes.pure _
  · split
    · exact composes.pure _
    · refine composes.ite (bind (modify _ fun d bound => .inr ?_) fun _ => ?_) (composes.pure _)
      · rwa [← Option.isSome_map]
      · exact bind (of_touches (.uninstallWriteBack _) (by decide)) fun _ => composes.pure _

theorem service (s : Service) (id : ComponentId) (arguments : List Value) :
    (Act.service s id arguments : Act κ _).Binds := by
  cases s with
  | addBinding => exact bind (addBinding _ _ _ _) fun _ => composes.pure _
  | removeBinding => exact bind (removeBinding _ _ _ _) fun _ => composes.pure _
  | log level => exact bind (of_touches (.log _ _ _) (by decide)) fun _ => composes.pure _
  | localize => exact bind (of_touches (.localize _ _ _) (by decide)) fun _ => composes.pure _
  | addMessages =>
    unfold Act.service
    extract_lets text
    dsimp only
    split
    · exact of_touches (.addMessages _ _ _) (by decide)
    · exact composes.pure _

theorem call (c : Call κ) : c.Leads Scene.Binds ⊤ := by
  cases c with
  | write id name v origin => exact of_touches (.write id name v origin) (by decide)
  | connect id => exact connect id
  | release id => exact of_touches (.release id) (by decide)
  | service s id arguments => exact service s id arguments
  | deliver x e => exact of_touches (.deliver x e) (by decide)
  | callback k o => trivial
  | apply f arguments => trivial

theorem request (r : Request κ) : r.act.Binds := by
  cases r with
  | register d =>
    exact composes.register connect d (fun _ => of_touches (.note _ _) (by decide))
      (fun _ => Leads.update (fun _ => .of_same fun _ => rfl) fun _ => trivial)
      (fun k => of_touches (.registered k) (by decide)) fun x _ owner => instantiate x _ owner
  | createElement tag => exact createElement tag
  | appendChild parent child =>
    exact composes.appendChild (fun id => of_touches (.detach id) (by decide)) connect parent child (edit _)
  | finishLoading =>
    exact composes.finishLoading connect (Leads.update (fun _ => .of_same fun _ => rfl) fun _ => trivial)
      (of_touches .resolveWaiting (by decide))
  | addBinding id expression target stableId => exact addBinding id expression target stableId
  | removeBinding id expression target stableId => exact removeBinding id expression target stableId
  | _ =>
    refine of_touches (.request _) ?_
    dsimp only [Touches.requested]
    decide

end Act.Binds

def Scene.Unbound (s : Scene κ) : Prop :=
  ∀ id c, s.component? id = some c → c.stage.isConfigured = false → c.bindings = none

/-- Every scene of a run is sound, its components have places of their own, and those that are not
configured have no bindings. -/
theorem unbound_of_run (env : Environment κ σ) {fuel : Nat} {m : Script κ σ α} {config : Config}
    {journal : Option Journal} {store : σ} {x : Step κ σ}
    (step : x ∈ (env.record fuel m ⟨.ofConfig config journal, store⟩).steps) {s : Scene κ}
    (met : s ∈ x.scenes) : s.Placed ∧ s.Unbound := by
  refine env.record_scenes (I := fun s => s.Placed ∧ s.Unbound)
    ⟨Scene.placed_ofConfig _ _, fun _ _ found => by cases found⟩ ?_ step met
  intro s t change here
  refine ⟨placed_of_run env fuel m config journal store s t change, fun id d found early => ?_⟩
  by_contra bound
  have moves := stages_of_run env fuel m _ s t change id
  have binds := env.record_changes Act.Binds.call Act.Binds.request change id d found
    (Option.ne_none_iff_isSome.mp bound)
  rcases binds with expanded | ⟨c, before, bound⟩
  · rw [expanded] at early
    cases early
  · have none : c.bindings = none := by
      refine here.2 id c before ?_
      simp only [Scene.stage?, before, found, Option.map_some] at moves
      have rank := moves.rank_le
      revert early rank
      cases d.stage <;> cases c.stage <;> decide
    rw [none] at bound
    cases bound

end LiveTree
