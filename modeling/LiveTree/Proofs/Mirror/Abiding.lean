import LiveTree.Proofs.Light.Unbound
import LiveTree.Proofs.Mirror.Naming

/-! Names are kept. A component that has been expanded knows nodes by name in two ways, by its refs and by
its binding tree. Neither changes any more: bindings come to the sites of the tree and go, but the sites
stay and are called as before. -/
namespace LiveTree
variable {κ σ α β : Type}

namespace BindingTree
variable {t : BindingTree} {name : String}

theorem named?_still (t : BindingTree) (name : String) : t.still.named? name = t.named? name := by
  refine named?_congr ?_
  change (t.sites.cells.map Site.still).toList.map _ = _
  rw [Array.toList_map, List.map_map]
  rfl

theorem named?_modifySite (t : BindingTree) (i : Nat) {f : Site → Site}
    (keeps : ∀ site, (f site).node = site.node ∧ (f site).stableId = site.stableId) (name : String) :
    (t.modifySite i f).named? name = t.named? name := by
  refine named?_congr (List.ext_getElem? fun j => ?_)
  rw [List.getElem?_map, List.getElem?_map, getElem?_sites, getElem?_sites, site?, modifySite, Arena.get?_modify]
  split
  · rw [Option.map_map]
    refine congrFun (congrArg Option.map (funext fun site => ?_)) _
    rw [Function.comp, (keeps site).1, (keeps site).2]
  · rfl

end BindingTree

def Component.Named (c : Component κ) : Prop :=
  c.stage ≠ .created ∧ ∀ name x, name ≠ "root" → name ≠ "content" → c.refs.get? name = some x →
    (c.bindings.bind (·.named? name)) = some x

def Scene.Names (id : ComponentId) (s : Scene κ) : Prop := ∃ c, s.component? id = some c ∧ c.Named

def Scene.Abides (id : ComponentId) (s t : Scene κ) : Prop := s.Names id → t.Names id

instance {id : ComponentId} : IsPreorder (Scene κ) (Scene.Abides id) where
  refl _ named := named
  trans _ _ _ first second named := second (first named)

namespace Scene.Abides
variable {id other : ComponentId} {s t : Scene κ}

theorem of_same (same : t.component? id = s.component? id) : s.Abides id t :=
  fun ⟨c, found, named⟩ => ⟨c, same.trans found, named⟩

theorem of_alike {F : List Field} (alike : s.Alike F t)
    (out : ∀ f ∈ [Field.stage, .bindings, .refs], f ∉ F) : s.Abides id t := by
  rintro ⟨c, found, staged, named⟩
  obtain ⟨d, there, same⟩ := alike.component id c found
  have stage : d.stage = c.stage := same.view .stage (out _ (by decide))
  have refs : d.refs = c.refs := same.view .refs (out _ (by decide))
  have trees : d.bindings.map BindingTree.still = c.bindings.map BindingTree.still :=
    same.view .bindings (out _ (by decide))
  refine ⟨d, there, stage ▸ staged, fun name x root content here => ?_⟩
  have known (c : Component κ) : c.bindings.bind (·.named? name) =
      (c.bindings.map BindingTree.still).bind (·.named? name) := by
    rw [Option.bind_map]
    exact congrArg _ (funext fun t => (t.named?_still name).symm)
  rw [known, trees, ← known]
  exact named name x root content (refs ▸ here)

theorem modify (s : Scene κ) (other : ComponentId) {f : Component κ → Component κ}
    (keeps : ∀ c : Component κ, c.Named → (f c).Named) : s.Abides id (s.modify other f) := by
  rintro ⟨c, found, named⟩
  by_cases same : other = id
  · exact ⟨f c, by rw [component?_modify, if_pos same, found, Option.map_some], keeps c named⟩
  · exact ⟨c, by rw [component?_modify, if_neg same, found], named⟩

theorem modify_of_ne (s : Scene κ) (apart : other ≠ id) (f : Component κ → Component κ) :
    s.Abides id (s.modify other f) := of_same (by rw [component?_modify, if_neg apart])

end Scene.Abides

def Act.Abides (id : ComponentId) (m : Act κ α) : Prop := m.Leads ⊤ (Scene.Abides id)

namespace Act.Abides
variable {id other : ComponentId}

theorem of_touches {F : List Field} {C : List Call.Kind} {m : Act κ α} (touches : m.Touches F C)
    (out : ∀ f ∈ [Field.stage, .bindings, .refs], f ∉ F) : m.Abides id :=
  .of_within (fun _ _ alike => ⟨trivial, .of_alike alike out⟩) touches

theorem bind {m : Act κ β} {f : β → Act κ α} (first : m.Abides id) (second : ∀ b, (f b).Abides id) :
    (m >>= f).Abides id := Leads.bind first second

theorem composes : Composes fun {_} (m : Act κ _) => m.Abides id := Leads.composes

theorem modify (other : ComponentId) {f : Component κ → Component κ}
    (keeps : ∀ c : Component κ, c.Named → (f c).Named) : (Act.modify other f).Abides id :=
  Leads.update (fun _ => trivial) fun s => .modify s other keeps

theorem modify_of_ne (apart : other ≠ id) (f : Component κ → Component κ) : (Act.modify other f).Abides id :=
  Leads.update (fun _ => trivial) fun s => .modify_of_ne s apart f

theorem update {f : Scene κ → Scene κ} (same : ∀ s : Scene κ, (f s).components = s.components) :
    (Act.update f).Abides id :=
  Leads.update (fun _ => trivial) fun s => .of_same (by rw [Scene.component?, same, Scene.component?])

theorem setStage (other : ComponentId) {stage : Stage} (later : stage ≠ .created) :
    (Act.setStage other stage : Act κ _).Abides id := modify other fun _ named => ⟨later, named.2⟩

/-- If the component is not known by name yet, there is nothing to keep. -/
theorem of_names {m : Act κ α} (known : ∀ (σ : Type) (p : Point κ σ), p.scene.Names id →
    m.wp (Leading σ ⊤ (Scene.Abides id)) (fun _ q => p.scene.Abides id q.scene) p) : m.Abides id := by
  intro σ p
  by_cases here : p.scene.Names id
  · exact known σ p here
  · have free (m : Act κ α) (p : Point κ σ) : m.wp (Leading σ ⊤ (Scene.Abides id)) (fun _ _ => True) p := by
      induction m generalizing p with
      | done a => trivial
      | read next ih => exact ih _ _
      | put s next ih => exact ⟨trivial, fun _ => ih _⟩
      | call c next ih => exact ⟨trivial, fun _ _ _ => ⟨trivial, fun _ => ih _ _⟩⟩
    exact wp_mono m (fun _ _ _ named => absurd named here) (free m p)

theorem instantiate (x : NodeId) (d : Definition κ) (owner : Option ComponentId) :
    (Act.instantiate x d owner : Act κ _).Abides id := by
  refine of_names fun σ p ⟨c, found, _⟩ => (wp_bind _ _).mpr (wp_scene.mpr ?_)
  have apart : (⟨p.scene.components.size⟩ : ComponentId) ≠ id := by
    rintro rfl
    exact Nat.lt_irrefl _ (Array.getElem?_eq_some_iff.mp found).1
  generalize (⟨p.scene.components.size⟩ : ComponentId) = new at apart
  have pushed : (Act.update fun s : Scene κ =>
      { s with components := s.components.push (.new d x owner) }).Abides id := by
    refine Leads.update (fun _ => trivial) fun s ⟨c, found, named⟩ => ⟨c, ?_, named⟩
    rw [s.component?_push, if_neg, found]
    rintro same
    exact Nat.ne_of_lt (Array.getElem?_eq_some_iff.mp found).1 same
  refine (bind pushed fun _ => bind (modify_of_ne apart _) fun _ => ?_) σ p
  refine bind (of_touches (.tellParts _ _) (by decide)) fun _ => ?_
  exact bind (of_touches (.runHook _ _ _) (by decide)) fun _ => composes.pure _

theorem edit (f : Document → Document) : (Act.edit f : Act κ Unit).Abides id := update fun _ => rfl

theorem createElement (tag : String) : (Act.createElement tag : Act κ _).Abides id :=
  composes.createElement (fun _ => edit _) instantiate tag

theorem expand (other : ComponentId) (c : Component κ) (light : List NodeId) :
    (Act.expand other c light).Abides id := by
  have text (text : String) : (Act.createText text : Act κ _).Abides id :=
    of_touches (.createText text) (by decide)
  have noted (other : ComponentId) (fault : Fault) : (Act.note (some other) fault : Act κ _).Abides id :=
    of_touches (.note _ _) (by decide)
  have grown := composes.growBelow (fun f _ => edit f) text createElement
  exact composes.expand (fun f _ => edit f) noted (composes.growTemplate (fun _ => update fun _ => rfl) grown)
    other c light

theorem configure (apart : other ≠ id) : (Act.configure other : Act κ _).Abides id := by
  refine composes.withComponent fun c => composes.ite ?_ (composes.pure _)
  refine composes.sceneBind fun s => bind (composes.each _ fun _ => ?_) fun _ => ?_
  · exact of_touches (.configureAttribute _ _ _ _) (by decide)
  refine bind (modify_of_ne apart _) fun _ => bind (composes.each _ fun _ => ?_) fun _ => ?_
  · exact of_touches (.reflectDefault _ _ _) (by decide)
  · exact of_touches (.resolveContext other) (by decide)

theorem applyTemplate (apart : other ≠ id) : (Act.applyTemplate other : Act κ _).Abides id := by
  refine composes.withComponent fun c => composes.ite ?_ (composes.pure _)
  refine composes.sceneBind fun s => bind (expand _ _ _) fun template => ?_
  refine bind (of_touches (.layOut _ _) (by decide)) fun laid => ?_
  obtain ⟨layout, tree⟩ := laid
  dsimp -zeta only
  extract_lets placed
  have later (text) : (placed text).Abides id :=
    bind (modify_of_ne apart _) fun _ => bind (of_touches (.awaitNested _ _) (by decide)) fun _ => Leads.ask _
  exact composes.ite (bind (of_touches (.placeLight _ _ _) (by decide)) later) (later _)

theorem enter (other : ComponentId) : (Act.enter other : Act κ _).Abides id :=
  bind (setStage other nofun) fun _ => bind (of_touches (.tellParts _ _) (by decide)) fun _ =>
    bind (of_touches (.runHook _ _ _) (by decide)) fun _ => of_touches (.wire _) (by decide)

theorem attach (other : ComponentId) : (Act.attach other : Act κ _).Abides id :=
  composes.attach (enter other) fun owner => of_touches (.modifyStrays owner _) (by decide)

theorem connect (other : ComponentId) : (Act.connect other : Act κ _).Abides id := by
  by_cases apart : other = id
  · subst apart
    refine of_names fun σ p ⟨c, found, staged, _⟩ => wp_withComponent (fun d here => ?_) fun _ => Std.Refl.refl p.scene
    cases here.symm.trans found
    split
    · next created => exact absurd created staged
    · exact attach other σ p
    · exact Std.Refl.refl p.scene
  · exact composes.connect (fun _ => update fun _ => rfl) (configure apart) (applyTemplate apart) (attach other)

theorem detach (other : ComponentId) : (Act.detach other : Act κ _).Abides id := by
  refine composes.withComponent fun c => ?_
  extract_lets left
  have later (r) : (left r).Abides id := by
    refine bind (update fun _ => rfl) fun _ => composes.sceneBind fun s => ?_
    split
    · refine composes.ite (modify _ fun c named => ?_) (composes.pure _)
      split <;> exact named
    · exact composes.pure _
  refine composes.ite ?_ (later ())
  refine bind (of_touches (.unwire other) (by decide)) fun _ => bind (setStage other nofun) fun _ => ?_
  refine bind (of_touches (.tellParts _ _) (by decide)) fun _ => ?_
  exact bind (of_touches (.runHook _ _ _) (by decide)) later

theorem complete (other : ComponentId) : (Act.complete other : Act κ _).Abides id := by
  refine composes.withComponent fun c => composes.ite (composes.sceneBind fun s => ?_) (composes.pure _)
  refine bind (of_touches (.noteMissing _ _) (by decide)) fun _ => ?_
  refine bind (composes.each _ fun o => of_touches (.pushOwner o) (by decide)) fun _ => ?_
  refine bind (of_touches (.pushFirst _) (by decide)) fun _ => bind (setStage other nofun) fun _ => ?_
  refine bind (of_touches (.tellParts _ _) (by decide)) fun _ => ?_
  refine bind (of_touches (.runHook _ _ _) (by decide)) fun _ => bind (enter other) fun _ => ?_
  refine bind (modify other fun _ named => named) fun _ => ?_
  exact bind (of_touches (.runHook _ _ _) (by decide)) fun _ => of_touches (.tellWaiting _) (by decide)

theorem release (other : ComponentId) : (Act.release other : Act κ _).Abides id :=
  composes.withComponent fun _ => bind (modify other fun _ named => named) fun _ =>
    composes.ite (complete _) (composes.pure _)

/-- Bindings come and go without the names of their sites. -/
theorem rebind (other : ComponentId) {f : BindingTree → BindingTree}
    (keeps : ∀ t name, (f t).named? name = t.named? name) :
    (Act.modify other fun c : Component κ => (c.modifyBindings f).rebound).Abides id := by
  refine modify other fun c ⟨staged, named⟩ => ⟨staged, fun name x root content here => ?_⟩
  refine Eq.trans ?_ (named name x root content here)
  change (c.bindings.map f).bind _ = _
  rw [Option.bind_map]
  exact congrArg _ (funext fun t => keeps t name)

theorem addBinding (other : ComponentId) (expression target stableId : String) :
    (Act.addBinding other expression target stableId : Act κ _).Abides id := by
  unfold Act.addBinding
  extract_lets text
  split
  · exact composes.pure _
  · refine composes.withComponent fun c => ?_
    split
    · exact composes.pure _
    · refine bind (rebind other fun t => t.named?_modifySite _ fun _ => ⟨rfl, rfl⟩) fun _ => ?_
      refine bind (composes.each _ fun b => of_touches (.uninstallWriteBack b) (by decide)) fun _ => ?_
      exact composes.ite (bind (of_touches (.push _ _ _) (by decide)) fun _ => composes.pure _)
        (composes.pure _)

theorem removeBinding (other : ComponentId) (expression target stableId : String) :
    (Act.removeBinding other expression target stableId : Act κ _).Abides id := by
  refine composes.withComponent fun c => ?_
  split
  · exact composes.pure _
  · split
    · exact composes.pure _
    · refine composes.ite (bind (rebind other fun t => t.named?_modifySite _ fun _ => ⟨rfl, rfl⟩) fun _ => ?_)
        (composes.pure _)
      exact bind (of_touches (.uninstallWriteBack _) (by decide)) fun _ => composes.pure _

theorem service (s : Service) (other : ComponentId) (arguments : List Value) :
    (Act.service s other arguments : Act κ _).Abides id := by
  cases s with
  | addBinding => exact bind (addBinding _ _ _ _) fun _ => composes.pure _
  | removeBinding => exact bind (removeBinding _ _ _ _) fun _ => composes.pure _
  | log level => exact bind (of_touches (.log _ _ _) (by decide)) fun _ => composes.pure _
  | localize => exact bind (of_touches (.localize _ _ _) (by decide)) fun _ => composes.pure _
  | addMessages =>
    unfold Act.service
    extract_lets text
    dsimp only
    split
    · exact of_touches (.addMessages _ _ _) (by decide)
    · exact composes.pure _

theorem call (c : Call κ) : c.Leads ⊤ (Scene.Abides id) := by
  cases c with
  | write id name v origin => exact of_touches (.write id name v origin) (by decide)
  | connect id => exact connect id
  | release id => exact release id
  | service s id arguments => exact service s id arguments
  | deliver x e => exact of_touches (.deliver x e) (by decide)
  | callback k o => trivial
  | apply f arguments => trivial

theorem request (r : Request κ) : r.act.Abides id := by
  cases r with
  | register d =>
    exact composes.register connect d (fun _ => of_touches (.note _ _) (by decide)) (fun _ => update fun _ => rfl)
      (fun k => of_touches (.registered k) (by decide)) fun x _ owner => instantiate x _ owner
  | createElement tag => exact createElement tag
  | appendChild parent child => exact composes.appendChild detach connect parent child (edit _)
  | removeChild parent child => exact composes.removeChild detach (fun _ => edit _) parent child
  | finishLoading =>
    exact composes.finishLoading connect (update fun _ => rfl) (of_touches .resolveWaiting (by decide))
  | addBinding id expression target stableId => exact addBinding id expression target stableId
  | removeBinding id expression target stableId => exact removeBinding id expression target stableId
  | _ =>
    refine of_touches (.request _) ?_
    dsimp only [Touches.requested]
    decide

end Act.Abides
end LiveTree
