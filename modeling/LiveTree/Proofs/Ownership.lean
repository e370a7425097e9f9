import LiveTree.Proofs.Contract.Invariant
import LiveTree.Proofs.Readiness

/-! Owners. Components are numbered in the order in which they are made, and each has a smaller number than
all that it owns, whether it got them from its template, by an upgrade or in a callback. So the way from a
component to its owner, from there to the owner's owner and so on comes to an end, wherever their nodes have
gone meanwhile. -/
namespace LiveTree
variable {κ σ α : Type}

namespace Scene

inductive Ascends (s : Scene κ) : ComponentId → List ComponentId → Prop
  | top {id : ComponentId} : (s.component? id).bind Component.owner = none → s.Ascends id []
  | step {id owner : ComponentId} {rest : List ComponentId} :
    (s.component? id).bind Component.owner = some owner → s.Ascends owner rest → s.Ascends id (owner :: rest)

structure Senior (s : Scene κ) : Prop where
  owner : ∀ id c owner, s.component? id = some c → c.owner = some owner → owner.index < id.index
  template : ∀ owner, s.templateOwner = some owner → owner.index < s.components.size

def Populates (s t : Scene κ) : Prop := s.components.size ≤ t.components.size

instance : IsPreorder (Scene κ) Populates where
  refl _ := Nat.le_refl _
  trans _ _ _ := Nat.le_trans

theorem lt_size_iff {s : Scene κ} {id : ComponentId} :
    id.index < s.components.size ↔ (s.component? id).isSome = true := by
  simp [component?, Arena.get?, Arena.size]

theorem lt_size_of_componentAbove? {s : Scene κ} {x : NodeId} {id : ComponentId}
    (above : s.componentAbove? x = some id) : id.index < s.components.size := by
  obtain ⟨y, -, here⟩ := List.exists_of_findSome?_eq_some above
  obtain ⟨c, found, -⟩ := componentAt?_spec here
  exact lt_size_iff.mpr (Option.isSome_of_eq_some found)

namespace Senior
variable {s t : Scene κ}

theorem of_same (senior : s.Senior) (components : t.components = s.components)
    (template : t.templateOwner = s.templateOwner) : t.Senior ∧ s.Populates t := by
  refine ⟨⟨?_, ?_⟩, (congrArg Arena.size components).ge⟩
  · unfold component?
    rw [components]
    exact senior.owner
  · rw [template, components]
    exact senior.template

theorem of_alike {F : List Field} (senior : s.Senior) (alike : s.Alike F t) (components : .components ∉ F)
    (template : .templateOwner ∉ F) : t.Senior ∧ s.Populates t := by
  have size : t.components.size = s.components.size := alike.view .components components
  have current : t.templateOwner = s.templateOwner := alike.view .templateOwner template
  refine ⟨⟨fun id d owner found owned => ?_, ?_⟩, size.ge⟩
  · obtain ⟨c, before, same⟩ := alike.component_of components found
    exact senior.owner id c owner before (same.owner.symm.trans owned)
  · rw [current, size]
    exact senior.template

theorem push (senior : s.Senior) {c : Component κ}
    (older : ∀ owner, c.owner = some owner → owner.index < s.components.size) :
    ({ s with components := s.components.push c } : Scene κ).Senior ∧
      s.Populates { s with components := s.components.push c } := by
  have grown : s.components.size ≤ (s.components.push c).size := by
    rw [Arena.size_push]
    exact Nat.le_succ _
  refine ⟨⟨fun id d owner found owned => ?_, fun owner current => ?_⟩, grown⟩
  · rw [component?_push] at found
    split at found
    · next new =>
      cases found
      rw [new]
      exact older owner owned
    · exact senior.owner id d owner found owned
  · exact (senior.template owner current).trans_le grown

theorem expanding (senior : s.Senior) {owner : Option ComponentId}
    (older : ∀ id, owner = some id → id.index < s.components.size) :
    ({ s with templateOwner := owner } : Scene κ).Senior ∧ s.Populates { s with templateOwner := owner } :=
  ⟨⟨senior.owner, older⟩, Nat.le_refl _⟩

/-- The number of a component is more than enough as a bound, for it falls with every step. -/
theorem ascends_ownersUpTo (senior : s.Senior) {most : Nat} {id : ComponentId} (enough : id.index < most) :
    s.Ascends id (s.ownersUpTo most id) := by
  induction most generalizing id with
  | zero => exact absurd enough (Nat.not_lt_zero _)
  | succ most ih =>
    cases above : (s.component? id).bind Component.owner with
    | none =>
      rw [ownersUpTo, above]
      exact .top above
    | some owner =>
      obtain ⟨c, found, owned⟩ := Option.bind_eq_some_iff.mp above
      have smaller := senior.owner id c owner found owned
      rw [ownersUpTo, above]
      exact .step above (ih (by omega))

theorem ascends_owners (senior : s.Senior) {id : ComponentId} (there : (s.component? id).isSome = true) :
    s.Ascends id (s.owners id) :=
  senior.ascends_ownersUpTo (lt_size_iff.mpr there)

theorem falls (senior : s.Senior) {id : ComponentId} {owners : List ComponentId} (up : s.Ascends id owners) :
    (id :: owners).Pairwise fun one other => other.index < one.index := by
  induction up with
  | top => exact List.pairwise_singleton _ _
  | @step id owner rest above up ih =>
    obtain ⟨c, found, owned⟩ := Option.bind_eq_some_iff.mp above
    have smaller := senior.owner id c owner found owned
    refine List.pairwise_cons.mpr ⟨fun other met => ?_, ih⟩
    rcases List.mem_cons.mp met with rfl | met
    · exact smaller
    · exact (List.rel_of_pairwise_cons ih met).trans smaller

end Senior

theorem Ascends.unique {s : Scene κ} {id : ComponentId} {owners others : List ComponentId}
    (one : s.Ascends id owners) (other : s.Ascends id others) : owners = others := by
  induction one generalizing others with
  | top none =>
    cases other with
    | top => rfl
    | step above => exact nomatch none.symm.trans above
  | step above _ ih =>
    cases other with
    | top none => exact nomatch none.symm.trans above
    | step above' up =>
      cases above.symm.trans above'
      rw [ih up]

theorem senior_ofConfig (config : Config) (journal : Option Journal) :
    (ofConfig config journal : Scene κ).Senior := by
  have none (id : ComponentId) : (ofConfig config journal : Scene κ).component? id = none := rfl
  refine ⟨fun id c _ found => ?_, fun _ current => nomatch current⟩
  exact nomatch (none id).symm.trans found

end Scene

abbrev Act.Begets (s : Scene κ) (m : Act κ α) : Prop :=
  m.Upholds Scene.Senior Scene.Populates (fun _ => True) s

namespace Act.Begets
variable {s : Scene κ}

theorem of_touches {F : List Field} {C : List Call.Kind} {m : Act κ α} (touches : m.Touches F C)
    (out : .components ∉ F ∧ .templateOwner ∉ F) : m.Begets s :=
  .of_within (fun _ _ senior alike => senior.of_alike alike out.1 out.2) (fun _ _ => trivial) touches

theorem update {f : Scene κ → Scene κ} (components : ∀ t : Scene κ, (f t).components = t.components)
    (template : ∀ t : Scene κ, (f t).templateOwner = t.templateOwner) : (Act.update f).Begets s :=
  Upholds.update fun t senior _ => senior.of_same (components t) (template t)

theorem edit (f : Document → Document) : (Act.edit f : Act κ _).Begets s :=
  update (fun _ => rfl) fun _ => rfl

theorem instantiate (x : NodeId) (d : Definition κ) {owner : Option ComponentId}
    (older : ∀ id, owner = some id → id.index < s.components.size) :
    (Act.instantiate x d owner).Begets s := by
  refine .sceneBind fun t _ since => .bind (.update fun u senior later => ?_) fun _ => ?_
  · exact senior.push fun id owned => (older id owned).trans_le (since.trans later)
  · refine .bind (of_touches (.setStage _ _) (by decide)) fun _ => ?_
    refine .bind (of_touches (.tellParts _ _) (by decide)) fun _ => ?_
    exact .bind (of_touches (.runHook _ _ _) (by decide)) fun _ => .pure _

/-- An element that is made for a template belongs to the component that is expanded. -/
theorem createElement (tag : String) : (Act.createElement tag).Begets s := by
  refine .sceneBind fun t senior _ => ?_
  dsimp -zeta only
  refine .bind (edit _) fun _ => ?_
  split
  · exact .bind (instantiate _ _ senior.template) fun _ => .pure _
  · exact .pure _

/-- Whatever is made in the midst of an expansion, the component that owned what was made before is still
there to own what is made afterwards. -/
theorem growTemplate {id : ComponentId} (there : id.index < s.components.size) (x : NodeId)
    (template : List Markup) : (Act.growTemplate id x template).Begets s := by
  refine .sceneBind fun t senior since => ?_
  have text (text : String) : (Act.createText text : Act κ _).Begets t :=
    of_touches (.createText text) (by decide)
  refine .bind (.update fun u senior later => senior.expanding ?_) fun _ => ?_
  · rintro _ ⟨⟩
    exact there.trans_le (since.trans later)
  refine .bind (Upholds.composes.growBelow (fun f _ => edit f) text createElement x template) fun _ => ?_
  refine .bind (.update fun u still later => still.expanding ?_) fun _ => .pure _
  exact fun owner current => (senior.template owner current).trans_le later

theorem expand {id : ComponentId} (there : id.index < s.components.size) (c : Component κ)
    (light : List NodeId) : (Act.expand id c light).Begets s := by
  unfold Act.expand
  split
  · exact .pure _
  · exact .bind (of_touches (.note _ _) (by decide)) fun _ => .pure _
  · exact .bind (edit _) fun _ => .bind (growTemplate there _ _) fun _ => .pure _

theorem applyTemplate (id : ComponentId) : (Act.applyTemplate id).Begets s := by
  refine .withComponent fun t c _ _ found => .ite (fun _ => ?_) fun _ => .pure _
  have there := Scene.lt_size_iff.mpr (Option.isSome_of_eq_some found)
  refine .sceneBind fun u _ since => .bind (expand (there.trans_le since) _ _) fun template => ?_
  refine .bind (of_touches (.layOut _ _) (by decide)) fun laid => ?_
  obtain ⟨layout, tree⟩ := laid
  dsimp -zeta only
  extract_lets placed
  have later (text) : (placed text).Begets u :=
    .bind (of_touches (C := []) (.modify fun c => .applied c _ _ _ _) (by decide)) fun _ =>
      .bind (of_touches (.awaitNested _ _) (by decide)) fun _ => .ask _ trivial
  exact .ite (fun _ => .bind (of_touches (.placeLight _ _ _) (by decide)) later) fun _ => later _

theorem connect (id : ComponentId) : (Act.connect id).Begets s :=
  Upholds.composes.connect (fun _ => update (fun _ => rfl) fun _ => rfl) (of_touches (.configure id) (by decide))
    (applyTemplate id) (of_touches (.attach id) (by decide))

/-- What is upgraded belongs to the nearest component above, so to one that exists. -/
theorem upgrade (d : Definition κ) (nodes : List NodeId) : (Act.upgrade d nodes).Begets s := by
  induction nodes generalizing s with
  | nil => exact .pure _
  | cons x rest ih =>
    refine .sceneBind fun t _ _ => .bind (instantiate x d fun _ => Scene.lt_size_of_componentAbove?) fun _ => ?_
    exact .bind ih fun _ => .pure _

theorem register (d : Definition κ) : (Act.register d).Begets s := by
  refine .sceneBind fun t _ _ => .ite (fun _ => .pure _) fun _ => ?_
  have told (k : κ) : (do let _ ← callback k .registered : Act κ Unit).Begets t :=
    of_touches (.bind (.registered k) fun _ => .pure _) (by decide)
  refine .bind (.each _ fun fault => of_touches (.note none fault) (by decide)) fun _ => ?_
  refine .bind (update (fun _ => rfl) fun _ => rfl) fun _ => .bind (.each _ told) fun _ => ?_
  exact .sceneBind fun u _ _ => .bind (upgrade _ _) fun ids => .bind (.each ids connect) fun _ => .pure _

theorem request (r : Request κ) : r.act.Begets s := by
  cases r with
  | register d => exact register d
  | createElement tag => exact createElement tag
  | appendChild parent child =>
    exact Upholds.composes.appendChild (fun id => of_touches (.detach id) (by decide)) connect parent child (edit _)
  | finishLoading =>
    exact Upholds.composes.finishLoading connect (update (fun _ => rfl) fun _ => rfl)
      (of_touches .resolveWaiting (by decide))
  | _ =>
    refine of_touches (.request _) ?_
    dsimp only [Touches.requested]
    decide

theorem call (c : Call κ) : c.Upholds Scene.Senior Scene.Populates (fun _ => True) s := by
  cases c with
  | write id name v origin => exact of_touches (.write id name v origin) (by decide)
  | connect id => exact connect id
  | release id => exact of_touches (.release id) (by decide)
  | service x id arguments => exact of_touches (.service x id arguments) (by decide)
  | deliver x e => exact of_touches (.deliver x e) (by decide)
  | callback k o => trivial
  | apply f arguments => trivial

end Act.Begets

namespace Scene

theorem mem_componentIds_iff {s : Scene κ} {id : ComponentId} :
    id ∈ s.componentIds ↔ (s.component? id).isSome = true := by
  rw [← lt_size_iff]
  refine List.mem_map.trans ⟨?_, fun old => ⟨id.index, List.mem_range.mpr old, rfl⟩⟩
  rintro ⟨i, old, rfl⟩
  exact List.mem_range.mp old

theorem nodup_uids (s : Scene κ) : (s.componentIds.map ComponentId.uid).Nodup := by
  rw [componentIds, List.map_map]
  exact List.nodup_range.map fun _ _ same => Nat.succ.inj same

theorem Placed.componentAt?_eq_some {s : Scene κ} (placed : s.Placed) {x : NodeId} {id : ComponentId} :
    s.componentAt? x = some id ↔ ∃ c, s.component? id = some c ∧ c.node = x := by
  refine ⟨componentAt?_spec, ?_⟩
  rintro ⟨c, found, rfl⟩
  exact placed.componentAt? found

end Scene

/-- Whatever is asked of a live tree and whatever callbacks do, in each scene between operations and in each
that is met in the midst of one: an owner exists and has a smaller number than what it owns, no number is
given twice, and the component at a node is the one that names it. So the way up from a component comes to
an end: the owners met are those that completion goes through, none of them twice. -/
theorem owners_of_reachable (env : Environment κ σ) {w : World κ σ} (reached : env.Reachable w)
    (fuel : Nat) (m : Script κ σ α) {s : Scene κ}
    (met : s = w.scene ∨ ∃ x ∈ (env.record fuel m w).steps, s ∈ x.scenes) :
    (∀ id c owner, s.component? id = some c → c.owner = some owner →
      owner.uid < id.uid ∧ (s.component? owner).isSome = true) ∧
    ((s.componentIds.map ComponentId.uid).Nodup ∧
      ∀ id, id ∈ s.componentIds ↔ (s.component? id).isSome = true) ∧
    (∀ x id, s.componentAt? x = some id ↔ ∃ c, s.component? id = some c ∧ c.node = x) ∧
    ∀ id, (s.component? id).isSome = true →
      (∀ owners, s.Ascends id owners ↔ owners = s.owners id) ∧ (id :: s.owners id).Nodup := by
  have requests (r : Request κ) (s) : r.act.Begets s := Act.Begets.request r
  have calls (c : Call κ) (s) : c.Upholds Scene.Senior Scene.Populates (fun _ => True) s := Act.Begets.call c
  have senior : s.Senior := reached.upholds_met requests calls env Scene.senior_ofConfig fuel m met
  have placed : s.Placed := by
    rcases met with rfl | ⟨x, step, met⟩
    · exact reached.placed
    · exact env.record_placed reached.placed fuel m step met
  refine ⟨fun id c owner found owned => ?_, ⟨s.nodup_uids, fun _ => Scene.mem_componentIds_iff⟩,
    fun _ _ => placed.componentAt?_eq_some, fun id there => ?_⟩
  · have smaller := senior.owner id c owner found owned
    have bound := Scene.lt_size_iff.mpr (Option.isSome_of_eq_some found)
    exact ⟨Nat.succ_lt_succ smaller, Scene.lt_size_iff.mp (smaller.trans bound)⟩
  · have up := senior.ascends_owners there
    refine ⟨fun owners => ⟨fun other => other.unique up, ?_⟩, (senior.falls up).imp ?_⟩
    · rintro rfl
      exact up
    · rintro one _ falls rfl
      exact Nat.lt_irrefl _ falls

def littering : Environment Unit Unit where
  script _ _ := do
    let _ ← Script.request (.createElement "x-kit")
    return .ok .undefined
  apply _ _ store := (.undefined, store)

def moving : Script Unit Unit (List (Option ComponentId)) := do
  Script.request (.setDefaults [])
  let _ ← Script.request (.register (Declaration.define { tag := "x-kit" }))
  let _ ← Script.request (.register (Declaration.define {
    tag := "x-cat"
    template := some "<x-kit></x-kit>"
    hooks := { created := some () } }))
  let _ ← Script.request (.register (Declaration.define {
    tag := "x-den"
    template := some "<div><x-cat></x-cat><x-mat></x-mat></div>" }))
  let den ← Script.request (.createElement "x-den")
  Script.request (.appendChild Document.root den)
  let _ ← Script.request (.register (Declaration.define { tag := "x-mat" }))
  let s ← Script.scene
  Script.request (.appendChild Document.root (((s.component? ⟨1⟩).map Component.node).getD den))
  let s ← Script.scene
  return s.componentIds.map fun id => (s.component? id).bind Component.owner

theorem owners_of_reachable_moving : ∃ w,
    littering.play 30 moving ⟨.ofConfig {} none, ()⟩ =
        some ([none, some ⟨0⟩, some ⟨0⟩, some ⟨1⟩, some ⟨0⟩], w) ∧
      w.scene.owners ⟨3⟩ = [⟨1⟩, ⟨0⟩] ∧ w.scene.Ascends ⟨3⟩ (w.scene.owners ⟨3⟩) := by
  have answered : (littering.play 30 moving ⟨.ofConfig {} none, ()⟩).map (fun r =>
      (r.1, (r.2.scene.component? ⟨3⟩).isSome, r.2.scene.owners ⟨3⟩)) =
        some ([none, some ⟨0⟩, some ⟨0⟩, some ⟨1⟩, some ⟨0⟩], true, [⟨1⟩, ⟨0⟩]) := by
    decide +kernel
  obtain ⟨⟨answer, w⟩, played, same⟩ := Option.map_eq_some_iff.mp answered
  obtain ⟨rfl, same⟩ := Prod.mk.inj same
  obtain ⟨there, owners⟩ := Prod.mk.inj same
  have reached : littering.Reachable w := (Environment.Reachable.start _ none ()).play moving played
  obtain ⟨-, -, -, up⟩ := owners_of_reachable littering reached 0 moving (.inl rfl)
  exact ⟨w, played, owners, ((up ⟨3⟩ there).1 _).mpr rfl⟩

end LiveTree
