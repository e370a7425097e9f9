import LiveTree.Proofs.Document.Growth
import LiveTree.Proofs.Loading.Completed
import LiveTree.Proofs.Loading.Trims
import LiveTree.Proofs.Readiness

/-! What has to be done before a component is configured, and what is left to do. A component is due
if its node is in the document and it has not been configured; it is ripe if all components above it
have been. Operations may leave nothing due that was not due before, and put nothing unripe below. -/
namespace LiveTree
variable {κ : Type} {s t u : Scene κ} {id other : ComponentId} {x y : NodeId}

namespace Scene

def Fresh (s : Scene κ) (id : ComponentId) (x : NodeId) : Prop :=
  ∃ c, s.component? id = some c ∧ c.node = x ∧ c.stage.isConfigured = false

def Configured (s : Scene κ) (id : ComponentId) : Prop :=
  ∃ c, s.component? id = some c ∧ c.stage.isConfigured = true

def Due (s : Scene κ) (id : ComponentId) : Prop := ∃ x, s.Fresh id x ∧ s.document.isConnected x = true

def Covers (s : Scene κ) (id : ComponentId) (y : NodeId) : Prop :=
  ∃ x, s.Fresh id x ∧ s.document.Under y x

def Precedes (s : Scene κ) (other id : ComponentId) : Prop := ∃ x, s.Fresh id x ∧ s.Covers other x

def Ripe (s : Scene κ) (id : ComponentId) : Prop := ∀ other, ¬s.Precedes other id

structure Sited (s : Scene κ) : Prop extends s.Placed where
  rooted : 0 < s.document.size
  top : s.document.parent? Document.root = none
  tidy : s.Tidy

structure Regular (s : Scene κ) : Prop extends s.Sited where
  born : ∀ id, s.stage? id ≠ some .unattached

/-- From one scene to a later one no component is gone or thrown back, none has become due, and none that is
not configured has come above an old node. -/
structure Eases (s t : Scene κ) : Prop where
  size : s.document.size ≤ t.document.size
  node : ∀ id c, s.component? id = some c → ∃ d, t.component? id = some d ∧ d.node = c.node
  configured : ∀ id, s.Configured id → t.Configured id
  due : ∀ id, t.Due id → s.Due id
  covers : ∀ id y, y.index < s.document.size → t.Covers id y → s.Covers id y
  loading : t.loading = s.loading
  pending : t.pending = s.pending

instance : IsPreorder (Scene κ) Eases where
  refl _ := ⟨Nat.le_refl _, fun _ c found => ⟨c, found, rfl⟩, fun _ done => done, fun _ due => due,
    fun _ _ _ covers => covers, rfl, rfl⟩
  trans s t u first second := by
    refine ⟨first.size.trans second.size, fun id c found => ?_, fun id done => ?_, fun id due => ?_,
      fun id y old covers => ?_, second.loading.trans first.loading, second.pending.trans first.pending⟩
    · obtain ⟨d, there, same⟩ := first.node id c found
      obtain ⟨e, later, same'⟩ := second.node id d there
      exact ⟨e, later, same'.trans same⟩
    · exact second.configured id (first.configured id done)
    · exact first.due id (second.due id due)
    · exact first.covers id y old (second.covers id y (old.trans_le first.size) covers)

theorem Fresh.stage (fresh : s.Fresh id x) : ¬s.Configured id := by
  rintro ⟨d, there, configured⟩
  obtain ⟨c, found, -, unconfigured⟩ := fresh
  cases there.symm.trans found
  rw [unconfigured] at configured
  cases configured

theorem Fresh.node_eq (fresh : s.Fresh id x) (fresh' : s.Fresh id y) : x = y := by
  obtain ⟨c, found, rfl, -⟩ := fresh
  obtain ⟨d, there, rfl, -⟩ := fresh'
  cases there.symm.trans found
  rfl

theorem fresh_or_configured {c : Component κ} (found : s.component? id = some c) :
    s.Fresh id c.node ∨ s.Configured id := by
  cases stage : c.stage.isConfigured with
  | false => exact .inl ⟨c, found, rfl, stage⟩
  | true => exact .inr ⟨c, found, stage⟩

theorem Configured.ahead (ahead : s.Ahead t) (configured : s.Configured id) : t.Configured id := by
  obtain ⟨c, found, stage⟩ := configured
  have far := ahead id
  unfold stage? at far
  rw [found] at far
  have reached : 3 ≤ Stage.rank ((t.component? id).map Component.stage) := by
    refine far.trans' ?_
    rw [Option.map_some]
    cases here : c.stage <;> simp_all [Stage.isConfigured, Stage.rank]
  cases there : t.component? id with
  | none =>
    rw [there] at reached
    exact absurd reached (Nat.not_succ_le_zero 2)
  | some d =>
    rw [there] at reached
    exact ⟨d, there, Stage.isConfigured_of_rank reached⟩

theorem Placed.bound (placed : s.Placed) (fresh : s.Fresh id x) : x.index < s.document.size := by
  obtain ⟨c, found, rfl, -⟩ := fresh
  exact placed.inside id c found

/-- Where a configured component is there is no other. -/
theorem Placed.not_fresh (placed : s.Placed) (configured : s.Configured id)
    (node : ∀ c, s.component? id = some c → c.node = x) : ¬s.Fresh other x := by
  rintro ⟨d, there, same, stage⟩
  obtain ⟨c, found, started⟩ := configured
  cases placed.apart other id d c there found (same.trans (node c found).symm)
  cases there.symm.trans found
  rw [stage] at started
  cases started

theorem Tidy.not_completed (tidy : s.Tidy) {c : Component κ} (fresh : s.Fresh id x)
    (found : s.component? id = some c) : c.completed = false := by
  obtain ⟨d, there, -, stage⟩ := fresh
  cases found.symm.trans there
  refine Bool.eq_false_iff.mpr fun completed => ?_
  rw [tidy id c found completed] at stage
  cases stage

/-- A fresh component of a later scene was one before, if it was there. -/
theorem Eases.fresh (eases : s.Eases t) {c : Component κ} (found : s.component? id = some c)
    (fresh : t.Fresh id x) : s.Fresh id x := by
  obtain ⟨d, there, node⟩ := eases.node id c found
  have same : d.node = x := by
    obtain ⟨e, later, same, -⟩ := fresh
    cases later.symm.trans there
    exact same
  refine same ▸ node ▸ (fresh_or_configured found).resolve_right fun configured => ?_
  exact fresh.stage (eases.configured id configured)

/-- What precedes a component later on did so before, if the component was there. -/
theorem Eases.precedes (eases : s.Eases t) (placed : s.Placed) {c : Component κ}
    (found : s.component? id = some c) (precedes : t.Precedes other id) : s.Precedes other id := by
  obtain ⟨x, fresh, covers⟩ := precedes
  have before := eases.fresh found fresh
  exact ⟨x, before, eases.covers other x (placed.bound before) covers⟩

theorem Precedes.stage (precedes : s.Precedes other id) : ¬s.Configured other := by
  obtain ⟨_, -, _, fresh, -⟩ := precedes
  exact fresh.stage

theorem Sited.due_of_covers (sited : s.Sited) (there : s.document.isConnected x = true)
    (covers : s.Covers id x) : s.Due id := by
  obtain ⟨y, fresh, below⟩ := covers
  exact ⟨y, fresh, sited.document.isConnected_of_under sited.top there below⟩

/-- The components at a node and below it, told by their nodes. -/
theorem Placed.mem_componentsIn_iff (placed : s.Placed) : id ∈ s.componentsIn y ↔
    ∃ c, s.component? id = some c ∧ (c.node = y ∨ s.document.Under c.node y) := by
  refine List.mem_filterMap.trans ⟨?_, ?_⟩
  · rintro ⟨x, deep, there⟩
    obtain ⟨c, found, rfl⟩ := componentAt?_spec there
    exact ⟨c, found, placed.document.mem_subtree_iff_under.mp deep⟩
  · rintro ⟨c, found, within⟩
    exact ⟨c.node, placed.document.mem_subtree_iff_under.mpr within, placed.componentAt? found⟩

theorem Placed.mem_componentsIn (placed : s.Placed) (fresh : s.Fresh id x)
    (within : x = y ∨ s.document.Under x y) : id ∈ s.componentsIn y := by
  obtain ⟨c, found, rfl, -⟩ := fresh
  exact placed.mem_componentsIn_iff.mpr ⟨c, found, within⟩

theorem Fresh.node (fresh : s.Fresh id x) {c : Component κ} (found : s.component? id = some c) :
    c.node = x := by
  obtain ⟨d, there, node, -⟩ := fresh
  cases there.symm.trans found
  exact node

/-- No component comes before one that lies above it. -/
theorem pairwise_precedes (s : Scene κ) {xs : List NodeId}
    (order : xs.Pairwise fun y z => ¬s.document.Under y z) :
    (xs.filterMap s.componentAt?).Pairwise fun id other => ¬s.Precedes other id := by
  refine List.Pairwise.filterMap _ ?_ order
  rintro y z outside id at_y other at_z ⟨x, fresh, w, fresh', below⟩
  obtain ⟨c, found, rfl⟩ := componentAt?_spec at_y
  obtain ⟨d, there, rfl⟩ := componentAt?_spec at_z
  rw [fresh.node found, fresh'.node there] at outside
  exact outside below

theorem Placed.not_precedes_self (placed : s.Placed) : ¬s.Precedes id id := by
  rintro ⟨x, fresh, y, fresh', below⟩
  exact placed.document.not_under_self (fresh.node_eq fresh' ▸ below)

theorem Trims.eases (trims : s.Trims t) (ahead : s.Ahead t) (placed : s.Placed) : s.Eases t := by
  have fresh {id : ComponentId} {x : NodeId} (later : t.Fresh id x) : s.Fresh id x := by
    obtain ⟨d, there, node, stage⟩ := later
    cases found : s.component? id with
    | none =>
      have bound : s.components.size ≤ id.index := Array.getElem?_eq_none_iff.mp found
      have missing : t.component? id = none := Array.getElem?_eq_none (trims.size.trans_le bound)
      cases missing.symm.trans there
    | some c =>
      obtain ⟨e, later, same⟩ := trims.node id c found
      cases later.symm.trans there
      rcases fresh_or_configured found with fresh | configured
      · exact node ▸ same ▸ fresh
      · exact absurd (configured.ahead ahead) (Fresh.stage ⟨d, there, node, stage⟩)
  refine ⟨trims.document.size, trims.node, fun id => Configured.ahead ahead, ?_, ?_, trims.loading,
    trims.pending⟩
  · rintro id ⟨x, later, there⟩
    exact ⟨x, fresh later, trims.document.isConnected placed.document (placed.bound (fresh later)) there⟩
  · rintro id y old ⟨x, later, below⟩
    exact ⟨x, fresh later, trims.document.under placed.document old below⟩

section Modify
variable (s : Scene κ) (id : ComponentId) {f : Component κ → Component κ}

theorem node_modify (node : ∀ c, (f c).node = c.node) (other : ComponentId) (c : Component κ)
    (found : s.component? other = some c) :
    ∃ d, (s.modify id f).component? other = some d ∧ d.node = c.node := by
  rw [component?_modify, found]
  split
  · exact ⟨f c, rfl, node c⟩
  · exact ⟨c, rfl, rfl⟩

variable (later : ∀ c, (f c).stage.isConfigured = true)
include later

theorem fresh_of_modify (fresh : (s.modify id f).Fresh other x) : s.Fresh other x := by
  obtain ⟨d, found, same, stage⟩ := fresh
  rw [component?_modify] at found
  split at found
  · obtain ⟨c, -, rfl⟩ := Option.map_eq_some_iff.mp found
    rw [later] at stage
    cases stage
  · exact ⟨d, found, same, stage⟩

theorem Regular.modify {s : Scene κ} (regular : s.Regular) (sited : (s.modify id f).Sited) :
    (s.modify id f).Regular where
  toSited := sited
  born other unattached := by
    rw [stage?, component?_modify] at unattached
    split at unattached
    · obtain ⟨d, found, stage⟩ := Option.map_eq_some_iff.mp unattached
      obtain ⟨c, -, rfl⟩ := Option.map_eq_some_iff.mp found
      have configured := later c
      rw [stage] at configured
      cases configured
    · exact regular.born other unattached

/-- Nothing is the worse for a component's being configured. -/
theorem eases_modify (node : ∀ c, (f c).node = c.node) : s.Eases (s.modify id f) := by
  have fresh {other : ComponentId} {x : NodeId} (later' : (s.modify id f).Fresh other x) :
      s.Fresh other x := s.fresh_of_modify id later later'
  refine ⟨Nat.le_refl _, s.node_modify id node, ?_, ?_, ?_, rfl, rfl⟩
  · rintro other ⟨c, found, before⟩
    by_cases same : id = other
    · exact ⟨f c, by rw [component?_modify, if_pos same, found, Option.map_some], later c⟩
    · exact ⟨c, by rw [component?_modify, if_neg same, found], before⟩
  · exact fun other ⟨x, here, there⟩ => ⟨x, fresh here, there⟩
  · exact fun other y _ ⟨x, here, below⟩ => ⟨x, fresh here, below⟩

end Modify
end Scene
end LiveTree
