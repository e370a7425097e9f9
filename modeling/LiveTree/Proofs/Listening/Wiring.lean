import LiveTree.Proofs.Listening.Upkeep

/-! What becomes of the books where a component itself comes to another stage, gets its listeners or
loses them, or is expanded. -/
namespace LiveTree
variable {κ : Type} {id whose : ComponentId}

def BindingTree.Fresh (t : BindingTree) : Prop :=
  ∀ i target b, t.binding? i target = some b → b.listener = none ∧ b.Coherent target

namespace Component

structure Expanded (c : Component κ) (tree : BindingTree) (d : Component κ) : Prop where
  stage : d.stage = .expanded
  bindings : d.bindings = some tree
  bound : d.boundProperties = tree.dependencies
  wired : d.wired = c.wired
  ties : d.ties = c.ties

theorem entries_of_unbound {c : Component κ} (unbound : c.bindings = none) (e : Entry) :
    c.entries e = if e = .wiring then c.entries .wiring else [] := by
  cases e with
  | wiring => rfl
  | binding i target =>
    rw [if_neg Entry.noConfusion, entries, binding?, unbound]
    rfl

namespace Expanded
variable {c d : Component κ} {tree : BindingTree} (expanded : c.Expanded tree d) (fresh : tree.Fresh)
include expanded fresh

theorem entries (e : Entry) : d.entries e = if e = .wiring then c.entries .wiring else [] := by
  cases e with
  | wiring =>
    rw [if_pos rfl, Component.entries, expanded.wired]
    rfl
  | binding i target =>
    have silent : (tree.binding? i target).bind Binding.listener = none :=
      Option.bind_eq_none_iff.mpr fun b there => (fresh i target b there).1
    rw [if_neg Entry.noConfusion, Component.entries, binding?, expanded.bindings, Option.bind_some, silent]
    rfl

theorem coherent : d.Coherent := by
  refine ⟨by rw [expanded.bound, expanded.bindings]; rfl, fun i target b held => ?_⟩
  rw [binding?, expanded.bindings] at held
  exact (fresh i target b held).2

end Expanded
end Component

namespace Scene
variable {s t : Scene κ}

structure Sets (whose id : ComponentId) (s t : Scene κ) : Prop where
  lasts : s.Lasts id t
  apart : whose ≠ id → s.Since id t
  exact : whose = id → t.Exact id

namespace Sets

theorem of_apart (apart : whose ≠ id) (since : s.Since id t) : s.Sets whose id t :=
  ⟨since.lasts, fun _ => since, fun same => absurd same apart⟩

theorem maintains (sets : s.Sets whose id t) : s.Maintains id t := by
  by_cases same : whose = id
  · exact ⟨sets.lasts, fun _ => sets.exact same⟩
  · exact (sets.apart same).toMaintains

/-- The stage that the act began with was to end. -/
theorem since (sets : s.Sets whose id t) {x : Stage} (was : whose = id → s.stage? id = some x)
    (ends : x ∉ [Stage.configured, .ready, .attached]) : s.Since id t := by
  by_cases same : whose = id
  · refine ⟨sets.maintains, fun y among here => ?_⟩
    cases (was same).symm.trans here
    exact absurd among ends
  · exact sets.apart same

theorem next {u : Scene κ} (sets : s.Sets whose id t) (since : t.Since id u) : s.Sets whose id u where
  lasts := IsTrans.trans _ _ _ sets.lasts since.lasts
  apart other := IsTrans.trans _ _ _ (sets.apart other) since
  exact same := since.exact (sets.exact same)

end Sets

namespace Kept

theorem missing (kept : s.Kept id) (missing : s.component? whose = none)
    (f : Component κ → Component κ) : (s.modify whose f).Kept id ∧ s.Since id (s.modify whose f) := by
  rw [s.modify_of_none missing]
  exact ⟨kept, Std.Refl.refl s⟩

theorem setStage_apart (kept : s.Kept id) (other : whose ≠ id) (stage : Stage) :
    (s.modify whose fun c => { c with stage := stage }).Kept id ∧
      s.Since id (s.modify whose fun c => { c with stage := stage }) :=
  kept.modify whose (fun _ _ => rfl) (fun _ _ listed => .inl listed) (fun _ _ coherent => coherent)
    fun same => absurd same other

/-- The component itself is changed, and its wiring with it. -/
theorem replace (kept : s.Kept id) {c d : Component κ} (replaces : s.Replaces t id c d)
    (booked : t.Booked id) (coherent : d.Coherent)
    (early : d.stage.isEarly = true → d.bindings.isSome = false ∧ d.wired = [])
    (wired : d.wired = [] ∨ t.Serves id d.outlet) : t.Kept id ∧ s.Lasts id t ∧
      t.outlet? id = some d.outlet := by
  have outlet : t.outlet? id = some d.outlet := (replaces.map _ id).trans (if_pos rfl)
  refine ⟨⟨booked, replaces.coherent kept.coherent coherent, ?_, ?_⟩, fun _ _ => ⟨d.stage, ?_⟩, outlet⟩
  · intro o found
    cases outlet.symm.trans found
    exact early
  · intro o found
    cases outlet.symm.trans found
    exact wired
  · rw [stage?_eq, outlet, Option.map_some]
    rfl

/-- A component is never taken back to an early stage. -/
theorem setStage (kept : s.Kept id) {c : Component κ} (found : s.component? id = some c) (stage : Stage)
    (forward : stage.isEarly = true → c.stage.isEarly = true) :
    (s.modify id fun c => { c with stage := stage }).Kept id ∧
      s.Lasts id (s.modify id fun c => { c with stage := stage }) ∧
      (s.modify id fun c => { c with stage := stage }).outlet? id =
        some { c.outlet with stage := stage } := by
  have outlet := outlet?_of_component? found
  have replaces : s.Replaces _ id c { c with stage := stage } :=
    .modify found (fun c => { c with stage := stage }) rfl
  refine kept.replace replaces ?_ (kept.coherent id c found) ?_ (kept.wired _ outlet)
  · refine kept.booked.of_same (own?_of_listeners rfl) ?_ (Nat.le_refl _) fun other l listed => .inl ?_
    · exact fun other e => congrArg (Option.getD · []) (replaces.same (g := (·.entries e)) rfl other)
    · exact (congrArg (l ∈ ·) (replaces.ties rfl other)).mp listed
  · exact fun early => kept.early _ outlet (forward early)

/-- A component comes to another wiring. -/
theorem rewire (kept : s.Kept id) {c : Component κ} (found : s.component? whose = some c)
    {ws : List (NodeId × String × ListenerId)}
    (components : t.components = (s.modify whose fun c => { c with wired := ws }).components)
    (trades : s.Trades t (c.entries .wiring) (ws.map (·.2.2)) (whose, .wiring))
    (early : whose = id → c.stage.isEarly = true → ws = [])
    (served : whose = id → ws = [] ∨ t.Serves id { c.outlet with wired := ws }) :
    t.Kept id ∧ s.Lasts id t ∧ (whose ≠ id → s.Since id t) ∧
      (whose = id → t.outlet? id = some { c.outlet with wired := ws }) := by
  have replaces : s.Replaces t whose c { c with wired := ws } := .modify found _ components
  have entries (e : Entry) : ({ c with wired := ws } : Component κ).entries e =
      if e = .wiring then ws.map (·.2.2) else c.entries e := by
    cases e <;> rfl
  have coherent := kept.coherent whose c found
  by_cases same : whose = id
  · subst same
    rw [← entries_of_component? found] at trades
    have booked := kept.booked.relist (replaces.entries entries) (replaces.ties rfl) trades
    have bare (here : c.stage.isEarly = true) : c.bindings.isSome = false ∧ ws = [] :=
      ⟨(kept.early _ (outlet?_of_component? found) here).1, early rfl here⟩
    obtain ⟨next, lasts, outlet⟩ := kept.replace replaces booked coherent bare (served rfl)
    exact ⟨next, lasts, fun other => absurd rfl other, fun _ => outlet⟩
  · obtain ⟨next, since⟩ := kept.relist replaces entries rfl coherent (fun here => absurd here same)
      (fun both => same both.1.symm) trades
    exact ⟨next, since.lasts, fun _ => since, fun here => absurd here same⟩

/-- A component that had no listeners of its wiring gets them. -/
theorem wire (kept : s.Kept id) {c : Component κ} (found : s.component? whose = some c)
    (attached : whose = id → c.stage = .attached) (free : c.wired = [])
    {ws : List (NodeId × String × ListenerId)}
    (components : t.components = (s.modify whose fun c => { c with wired := ws }).components)
    (hears : s.Hears t (ws.map (·.2.2)) (some (whose, .wiring)))
    (served : t.Serves whose { c.outlet with wired := ws }) : t.Kept id ∧ s.Sets whose id t := by
  have alive := ((List.forall₂_and_left _ _).mp (served.imp fun w h same =>
    (⟨⟨_, same.2.2⟩, same⟩ : (∃ k, t.own? w.2.2 = some k) ∧ _))).1
  have trades : s.Trades t (c.entries .wiring) (ws.map (·.2.2)) (whose, .wiring) := by
    have none : c.entries .wiring = [] := by rw [Component.entries, free]; rfl
    rw [none]
    refine hears.trades fun l listed => ?_
    obtain ⟨w, inside, rfl⟩ := List.mem_map.mp listed
    exact alive w inside
  have early (same : whose = id) (here : c.stage.isEarly = true) : ws = [] := by
    rw [attached same] at here
    cases here
  obtain ⟨next, lasts, apart, outlet⟩ := kept.rewire found components trades early fun same =>
    .inr (same ▸ served)
  refine ⟨next, lasts, apart, fun same o there => ?_⟩
  cases (outlet same).symm.trans there
  exact (if_pos (attached same)).mpr (same ▸ served)

/-- The listeners of a component's wiring are removed. -/
theorem unwire (kept : s.Kept id) {c : Component κ} (found : s.component? whose = some c)
    (components : t.components = (s.modify whose fun c => { c with wired := [] }).components)
    (size : t.listeners.size = s.listeners.size)
    (own : ∀ l, t.own? l = if l ∈ c.wired.map (·.2.2) then none else s.own? l) :
    t.Kept id ∧ (whose ≠ id → s.Since id t) := by
  have trades : s.Trades t (c.entries .wiring) [] (whose, .wiring) := .of_removed _ size own
  obtain ⟨next, -, apart, -⟩ := kept.rewire found components trades (fun _ _ => rfl) fun _ => .inl rfl
  exact ⟨next, apart⟩

/-- A component that has become another one may have less on record. -/
theorem forget (kept : s.Kept id) {c d : Component κ} (replaces : s.Replaces t whose c d)
    (listeners : t.listeners = s.listeners) (fewer : ∀ e, ∀ l ∈ d.entries e, l ∈ c.entries e)
    (own : whose = id → ∀ e, d.entries e = c.entries e) (ties : d.ties = c.ties) : t.Booked id := by
  have entries (other : ComponentId) (e : Entry) : t.entries other e =
      if other = whose then d.entries e else s.entries other e := by
    rw [Scene.entries, replaces.map]
    split <;> rfl
  have before (e : Entry) : s.entries whose e = c.entries e := entries_of_component? replaces.found e
  refine kept.booked.shrink (own?_of_listeners listeners) (fun other e l listed => ?_) (fun e => ?_)
    (by rw [listeners]) (replaces.ties ties)
  · rw [entries] at listed
    split at listed
    · next here =>
      rw [here, before]
      exact fewer e l listed
    · exact listed
  · rw [entries]
    split
    · next here => rw [own here.symm e, here, before]
    · rfl

/-- A component gets bindings that do not listen yet, the component itself not a second time. -/
theorem expanding (kept : s.Kept id) {c d : Component κ} {tree : BindingTree}
    (replaces : s.Replaces t whose c d) (listeners : t.listeners = s.listeners) (fresh : tree.Fresh)
    (expanded : c.Expanded tree d) (own : whose = id → c.stage = .configured) :
    t.Kept id ∧ s.Sets whose id t := by
  have bare (here : whose = id) : c.bindings = none ∧ c.wired = [] := by
    have there : s.component? id = some c := here ▸ replaces.found
    have early : c.outlet.stage.isEarly = true := by rw [Component.outlet, own here]; rfl
    obtain ⟨unexpanded, unwired⟩ := kept.early _ (outlet?_of_component? there) early
    exact ⟨Option.not_isSome_iff_eq_none.mp (Bool.eq_false_iff.mp unexpanded), unwired⟩
  have booked : t.Booked id := by
    refine kept.forget replaces listeners (fun e l listed => ?_) (fun here e => ?_) expanded.ties
    · rw [expanded.entries fresh] at listed
      split at listed
      · next wiring => rwa [wiring]
      · cases listed
    · exact (expanded.entries fresh e).trans (Component.entries_of_unbound (bare here).1 e).symm
  have coherent := expanded.coherent fresh
  by_cases here : whose = id
  · subst here
    have free : d.wired = [] := expanded.wired.trans (bare rfl).2
    have late : d.stage.isEarly = true → d.bindings.isSome = false ∧ d.wired = [] := by
      rw [expanded.stage]
      exact fun early => by cases early
    obtain ⟨next, lasts, outlet⟩ := kept.replace replaces booked coherent late (.inl free)
    refine ⟨next, lasts, fun other => absurd rfl other, fun _ o there => ?_⟩
    cases outlet.symm.trans there
    refine (if_neg ?_).mpr free
    rw [Component.outlet, expanded.stage]
    exact Stage.noConfusion
  · have outlet : t.outlet? id = s.outlet? id := by
      rw [outlet?, replaces.component, if_neg (Ne.symm here), outlet?]
    obtain ⟨next, since⟩ := kept.of_undisturbed (.of_own outlet (own?_of_listeners listeners)) booked
      (replaces.coherent kept.coherent coherent)
    exact ⟨next, .of_apart here since⟩

/-- The same, whether the component is there or not. -/
theorem expand (kept : s.Kept id) (whose : ComponentId) {tree : BindingTree} (fresh : tree.Fresh)
    {f : Component κ → Component κ} (expanded : ∀ c : Component κ, c.Expanded tree (f c))
    (own : whose = id → s.stage? id = some .configured) :
    (s.modify whose f).Kept id ∧ s.Sets whose id (s.modify whose f) := by
  cases found : s.component? whose with
  | none =>
    refine (kept.missing found f).imp_right fun since => .of_apart (fun here => ?_) since
    have stage := own here
    rw [stage?, ← here, found] at stage
    cases stage
  | some c =>
    refine kept.expanding (.modify found f rfl) rfl fresh (expanded c) fun here => ?_
    have stage := own here
    rw [stage?, ← here, found] at stage
    exact Option.some.inj stage

/-- A new component has nothing on record. -/
theorem join (kept : s.Kept id) {d : Definition κ} {x : NodeId} {owner : Option ComponentId}
    (component : ∀ other, t.component? other = if other.index = s.components.size then
      some { Component.new d x owner with stage := .created } else s.component? other)
    (listeners : t.listeners = s.listeners) : t.Kept id ∧ s.Since id t := by
  have before {other : ComponentId} (new : other.index = s.components.size) :
      s.component? other = none := Array.getElem?_eq_none (Nat.le_of_eq new.symm)
  have entries (other : ComponentId) (e : Entry) : t.entries other e = s.entries other e := by
    rw [Scene.entries, component, Scene.entries]
    split
    · next new =>
      rw [before new]
      cases e <;> rfl
    · rfl
  have ties (other : ComponentId) : t.ties other = s.ties other := by
    rw [Scene.ties, component, Scene.ties]
    split
    · next new =>
      rw [before new]
      rfl
    · rfl
  have own := own?_of_listeners listeners
  have booked : t.Booked id := kept.booked.of_same own entries (by rw [listeners])
    fun other l listed => .inl (ties other ▸ listed)
  have coherent (other : ComponentId) (c : Component κ) (found : t.component? other = some c) :
      c.Coherent := by
    rw [component] at found
    split at found
    · cases found
      exact Component.coherent_new d x owner
    · exact kept.coherent other c found
  by_cases new : id.index = s.components.size
  · -- The component itself is the new one: it had no stage before and listens to nothing.
    have unstaged (a : Stage) (here : s.stage? id = some a) : False := by
      rw [stage?, before new] at here
      cases here
    have outlet (o : Outlet) (found : t.outlet? id = some o) :
        o.expanded = false ∧ o.wired = [] ∧ o.stage = .created := by
      rw [outlet?, component, if_pos new] at found
      cases found
      exact ⟨rfl, rfl, rfl⟩
    refine ⟨⟨booked, coherent, fun o found _ => ?_, fun o found => .inl (outlet o found).2.1⟩,
      ⟨fun a here => (unstaged a here).elim, fun _ o found => ?_⟩, fun a _ here => (unstaged a here).elim⟩
    · exact ⟨(outlet o found).1, (outlet o found).2.1⟩
    · refine (if_neg ?_).mpr (outlet o found).2.1
      rw [(outlet o found).2.2]
      exact Stage.noConfusion
  · have outlet : t.outlet? id = s.outlet? id := by rw [outlet?, component, if_neg new, outlet?]
    exact kept.of_undisturbed (.of_own outlet own) booked coherent

end Kept
end Scene
end LiveTree
