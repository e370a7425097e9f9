import LiveTree.Proofs.Listening.Bindings
import LiveTree.Proofs.Listening.Books
import LiveTree.Proofs.Readiness.Ledger

/-! The upkeep of the books. They are in order if each entry holds what is alive of it, if bindings
listen from their first push on, and if what a component has in its wiring is what its event handlers
ask for, or nothing. Most changes leave all this as it is, and the component as it was attached. -/
namespace LiveTree
variable {κ : Type}

def Stage.isEarly : Stage → Bool
  | .unattached | .created | .configured => true
  | _ => false

def Field.listening : List Field :=
  [.components, .listeners, .flow, .boundProperties, .wired, .link, .stage, .refs, .definition]

structure Outlet where
  stage : Stage
  expanded : Bool
  wired : List (NodeId × String × ListenerId)
  wanted : List (NodeId × String × String)

def Component.outlet (c : Component κ) : Outlet where
  stage := c.stage
  expanded := c.bindings.isSome
  wired := c.wired
  wanted := Act.subscriptionsOf c

theorem Component.Alike.outlet {F : List Field} {c d : Component κ} (alike : c.Alike F d)
    (out : ∀ f ∈ Field.listening, f ∉ F) : d.outlet = c.outlet := by
  have stage : d.stage = c.stage := alike.view .stage (out _ (by decide))
  have trees : d.bindings = c.bindings := alike.view .flow (out _ (by decide))
  have wired : d.wired = c.wired := alike.view .wired (out _ (by decide))
  have types : d.definition = c.definition := alike.view .definition (out _ (by decide))
  have refs : d.refs = c.refs := alike.view .refs (out _ (by decide))
  simp only [Component.outlet, Act.subscriptionsOf_eq, stage, trees, wired, types, refs, alike.node]

theorem Component.outlet_modifyBindings (c : Component κ) {f : BindingTree → BindingTree}
    (same : ∀ t, (f t).handlers = t.handlers) : (c.modifyBindings f).outlet = c.outlet := by
  have wanted := c.subscriptionsOf_modifyBindings same
  rw [outlet, wanted, outlet, modifyBindings, Option.isSome_map]

theorem Component.outlet_modifyBinding (c : Component κ) (i : Nat) (target : String)
    (f : Binding → Binding) : (c.modifyBindings fun t => t.modify i target f).outlet = c.outlet :=
  c.outlet_modifyBindings fun t => t.handlers_modifySite i (Keyed.modify · target f)

theorem Component.entries_modifyBinding (c : Component κ) (i : Nat) (target : String)
    (f : Binding → Binding) (e : Entry) : (c.modifyBindings fun t => t.modify i target f).entries e =
      if e = .binding i target then
        (((c.binding? i target).bind fun b => (f b).listener).map fun r => r.2.2).toList
      else c.entries e := by
  cases e with
  | wiring => rw [if_neg Entry.noConfusion]; rfl
  | binding j key =>
    rw [entries, binding?_modifyBindings]
    by_cases here : i = j ∧ key = target
    · obtain ⟨rfl, rfl⟩ := here
      rw [if_pos ⟨rfl, rfl⟩, if_pos rfl, Option.bind_map]
      rfl
    · rw [if_neg here, if_neg, entries]
      intro same
      cases same
      exact here ⟨rfl, rfl⟩

namespace Scene
variable {s t u : Scene κ} {id : ComponentId}

def outlet? (s : Scene κ) (id : ComponentId) : Option Outlet :=
  (s.component? id).map Component.outlet

theorem outlet?_of_component? {c : Component κ} (found : s.component? id = some c) :
    s.outlet? id = some c.outlet := congrArg (Option.map Component.outlet) found

theorem stage?_eq (s : Scene κ) (id : ComponentId) : s.stage? id = (s.outlet? id).map Outlet.stage := by
  rw [stage?, outlet?, Option.map_map]
  rfl

def Serves (s : Scene κ) (id : ComponentId) (o : Outlet) : Prop :=
  List.Forall₂ (fun w h => w.1 = h.1 ∧ w.2.1 = h.2.1 ∧ s.own? w.2.2 = some (.handler id h.2.2))
    o.wired o.wanted

def Exact (s : Scene κ) (id : ComponentId) : Prop :=
  ∀ o, s.outlet? id = some o → if o.stage = .attached then s.Serves id o else o.wired = []

structure Kept (s : Scene κ) (id : ComponentId) : Prop where
  booked : s.Booked id
  coherent : ∀ other c, s.component? other = some c → c.Coherent
  early : ∀ o, s.outlet? id = some o → o.stage.isEarly = true → o.expanded = false ∧ o.wired = []
  wired : ∀ o, s.outlet? id = some o → o.wired = [] ∨ s.Serves id o

def Lasts (id : ComponentId) (s t : Scene κ) : Prop := ∀ x, s.stage? id = some x → ∃ y, t.stage? id = some y

structure Maintains (id : ComponentId) (s t : Scene κ) : Prop where
  lasts : s.Lasts id t
  exact : s.Exact id → t.Exact id

structure Since (id : ComponentId) (s t : Scene κ) : Prop extends Maintains id s t where
  stays : ∀ x ∈ [Stage.configured, .ready, .attached], s.stage? id = some x → t.stage? id = some x

instance : IsPreorder (Scene κ) (Lasts id) where
  refl _ x here := ⟨x, here⟩
  trans _ _ _ first second x here := by
    obtain ⟨y, there⟩ := first x here
    exact second y there

instance : IsPreorder (Scene κ) (Maintains id) where
  refl s := ⟨Std.Refl.refl s, fun exact => exact⟩
  trans _ _ _ first second :=
    ⟨IsTrans.trans _ _ _ first.lasts second.lasts, second.exact ∘ first.exact⟩

instance : IsPreorder (Scene κ) (Since id) where
  refl s := ⟨Std.Refl.refl s, fun _ _ here => here⟩
  trans _ _ _ first second := ⟨IsTrans.trans _ _ _ first.toMaintains second.toMaintains,
    fun x among here => second.stays x among (first.stays x among here)⟩

structure Undisturbed (id : ComponentId) (s t : Scene κ) : Prop where
  outlet : t.outlet? id = s.outlet? id
  alive : ∀ l k, s.own? l = some k → k.entry? = some (id, .wiring) → t.own? l = some k

namespace Undisturbed

theorem serves (undisturbed : s.Undisturbed id t) {o : Outlet} (serves : s.Serves id o) : t.Serves id o :=
  serves.imp fun _ _ same => ⟨same.1, same.2.1, undisturbed.alive _ _ same.2.2 rfl⟩

theorem since (undisturbed : s.Undisturbed id t) : s.Since id t := by
  have same : t.stage? id = s.stage? id := by rw [stage?_eq, undisturbed.outlet, ← stage?_eq]
  refine ⟨⟨fun x here => ⟨x, same.trans here⟩, ?_⟩, fun x _ here => same.trans here⟩
  · intro exact o found
    have before := exact o (undisturbed.outlet ▸ found)
    split at before
    · next attached => rw [if_pos attached]; exact undisturbed.serves before
    · next other => rwa [if_neg other]

theorem of_own (outlet : t.outlet? id = s.outlet? id) (own : ∀ l, t.own? l = s.own? l) :
    s.Undisturbed id t := ⟨outlet, fun l _ here _ => (own l).trans here⟩

end Undisturbed

theorem Kept.of_undisturbed (kept : s.Kept id) (undisturbed : s.Undisturbed id t) (booked : t.Booked id)
    (coherent : ∀ other c, t.component? other = some c → c.Coherent) :
    t.Kept id ∧ s.Since id t := by
  refine ⟨⟨booked, coherent, fun o found => ?_, fun o found => ?_⟩, undisturbed.since⟩
  · exact kept.early o (undisturbed.outlet ▸ found)
  · exact (kept.wired o (undisturbed.outlet ▸ found)).imp_right undisturbed.serves

theorem entries_modify (s : Scene κ) (whose other : ComponentId) (f : Component κ → Component κ)
    (e : Entry) : (s.modify whose f).entries other e =
      if whose = other then ((s.component? other).map fun c => (f c).entries e).getD []
      else s.entries other e := by
  rw [entries, component?_modify]
  split
  · rw [Option.map_map]
    rfl
  · rfl

theorem ties_modify (s : Scene κ) (whose other : ComponentId) (f : Component κ → Component κ) :
    (s.modify whose f).ties other =
      if whose = other then ((s.component? other).map fun c => (f c).ties).getD []
      else s.ties other := by
  rw [ties, component?_modify]
  split
  · rw [Option.map_map]
    rfl
  · rfl

theorem outlet?_modify (s : Scene κ) (whose other : ComponentId) (f : Component κ → Component κ) :
    (s.modify whose f).outlet? other =
      if whose = other then (s.component? other).map fun c => (f c).outlet
      else s.outlet? other := by
  rw [outlet?, component?_modify]
  split
  · rw [Option.map_map]
    rfl
  · rfl

structure Replaces (s t : Scene κ) (whose : ComponentId) (c d : Component κ) : Prop where
  found : s.component? whose = some c
  component : ∀ other, t.component? other = if other = whose then some d else s.component? other

namespace Replaces
variable {whose : ComponentId} {c d : Component κ}

theorem modify (found : s.component? whose = some c) (f : Component κ → Component κ)
    (same : t.components = (s.modify whose f).components) : s.Replaces t whose c (f c) where
  found := found
  component other := by
    have there : t.component? other = (s.modify whose f).component? other := by
      rw [component?, same, component?]
    rw [there, component?_modify]
    by_cases here : whose = other
    · subst here
      rw [if_pos rfl, if_pos rfl, found, Option.map_some]
    · rw [if_neg here, if_neg (Ne.symm here)]

variable (replaces : s.Replaces t whose c d)
include replaces

theorem map {β : Type} (g : Component κ → β) (other : ComponentId) :
    (t.component? other).map g =
      if other = whose then some (g d) else (s.component? other).map g := by
  rw [replaces.component]
  split <;> rfl

theorem same {β : Type} {g : Component κ → β} (same : g d = g c) (other : ComponentId) :
    (t.component? other).map g = (s.component? other).map g := by
  rw [replaces.map]
  split
  · next here => rw [here, replaces.found, Option.map_some, same]
  · rfl

theorem ties (same : d.ties = c.ties) (other : ComponentId) : t.ties other = s.ties other :=
  congrArg (Option.getD · []) (replaces.same same other)

theorem entries {e : Entry} {ls : List ListenerId}
    (own : ∀ x, d.entries x = if x = e then ls else c.entries x) (other : ComponentId) (x : Entry) :
    t.entries other x = if other = whose ∧ x = e then ls else s.entries other x := by
  rw [Scene.entries, replaces.map]
  by_cases here : other = whose
  · rw [if_pos here, Option.getD_some, own]
    by_cases same : x = e
    · rw [if_pos same, if_pos ⟨here, same⟩]
    · rw [if_neg same, if_neg fun both => same both.2, here, Scene.entries, replaces.found]
      rfl
  · rw [if_neg here, if_neg fun both => here both.1, Scene.entries]

theorem coherent (coherent : ∀ other c, s.component? other = some c → c.Coherent)
    (own : d.Coherent) (other : ComponentId) (c : Component κ) (found : t.component? other = some c) :
    c.Coherent := by
  rw [replaces.component] at found
  split at found
  · cases found
    exact own
  · exact coherent other c found

end Replaces

namespace Kept

variable {whose : ComponentId}

theorem modify (kept : s.Kept id) (whose : ComponentId) {f : Component κ → Component κ}
    (entries : ∀ c e, (f c).entries e = c.entries e)
    (ties : ∀ c : Component κ, ∀ l ∈ (f c).ties, l ∈ c.ties ∨
      l.index < s.listeners.size ∧ s.own? l = none)
    (coherent : ∀ c, s.component? whose = some c → c.Coherent → (f c).Coherent)
    (outlet : whose = id → ∀ c, s.component? id = some c → (f c).outlet = c.outlet) :
    (s.modify whose f).Kept id ∧ s.Since id (s.modify whose f) := by
  have own := own?_of_listeners (s := s) (t := s.modify whose f) rfl
  refine kept.of_undisturbed (.of_own ?_ own) (kept.booked.of_same own ?_ (Nat.le_refl _) ?_) ?_
  · rw [outlet?_modify]
    split
    · next same =>
      rw [outlet?]
      cases found : s.component? id with
      | none => rfl
      | some c => rw [Option.map_some, Option.map_some, outlet same c found]
    · rfl
  · intro other e
    rw [entries_modify]
    split
    · simp only [entries, Scene.entries]
    · rfl
  · intro other l listed
    rw [ties_modify] at listed
    split at listed
    · cases found : s.component? other with
      | none => simp [found] at listed
      | some c =>
        rw [found] at listed
        refine (ties c l listed).imp_left fun before => ?_
        rwa [Scene.ties, found]
    · exact .inl listed
  · intro other d found
    rw [component?_modify] at found
    split at found
    · next same =>
      obtain ⟨c, before, rfl⟩ := Option.map_eq_some_iff.mp found
      exact coherent c (same ▸ before) (kept.coherent other c before)
    · exact kept.coherent other d found

/-- An operation that touches nothing of what listeners depend on. -/
theorem of_alike {F : List Field} (kept : s.Kept id) (alike : s.Alike F t)
    (out : ∀ f ∈ Field.listening, f ∉ F) : t.Kept id ∧ s.Since id t := by
  have listeners : t.listeners = s.listeners := alike.view .listeners (out _ (by decide))
  have own := own?_of_listeners listeners
  have wiring : ∀ f ∈ [Field.flow, .wired], f ∈ Field.listening := by decide
  have reading : ∀ f ∈ [Field.flow, .boundProperties], f ∈ Field.listening := by decide
  have same {β : Type} (g : Component κ → β) (view : ∀ c d : Component κ, c.Alike F d → g d = g c) :=
    alike.map_component? (out _ (by decide)) g view
  refine kept.of_undisturbed (.of_own ?_ own) (kept.booked.of_same own ?_ ?_ ?_) ?_
  · exact same _ (fun c d alike => alike.outlet out) id
  · intro other e
    exact congrArg (Option.getD · []) (same _ (fun c d alike =>
      alike.entries (fun f inside => out f (wiring f inside)) e) other)
  · rw [listeners]
  · intro other l listed
    refine .inl ?_
    rwa [ties, ← same _ (fun c d alike => alike.ties (out _ (by decide))) other]
  · intro other d found
    obtain ⟨c, before, alike⟩ := alike.component_of (out _ (by decide)) found
    exact alike.coherent (fun f inside => out f (reading f inside)) (kept.coherent other c before)

/-- Only listeners that are none of the tree's own come or go. -/
theorem of_quiet (kept : s.Kept id) (components : t.components = s.components)
    (own : ∀ l, t.own? l = s.own? l) (size : s.listeners.size ≤ t.listeners.size) :
    t.Kept id ∧ s.Since id t := by
  have same (other) : t.component? other = s.component? other := by
    rw [component?, components, component?]
  refine kept.of_undisturbed (.of_own ?_ own) (kept.booked.of_same own ?_ size ?_) ?_
  · rw [outlet?, same, outlet?]
  · intro other e
    rw [entries, same, entries]
  · intro other l listed
    rw [ties, same] at listed
    exact .inl listed
  · intro other c found
    exact kept.coherent other c (same other ▸ found)

theorem edit (kept : s.Kept id) (f : Document → Document) :
    (s.edit f).Kept id ∧ s.Since id (s.edit f) :=
  kept.of_quiet rfl (own?_of_listeners rfl) (Nat.le_refl _)

theorem of_hears (kept : s.Kept id) {ls : List ListenerId} (components : t.components = s.components)
    (hears : s.Hears t ls none) : t.Kept id ∧ s.Since id t :=
  kept.of_quiet components hears.quiet hears.size

/-- An entry other than the component's wiring comes to hold other listeners. -/
theorem relist (kept : s.Kept id) {c d : Component κ} (replaces : s.Replaces t whose c d) {e : Entry}
    {ls : List ListenerId} (entries : ∀ x, d.entries x = if x = e then ls else c.entries x)
    (ties : d.ties = c.ties) (coherent : d.Coherent) (outlet : whose = id → d.outlet = c.outlet)
    (apart : ¬(id = whose ∧ .wiring = e)) (trades : s.Trades t (c.entries e) ls (whose, e)) :
    t.Kept id ∧ s.Since id t := by
  rw [← entries_of_component? replaces.found] at trades
  refine kept.of_undisturbed ⟨?_, fun _ _ own belongs => kept.booked.alive trades own belongs apart⟩
    (kept.booked.relist (replaces.entries entries) ?_ trades)
    (replaces.coherent kept.coherent coherent)
  · by_cases here : whose = id
    · exact replaces.same (outlet here) id
    · rw [outlet?, replaces.component, if_neg (Ne.symm here), outlet?]
  · exact replaces.ties ties

/-- A value travels through a binding. -/
theorem modifyBinding (kept : s.Kept id) (whose : ComponentId) (i : Nat) (target : String)
    {f : Binding → Binding} (idle : ∀ b, (f b).idle = b.idle) :
    (s.modify whose fun c => c.modifyBindings fun t => t.modify i target f).Kept id ∧
      s.Since id (s.modify whose fun c => c.modifyBindings fun t => t.modify i target f) := by
  have same (b : Binding) : (f b).listener = b.listener := (congrArg Binding.listener (idle b) :)
  refine kept.modify whose ?_ (fun _ _ listed => .inl listed) ?_ ?_
  · intro c e
    rw [c.entries_modifyBinding]
    split
    · next here => simp only [same, here, Component.entries]
    · rfl
  · intro c _ coherent
    exact coherent.modify i target (fun b => (congrArg Binding.source (idle b) :)) fun b held =>
      (coherent.2 i target b held).of_idle (idle b)
  · exact fun _ c _ => c.outlet_modifyBinding i target f

/-- The first push of a binding that does not listen. -/
theorem ready (kept : s.Kept id) {c : Component κ} {i : Nat} {target : String} {b : Binding}
    (found : s.component? whose = some c) (held : c.binding? i target = some b)
    (idle : ¬b.Listens) :
    (s.modify whose fun c => c.modifyBindings fun t => t.modify i target fun b =>
      { b with ready := true }).Kept id ∧
      s.Since id (s.modify whose fun c => c.modifyBindings fun t => t.modify i target fun b =>
        { b with ready := true }) := by
  refine kept.modify whose ?_ (fun _ _ listed => .inl listed) ?_ ?_
  · intro c e
    rw [c.entries_modifyBinding]
    split
    · next here => rw [here]; rfl
    · rfl
  · intro c' there coherent
    cases found.symm.trans there
    refine coherent.modify i target (fun _ => rfl) fun d same => ?_
    cases held.symm.trans same
    exact ⟨(coherent.2 i target b held).named, Bool.noConfusion, fun _ listens => absurd listens idle⟩
  · exact fun _ c _ => c.outlet_modifyBinding i target _

/-- The first push of a binding that listens from then on. -/
theorem install (kept : s.Kept id) {c : Component κ} {i : Nat} {target : String} {b : Binding}
    (found : s.component? whose = some c) (held : c.binding? i target = some b)
    (new : b.ready = false) (x : NodeId) (event : String)
    (components : t.components = ((s.modify whose fun c => c.modifyBindings fun t =>
      t.modify i target fun b => { b with listener := some (x, event, ⟨s.listeners.size⟩) }).modify
      whose fun c => c.modifyBindings fun t =>
        t.modify i target fun b => { b with ready := true }).components)
    (listeners : t.listeners = s.listeners.push (some (.writeBack whose i target))) :
    t.Kept id ∧ s.Since id t := by
  rw [s.modifyBinding_twice] at components
  have coherent := kept.coherent whose c found
  have bare : b.listener = none := (coherent.2 i target b held).unready new
  have alive : t.own? ⟨s.listeners.size⟩ = some (.writeBack whose i target) :=
    (own?_push listeners _).trans (if_pos rfl)
  have trades : s.Trades t (c.entries (.binding i target)) [⟨s.listeners.size⟩]
      (whose, .binding i target) := by
    rw [Component.entries, held, Option.bind_some, bare]
    exact (Hears.push listeners).trades fun l listed => ⟨_, List.mem_singleton.mp listed ▸ alive⟩
  refine kept.relist (.modify found _ components) (fun e => ?_) rfl ?_ ?_
    (fun both => Entry.noConfusion both.2) trades
  · rw [c.entries_modifyBinding, held]
    rfl
  · refine coherent.modify i target (fun _ => rfl) fun d same => ?_
    cases held.symm.trans same
    exact ⟨(coherent.2 i target b held).named, Bool.noConfusion, fun _ _ => rfl⟩
  · exact fun _ => c.outlet_modifyBinding i target _

/-- A target gets another binding or none, and what its former one listened with is removed. -/
theorem rebind (kept : s.Kept id) {c : Component κ} (found : s.component? whose = some c) {i : Nat}
    {target : String} {f : BindingTree → BindingTree} (handlers : ∀ t, (f t).handlers = t.handlers)
    (other : ∀ t j key, ¬(j = i ∧ key = target) → (f t).binding? j key = t.binding? j key)
    (fresh : ∀ t b, (f t).binding? i target = some b → b.listener = none ∧ b.Coherent target)
    (components : t.components =
      (s.modify whose fun c => (c.modifyBindings f).rebound).components)
    (size : t.listeners.size = s.listeners.size)
    (own : ∀ l, t.own? l = if l ∈ c.entries (.binding i target) then none else s.own? l) :
    t.Kept id ∧ s.Since id t := by
  refine kept.relist (.modify found _ components) (e := .binding i target) (fun e => ?_) rfl ?_ ?_
    (fun both => Entry.noConfusion both.2) (.of_removed _ size own)
  · cases e with
    | wiring => rfl
    | binding j key =>
      have bindings : (c.modifyBindings f).rebound.binding? j key =
          c.bindings.bind fun t => (f t).binding? j key := Option.bind_map
      rw [Component.entries, bindings]
      by_cases here : j = i ∧ key = target
      · obtain ⟨rfl, rfl⟩ := here
        have none : ((c.bindings.bind fun t => (f t).binding? j key).bind Binding.listener) = none := by
          rw [Option.bind_eq_none_iff]
          intro b held
          obtain ⟨t, -, inside⟩ := Option.bind_eq_some_iff.mp held
          exact (fresh t b inside).1
        rw [none, if_pos rfl]
        rfl
      · have same : (c.bindings.bind fun t => (f t).binding? j key) = c.binding? j key :=
          Option.bind_congr fun t _ => other t j key here
        rw [same, if_neg, Component.entries]
        intro equal
        cases equal
        exact here ⟨rfl, rfl⟩
  · refine (kept.coherent whose c found).rebound fun t j key b held => ?_
    by_cases here : j = i ∧ key = target
    · obtain ⟨rfl, rfl⟩ := here
      exact .inl (fresh t b held).2
    · exact .inr ((other t j key here).symm.trans held)
  · exact fun _ => c.outlet_modifyBindings handlers

end Kept

end Scene

end LiveTree
