import Mathlib.Data.Finset.Card
import LiveTree.Proofs.Atomicity
import LiveTree.Proofs.Typing.Fits
import LiveTree.Script

/-! What a write may set off, and what of it lasts. Which methods and callbacks can come to run is a
matter of types, bindings, watchers and listeners. While a cascade of writes goes on none of these is
added to, there are the same slots all the time, and one that a write holds is not let go by others. -/
namespace LiveTree
variable {κ σ α : Type}

def Request.IsWrite : Request κ → Prop
  | .set .. | .force .. => True
  | _ => False

def Script.Writes : Script κ σ α → Prop
  | done _ => True
  | look next => ∀ s store, (next s store).Writes
  | keep _ next => next.Writes
  | ask r next => r.IsWrite ∧ ∀ a, (next a).Writes

namespace Scene

inductive Calls (s : Scene κ) (id : ComponentId) (method : String) : Prop
  | validator {p : Property} : s.Declares id p → p.validator = some method → s.Calls id method
  | observer {p : Property} : s.Declares id p → p.observer = some method → s.Calls id method
  | computed {c : Component κ} {site : Nat} {target : String} {b : Binding}
    {arguments : List Argument} : s.component? id = some c → c.binding? site target = some b →
    b.source = .call method arguments → s.Calls id method
  | handler {l : Nat} : s.listeners.get? l = some (some (.handler id method)) → s.Calls id method

inductive Runs (s : Scene κ) : κ → Occasion → Prop
  | changed {id : ComponentId} {c : Component κ} {k : κ} (name : String) (old new : Value) :
    s.component? id = some c → c.definition.hooks.changed = some k →
    s.Runs k (.change id name old new)
  | watcher {id : ComponentId} {c : Component κ} {x : Watcher κ} (name : String) (old new : Value) :
    s.component? id = some c → c.watcher = some x → s.Runs x.callback (.change id name old new)
  | listener {l : Nat} {k : κ} (e : Event) : s.listeners.get? l = some (some (.consumer k)) →
    s.Runs k (.event e)

/-- A method of the component under that name, if there is one, only writes. Of the library's own
methods all are fine but the one that adds a binding, which pushes it at once. -/
def Harmless (env : Environment κ σ) (s : Scene κ) (id : ComponentId) (method : String) : Prop :=
  ∀ c, s.component? id = some c →
    match c.definition.method? method with
    | some (.custom k) => ∀ arguments, (env.script k (.method id arguments)).Writes
    | some (.service x) => x ≠ .addBinding
    | none => True

structure Tame (env : Environment κ σ) (s : Scene κ) : Prop where
  methods : ∀ id method, s.Calls id method → s.Harmless env id method
  callbacks : ∀ k o, s.Runs k o → (env.script k o).Writes

end Scene

/-- The second component is of the same type and has the same slots, of which no busy one has become
free. Its bindings read what they read before. -/
structure Component.Persists (c d : Component κ) : Prop where
  definition : d.definition = c.definition
  watcher : d.watcher = c.watcher
  sources : ∀ site target b, d.binding? site target = some b →
    ∃ a, c.binding? site target = some a ∧ b.source = a.source
  names : Keyed.names d.slots = Keyed.names c.slots
  busy : ∀ name slot, Keyed.get? c.slots name = some slot → slot.busy = true →
    ∃ slot', Keyed.get? d.slots name = some slot' ∧ slot'.busy = true

def Listener.isWriteBack : Listener κ → Prop
  | .writeBack .. => True
  | _ => False

structure Scene.Persists (s t : Scene κ) : Prop where
  size : t.components.size = s.components.size
  component : ∀ id c, s.component? id = some c → ∃ d, t.component? id = some d ∧ c.Persists d
  listener : ∀ l x, t.listeners.get? l = some (some x) →
    s.listeners.get? l = some (some x) ∨ x.isWriteBack

/-- The bindings are the same but for the traces of values. -/
theorem Component.Alike.binding_still {F : List Field} {c d : Component κ} (alike : c.Alike F d)
    (out : .bindings ∉ F) (site : Nat) (target : String) :
    (d.binding? site target).map Binding.still = (c.binding? site target).map Binding.still := by
  have trees : d.bindings.map BindingTree.still = c.bindings.map BindingTree.still := alike.view .bindings out
  have stills (e : Component κ) : (e.binding? site target).map Binding.still =
      (e.bindings.map BindingTree.still).bind (·.binding? site target) := by
    rw [Component.binding?]
    cases e.bindings with
    | none => rfl
    | some t => exact (t.binding?_still site target).symm
  rw [stills, stills, trees]

namespace Component.Persists
variable {c d e : Component κ}

theorem refl (c : Component κ) : c.Persists c :=
  ⟨rfl, rfl, fun _ _ b found => ⟨b, found, rfl⟩, rfl, fun _ slot found busy => ⟨slot, found, busy⟩⟩

theorem trans (first : c.Persists d) (second : d.Persists e) : c.Persists e where
  definition := second.definition.trans first.definition
  watcher := second.watcher.trans first.watcher
  sources site target b found := by
    obtain ⟨a, there, same⟩ := second.sources site target b found
    obtain ⟨a', before, same'⟩ := first.sources site target a there
    exact ⟨a', before, same.trans same'⟩
  names := second.names.trans first.names
  busy name slot found held := by
    obtain ⟨slot', there, held'⟩ := first.busy name slot found held
    exact second.busy name slot' there held'

/-- What is left alone when no code is added and no slots are. -/
theorem of_alike {F : List Field} (alike : c.Alike F d)
    (out : ∀ f ∈ [Field.definition, .watcher, .bindings, .names, .values], f ∉ F) : c.Persists d where
  definition := alike.view .definition (out _ (by decide))
  watcher := alike.view .watcher (out _ (by decide))
  names := alike.view .names (out _ (by decide))
  sources site target b found := by
    have still := alike.binding_still (out .bindings (by decide)) site target
    rw [found, Option.map_some] at still
    obtain ⟨a, there, same⟩ := Option.map_eq_some_iff.mp still.symm
    exact ⟨a, there, (congrArg Binding.source same).symm⟩
  busy name slot found held := by
    have values : d.view .values = c.view .values := alike.view .values (out _ (by decide))
    have kept : (Keyed.get? d.slots name).map (fun slot => (slot.value, slot.busy)) =
        some (slot.value, slot.busy) := by
      rw [Component.held_of_view values, found, Option.map_some]
    obtain ⟨slot', there, same⟩ := Option.map_eq_some_iff.mp kept
    exact ⟨slot', there, (Prod.mk.inj same).2.trans held⟩

/-- A slot may change as it likes as long as it stays busy if it was. -/
theorem modifySlot (kept : c.Persists d) (name : String) {f : Slot → Slot}
    (stays : ∀ slot, Keyed.get? c.slots name = some slot → slot.busy = true →
      ∀ slot', slot'.busy = true → (f slot').busy = true) : c.Persists (d.modifySlot name f) where
  definition := kept.definition
  watcher := kept.watcher
  sources := kept.sources
  names := (Keyed.names_modify _ _ _).trans kept.names
  busy other slot found held := by
    obtain ⟨slot', there, held'⟩ := kept.busy other slot found held
    rw [Component.modifySlot, Keyed.get?_modify, there]
    split
    · next same =>
      subst same
      exact ⟨f slot', rfl, stays slot found held slot' held'⟩
    · exact ⟨slot', rfl, held'⟩

/-- Bindings may be removed. -/
theorem rebound (kept : c.Persists d) {f : BindingTree → BindingTree}
    (fewer : ∀ t site target b, (f t).binding? site target = some b →
      t.binding? site target = some b) : c.Persists (d.modifyBindings f).rebound where
  definition := kept.definition
  watcher := kept.watcher
  names := kept.names
  busy := kept.busy
  sources site target b found := by
    have changed : (d.bindings.map f).bind (·.binding? site target) = some b := found
    obtain ⟨t, there, held⟩ := Option.bind_eq_some_iff.mp changed
    obtain ⟨t', own, rfl⟩ := Option.map_eq_some_iff.mp there
    apply kept.sources site target b
    rw [Component.binding?, own]
    exact fewer t' site target b held

end Component.Persists

def Field.reacting : List Field :=
  [.definition, .watcher, .bindings, .names, .values, .components, .listeners]

namespace Scene.Persists
variable {s t u : Scene κ}

theorem refl (s : Scene κ) : s.Persists s :=
  ⟨rfl, fun _ c found => ⟨c, found, .refl c⟩, fun _ _ found => .inl found⟩

theorem trans (first : s.Persists t) (second : t.Persists u) : s.Persists u where
  size := second.size.trans first.size
  component id c found := by
    obtain ⟨d, there, kept⟩ := first.component id c found
    obtain ⟨e, later, kept'⟩ := second.component id d there
    exact ⟨e, later, kept.trans kept'⟩
  listener l x found := by
    rcases second.listener l x found with before | added
    · exact first.listener l x before
    · exact .inr added

instance : IsPreorder (Scene κ) Scene.Persists where
  refl := refl
  trans _ _ _ := trans

theorem component_of (persists : s.Persists t) {id : ComponentId} {d : Component κ}
    (found : t.component? id = some d) : ∃ c, s.component? id = some c ∧ c.Persists d := by
  obtain ⟨bound, -⟩ := Array.getElem?_eq_some_iff.mp found
  have inside : id.index < s.components.size := bound.trans_eq persists.size
  obtain ⟨c, here⟩ : ∃ c, s.component? id = some c := ⟨_, Array.getElem?_eq_getElem inside⟩
  obtain ⟨e, there, kept⟩ := persists.component id c here
  cases there.symm.trans found
  exact ⟨c, here, kept⟩

theorem of_alike {F : List Field} (alike : s.Alike F t) (out : ∀ f ∈ Field.reacting, f ∉ F) :
    s.Persists t where
  size := alike.view .components (out _ (by decide))
  component id c found := by
    have sub : ∀ f ∈ [Field.definition, .watcher, .bindings, .names, .values], f ∈ Field.reacting := by
      decide
    obtain ⟨d, there, same⟩ := alike.component id c found
    exact ⟨d, there, .of_alike same fun f inside => out f (sub f inside)⟩
  listener l x found := by
    have same : t.listeners = s.listeners := alike.view .listeners (out _ (by decide))
    rw [same] at found
    exact .inl found

theorem modify (since : s.Persists t) (id : ComponentId) {f : Component κ → Component κ}
    (keeps : ∀ c d, s.component? id = some c → t.component? id = some d → c.Persists d →
      c.Persists (f d)) : s.Persists (t.modify id f) where
  size := (t.size_modify id f).trans since.size
  listener := since.listener
  component other c found := by
    obtain ⟨d, there, kept⟩ := since.component other c found
    rw [component?_modify, there]
    split
    · next same =>
      subst same
      exact ⟨f d, rfl, keeps c d found there kept⟩
    · exact ⟨d, rfl, kept⟩

theorem listen (since : s.Persists t) (components : u.components = t.components)
    (added : ∀ l x, u.listeners.get? l = some (some x) →
      t.listeners.get? l = some (some x) ∨ x.isWriteBack) : s.Persists u where
  size := by rw [components, since.size]
  component id c found := by
    obtain ⟨d, there, kept⟩ := since.component id c found
    exact ⟨d, by rw [component?, components]; exact there, kept⟩
  listener l x found := by
    rcases added l x found with before | own
    · exact since.listener l x before
    · exact .inr own

theorem declares (persists : s.Persists t) {id : ComponentId} {p : Property} :
    s.Declares id p ↔ t.Declares id p := by
  constructor
  · rintro ⟨c, here, own⟩
    obtain ⟨d, there, kept⟩ := persists.component id c here
    exact ⟨d, there, by rw [Component.schema, kept.definition]; exact own⟩
  · rintro ⟨d, there, own⟩
    obtain ⟨c, here, kept⟩ := persists.component_of there
    rw [Component.schema, kept.definition] at own
    exact ⟨c, here, own⟩

variable {env : Environment κ σ}

theorem harmless (persists : s.Persists t) {id : ComponentId} {method : String}
    (harmless : s.Harmless env id method) : t.Harmless env id method := by
  intro d found
  obtain ⟨c, here, kept⟩ := persists.component_of found
  rw [kept.definition]
  exact harmless c here

/-- No code comes up that could not run before. -/
theorem tame (persists : s.Persists t) (tame : s.Tame env) : t.Tame env := by
  constructor
  · intro id method called
    apply persists.harmless
    apply tame.methods
    cases called with
    | validator declared named => exact .validator (persists.declares.mpr declared) named
    | observer declared named => exact .observer (persists.declares.mpr declared) named
    | computed found bound reads =>
      obtain ⟨c, here, kept⟩ := persists.component_of found
      obtain ⟨a, there, same⟩ := kept.sources _ _ _ bound
      exact .computed here there (same.symm.trans reads)
    | handler found =>
      rcases persists.listener _ _ found with before | own
      · exact .handler before
      · exact own.elim
  · intro k o runs
    apply tame.callbacks
    cases runs with
    | changed name old new found set =>
      obtain ⟨c, here, kept⟩ := persists.component_of found
      rw [kept.definition] at set
      exact .changed name old new here set
    | watcher name old new found set =>
      obtain ⟨c, here, kept⟩ := persists.component_of found
      rw [kept.watcher] at set
      exact .watcher name old new here set
    | listener e found =>
      rcases persists.listener _ _ found with before | own
      · exact .listener e before
      · exact own.elim

end Scene.Persists

namespace Scene
variable {s t : Scene κ} {id : ComponentId} {name : String}

theorem mem_componentIds {c : Component κ} (found : s.component? id = some c) : id ∈ s.componentIds := by
  obtain ⟨bound, -⟩ := Array.getElem?_eq_some_iff.mp found
  exact List.mem_map.mpr ⟨id.index, List.mem_range.mpr bound, rfl⟩

def slots (s : Scene κ) : Finset (ComponentId × String) :=
  (s.componentIds.flatMap fun id =>
    ((s.component? id).map fun c => (Keyed.names c.slots).map (id, ·)).getD []).toFinset

def idle (s : Scene κ) : Finset (ComponentId × String) :=
  s.slots.filter fun x => (s.slot? x.1 x.2).any (!·.busy)

theorem mem_slots : (id, name) ∈ s.slots ↔ ∃ slot, s.slot? id name = some slot := by
  rw [slots, List.mem_toFinset, List.mem_flatMap]
  constructor
  · rintro ⟨other, -, member⟩
    cases found : s.component? other with
    | none => simp [found] at member
    | some c =>
      simp only [found, Option.map_some, Option.getD_some, List.mem_map, Prod.mk.injEq,
        exists_eq_right_right] at member
      obtain ⟨declared, rfl⟩ := member
      obtain ⟨slot, held⟩ := Option.isSome_iff_exists.mp ((Keyed.isSome_get? _ _).mpr declared)
      exact ⟨slot, by rw [slot?, found, Option.bind_some, held]⟩
  · rintro ⟨slot, held⟩
    obtain ⟨c, found, declared⟩ := Option.bind_eq_some_iff.mp held
    refine ⟨id, mem_componentIds found, ?_⟩
    have member : name ∈ Keyed.names c.slots := (Keyed.isSome_get? _ _).mp (by rw [declared]; rfl)
    simp [found, member]

theorem mem_idle : (id, name) ∈ s.idle ↔ ∃ slot, s.slot? id name = some slot ∧ slot.busy = false := by
  rw [idle, Finset.mem_filter, mem_slots]
  constructor
  · rintro ⟨⟨slot, held⟩, free⟩
    rw [held] at free
    exact ⟨slot, held, by simpa using free⟩
  · rintro ⟨slot, held, free⟩
    exact ⟨⟨slot, held⟩, by simp [held, free]⟩

theorem Persists.idle_subset (persists : s.Persists t) : t.idle ⊆ s.idle := by
  rintro ⟨id, name⟩ member
  obtain ⟨slot, held, free⟩ := mem_idle.mp member
  obtain ⟨d, found, declared⟩ := Option.bind_eq_some_iff.mp held
  obtain ⟨c, here, kept⟩ := persists.component_of found
  have there : name ∈ Keyed.names c.slots := by
    rw [← kept.names]
    exact (Keyed.isSome_get? _ _).mp (by rw [declared]; rfl)
  obtain ⟨before, own⟩ := Option.isSome_iff_exists.mp ((Keyed.isSome_get? _ _).mpr there)
  refine mem_idle.mpr ⟨before, by rw [slot?, here, Option.bind_some, own], ?_⟩
  by_contra busy
  obtain ⟨after, later, held'⟩ := kept.busy name before own (by simpa using busy)
  cases later.symm.trans declared
  cases held'.symm.trans free

theorem Persists.mark (s : Scene κ) (id : ComponentId) (name : String) : s.Persists
    (s.modify id fun c => c.modifySlot name fun slot => { slot with busy := true }) :=
  (Persists.refl s).modify id fun _ _ _ _ kept => kept.modifySlot name fun _ _ _ _ _ => rfl

/-- When a write is over its slot is let go, as it was before. -/
theorem Persists.unmark (persists : s.Persists t) {slot : Slot} (held : s.slot? id name = some slot)
    (free : slot.busy = false) :
    s.Persists (t.modify id fun c => c.modifySlot name fun slot => { slot with busy := false }) := by
  refine persists.modify id fun c d here _ kept => kept.modifySlot name fun before found busy => ?_
  rw [slot?, here, Option.bind_some, found] at held
  cases held
  cases busy.symm.trans free

structure Calm (env : Environment κ σ) (k : Nat) (s : Scene κ) : Prop where
  tame : s.Tame env
  idle : s.idle.card ≤ k

namespace Calm
variable {env : Environment κ σ} {k : Nat}

theorem later (calm : s.Calm env k) (persists : s.Persists t) : t.Calm env k :=
  ⟨persists.tame calm.tame, (Finset.card_le_card persists.idle_subset).trans calm.idle⟩

/-- A write takes one slot from those that are free. -/
theorem mark (calm : s.Calm env k) {slot : Slot} (held : s.slot? id name = some slot)
    (free : slot.busy = false) : ∃ n, k = n + 1 ∧
      (s.modify id fun c => c.modifySlot name fun slot => { slot with busy := true }).Calm env n := by
  have persists := Persists.mark s id name
  have member : (id, name) ∈ s.idle := mem_idle.mpr ⟨slot, held, free⟩
  have fewer := Finset.card_erase_of_mem member
  have some := Finset.card_pos.mpr ⟨_, member⟩
  have most := calm.idle
  -- What is idle now was idle before, and the slot itself is no more among it.
  refine ⟨k - 1, by omega, persists.tame calm.tame, ?_⟩
  refine (Finset.card_le_card (t := s.idle.erase (id, name)) fun x inside => ?_).trans (by omega)
  apply Finset.mem_erase.mpr
  refine ⟨?_, persists.idle_subset inside⟩
  rintro rfl
  obtain ⟨slot', held', free'⟩ := mem_idle.mp inside
  rw [slot?_modifySlot, if_pos ⟨rfl, rfl⟩, held] at held'
  cases held'
  cases free'

end Calm

end Scene
end LiveTree
