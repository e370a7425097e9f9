import LiveTree.Act.Life
import LiveTree.Proofs.Contract.Giving
import LiveTree.Proofs.Document.Planting
import LiveTree.Proofs.Placement

/-! Components on their own: with no template and no consumer code that is told of anything, owned by
none, with nobody waiting and nobody listening. What such a component is told and how its acts go is
settled by its stage, its values and the attributes of its host node. -/
namespace LiveTree
variable {κ σ : Type}

structure Definition.Passive (d : Definition κ) : Prop where
  template : d.template = none
  hooks : d.hooks = {}
  capabilities : ∀ c ∈ d.capabilities, ∀ m : Moment, m.hook? c = none
  subscriptions : d.subscriptions = []
  validator : ∀ name p, d.schema.get? name = some p → p.validator = none
  observer : ∀ name p, d.schema.get? name = some p → p.observer = none

/-- Where there is no code of the consumer nothing can be told of anything. -/
theorem Definition.Passive.of_isEmpty [IsEmpty κ] {d : Definition κ} (template : d.template = none)
    (subscriptions : d.subscriptions = [])
    (plain : ∀ p ∈ d.schema.toList, p.validator = none ∧ p.observer = none) : d.Passive := by
  have none (k : Option κ) : k = none := by
    cases k with
    | none => rfl
    | some k => exact isEmptyElim k
  have listed {name : String} {p : Property} (there : d.schema.get? name = some p) : p ∈ d.schema.toList :=
    Schema.mem_toList.mpr (by rwa [Schema.name_of_get? there])
  refine ⟨template, ?_, fun c _ m => none _, subscriptions, fun _ p there => (plain p (listed there)).1,
    fun _ p there => (plain p (listed there)).2⟩
  obtain ⟨created, ready, attached, detached, completed, changed⟩ := d.hooks
  rw [none created, none ready, none attached, none detached, none completed, none changed]

/-- What may change of a component on its own. A slot is told by its value and by whether it is being
written. -/
structure Outlook where
  stage : Stage
  slots : String → Option (Value × Bool)
  attributes : Keyed String

structure Component.Lone (d : Definition κ) (x : NodeId) (o : Outlook) (c : Component κ) : Prop where
  definition : c.definition = d
  node : c.node = x
  owner : c.owner = none
  parts : ∀ p ∈ c.parts, p.capability ∈ d.capabilities
  bindings : ∀ t, c.bindings = some t → t = .ofHost x
  boundProperties : c.boundProperties = []
  watcher : c.watcher = none
  link : c.link = none
  waiters : c.waiters = []
  whenReady : c.whenReady = []
  stage : c.stage = o.stage
  slots : ∀ name, (Keyed.get? c.slots name).map (fun slot => (slot.value, slot.busy)) = o.slots name

structure Scene.Lone (d : Definition κ) (codec : Codec) (id : ComponentId) (x : NodeId) (o : Outlook)
    (s : Scene κ) : Prop where
  component : ∃ c, s.component? id = some c ∧ c.Lone d x o
  host : s.componentAt? x = some id
  node : ∃ n, s.document.node? x = some n ∧ n.attributes = o.attributes ∧ n.children = [] ∧
    n.listeners = []
  codec : s.codec = codec

theorem Scene.componentAt?_modify (s : Scene κ) (id : ComponentId) {f : Component κ → Component κ}
    (keeps : ∀ c, s.component? id = some c → (f c).node = c.node) (x : NodeId) :
    (s.modify id f).componentAt? x = s.componentAt? x := by
  refine componentAt?_of_nodes (fun other => ?_) x
  rw [component?_modify]
  split
  · next here =>
    subst here
    cases found : s.component? id with
    | none => rfl
    | some c => exact congrArg some (keeps c found)
  · rfl

namespace Scene.Lone
variable {d : Definition κ} {codec : Codec} {id : ComponentId} {x : NodeId} {o o' : Outlook}
  {s : Scene κ}

/-- A change of the component that it stays on its own with. -/
theorem modify (lone : s.Lone d codec id x o) {f : Component κ → Component κ}
    (kept : ∀ c : Component κ, c.Lone d x o → (f c).Lone d x o')
    (still : o'.attributes = o.attributes) : (s.modify id f).Lone d codec id x o' := by
  obtain ⟨⟨c, found, own⟩, host, ⟨n, there, attributes, rest⟩, codec⟩ := lone
  refine ⟨⟨f c, ?_, kept c own⟩, ?_, ⟨n, there, attributes.trans still.symm, rest⟩, codec⟩
  · rw [component?_modify, if_pos rfl, found, Option.map_some]
  · rw [componentAt?_modify, host]
    intro c' found'
    cases found.symm.trans found'
    rw [(kept c own).node, own.node]

/-- A change of the document that the host node keeps nothing of but attributes. -/
theorem edit (lone : s.Lone d codec id x o) {f : Document → Document} {attributes : Keyed String}
    (kept : ∀ n, s.document.node? x = some n → ∃ m, (f s.document).node? x = some m ∧
      (n.attributes = o.attributes → m.attributes = attributes) ∧ m.children = n.children ∧
      m.listeners = n.listeners) :
    (s.edit f).Lone d codec id x { o with attributes := attributes } := by
  obtain ⟨⟨c, found, own⟩, host, ⟨n, there, named, children, listeners⟩, codec⟩ := lone
  obtain ⟨m, here, come, below, told⟩ := kept n there
  exact ⟨⟨c, found, { own with }⟩, host,
    ⟨m, here, come named, below.trans children, told.trans listeners⟩, codec⟩

/-- A change of the attributes of the host node. -/
theorem editHost (lone : s.Lone d codec id x o) (g : Keyed String → Keyed String) :
    (s.edit (·.modify x fun n => { n with attributes := g n.attributes })).Lone d codec id x
      { o with attributes := g o.attributes } :=
  lone.edit fun n there => ⟨{ n with attributes := g n.attributes },
    by rw [Document.node?_modify, if_pos rfl, there, Option.map_some], congrArg g, rfl, rfl⟩

/-- The journal has nothing to do with it. -/
theorem journal (lone : s.Lone d codec id x o) (journal : Option Journal) :
    ({ s with journal := journal } : Scene κ).Lone d codec id x o :=
  ⟨lone.component, lone.host, lone.node, lone.codec⟩

end Scene.Lone
end LiveTree
