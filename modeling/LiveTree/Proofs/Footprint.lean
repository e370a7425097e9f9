import LiveTree.Proofs.Contract.Composite
import LiveTree.Proofs.Contract.Rules
import LiveTree.Proofs.Roster

/-! Footprints: which parts of a scene an act may change by itself, and which kinds of calls it may
make. All else it leaves as it was; what its calls do is told by their own contracts. -/
namespace LiveTree

inductive Field
  -- of the scene
  | document | tree | elements | texts | codec | catalog | journal | definitions | defaults | waiting
  | components | listeners | contexts | namedContexts | templateOwner | loading | pending
  -- of its components
  | definition | values | names | notify | capabilities | parts | stage | bindings | flow | refs
  | content | lightText | strays | barrier | completed | waiters | whenReady | wired | watcher
  | bindingsReady | boundProperties | changing | link | writingBack
  deriving DecidableEq

inductive Call.Kind
  | write | connect | release | service | deliver | callback | hook | registered | apply
  deriving DecidableEq

variable {κ σ α β : Type}

def Occasion.kind : Occasion → Call.Kind
  | .hook _ => .hook
  | .registered => .registered
  | _ => .callback

def Call.kind : Call κ → Call.Kind
  | .write .. => .write
  | .connect _ => .connect
  | .release _ => .release
  | .service .. => .service
  | .deliver .. => .deliver
  | .callback _ o => o.kind
  | .apply .. => .apply

def Binding.still (b : Binding) : Binding :=
  { b with ready := false, updating := false, value := .undefined, listener := none }

def Site.still (site : Site) : Site :=
  { site with bindings := site.bindings.map fun b => (b.1, b.2.still) }

def BindingTree.still (t : BindingTree) : BindingTree := ⟨⟨t.sites.cells.map Site.still⟩⟩

@[reducible] def Field.OfScene (κ : Type) : Field → Type
  | document => Document
  | tree => Array Frame
  | elements => NodeId → Option String
  | texts => Array (Option String)
  | codec => Codec
  | catalog => Catalog
  | journal => Option Journal
  | definitions => Keyed (Definition κ)
  | defaults => List (Capability κ)
  | waiting => Keyed (List κ)
  | components => Nat
  | listeners => Arena (Option (Listener κ))
  | contexts => Arena Context
  | namedContexts => Keyed ContextId
  | templateOwner => Option ComponentId
  | loading => Bool
  | pending => List ComponentId
  | _ => Unit

def Scene.view (s : Scene κ) : (f : Field) → f.OfScene κ
  | .document => s.document
  | .tree => s.document.tree
  | .elements => s.document.tag?
  | .texts => s.document.texts
  | .codec => s.codec
  | .catalog => s.catalog
  | .journal => s.journal
  | .definitions => s.definitions
  | .defaults => s.defaults
  | .waiting => s.waiting
  | .components => s.components.size
  | .listeners => s.listeners
  | .contexts => s.contexts
  | .namedContexts => s.namedContexts
  | .templateOwner => s.templateOwner
  | .loading => s.loading
  | .pending => s.pending
  | .definition | .values | .names | .notify | .capabilities | .parts | .stage | .bindings | .flow
  | .refs | .content | .lightText | .strays | .barrier | .completed | .waiters | .whenReady | .wired
  | .watcher | .bindingsReady | .boundProperties | .changing | .link | .writingBack => ()

@[simp] theorem Scene.view_tree (s : Scene κ) : s.view .tree = s.document.tree := rfl

@[simp] theorem Scene.view_texts (s : Scene κ) : s.view .texts = s.document.texts := rfl

@[reducible] def Field.OfComponent (κ : Type) : Field → Type
  | definition => Definition κ
  | values => String → Option (Value × Bool)
  | names => List String
  | notify => String → Option Bool
  | capabilities => List (Capability κ)
  | parts => List (Part κ)
  | stage => Stage
  | bindings | flow => Option BindingTree
  | refs => Keyed NodeId
  | content => Option NodeId
  | lightText => String
  | strays | waiters => List ComponentId
  | barrier => Barrier
  | completed | bindingsReady | changing | writingBack => Bool
  | whenReady => List κ
  | wired => List (NodeId × String × ListenerId)
  | watcher => Option (Watcher κ)
  | boundProperties => List String
  | link => Option Link
  | _ => Unit

/-- What a component has in a field. Of a slot, value and token are one field and the mark that its
changes are awaited another, and so are the names; of the parts, whose they are is a field of its
own, and of the bindings, what values left in them. -/
def Component.view (c : Component κ) : (f : Field) → f.OfComponent κ
  | .definition => c.definition
  | .values => fun name => (Keyed.get? c.slots name).map fun slot => (slot.value, slot.busy)
  | .names => Keyed.names c.slots
  | .notify => fun name => (Keyed.get? c.slots name).map Slot.notify
  | .capabilities => c.parts.map Part.capability
  | .parts => c.parts
  | .stage => c.stage
  | .bindings => c.bindings.map BindingTree.still
  | .flow => c.bindings
  | .refs => c.refs
  | .content => c.content
  | .lightText => c.lightText
  | .strays => c.strays
  | .barrier => c.barrier
  | .completed => c.completed
  | .waiters => c.waiters
  | .whenReady => c.whenReady
  | .wired => c.wired
  | .watcher => c.watcher
  | .bindingsReady => c.bindingsReady
  | .boundProperties => c.boundProperties
  | .changing => c.changing
  | .link => c.link
  | .writingBack => c.writingBack
  | .document | .tree | .elements | .texts | .codec | .catalog | .journal | .definitions | .defaults
  | .waiting | .components | .listeners | .contexts | .namedContexts | .templateOwner | .loading
  | .pending => ()

theorem Component.held_of_view {c d : Component κ} {name : String}
    (same : d.view .values = c.view .values) :
    (Keyed.get? d.slots name).map (fun slot => (slot.value, slot.busy)) =
      (Keyed.get? c.slots name).map fun slot => (slot.value, slot.busy) := congrFun same name

def Component.put (c : Component κ) : (f : Field) → f.OfComponent κ → Component κ
  | .definition, x => { c with definition := x }
  | .stage, x => { c with stage := x }
  | .refs, x => { c with refs := x }
  | .content, x => { c with content := x }
  | .lightText, x => { c with lightText := x }
  | .strays, x => { c with strays := x }
  | .barrier, x => { c with barrier := x }
  | .completed, x => { c with completed := x }
  | .waiters, x => { c with waiters := x }
  | .whenReady, x => { c with whenReady := x }
  | .wired, x => { c with wired := x }
  | .watcher, x => { c with watcher := x }
  | .bindingsReady, x => { c with bindingsReady := x }
  | .boundProperties, x => { c with boundProperties := x }
  | .changing, x => { c with changing := x }
  | .link, x => { c with link := x }
  | .writingBack, x => { c with writingBack := x }
  | _, _ => c

def Scene.put (s : Scene κ) : (f : Field) → f.OfScene κ → Scene κ
  | .codec, x => { s with codec := x }
  | .catalog, x => { s with catalog := x }
  | .journal, x => { s with journal := x }
  | .defaults, x => { s with defaults := x }
  | .waiting, x => { s with waiting := x }
  | .contexts, x => { s with contexts := x }
  | .namedContexts, x => { s with namedContexts := x }
  | .templateOwner, x => { s with templateOwner := x }
  | .loading, x => { s with loading := x }
  | .pending, x => { s with pending := x }
  | _, _ => s

structure Component.Alike (F : List Field) (c d : Component κ) : Prop where
  node : d.node = c.node
  owner : d.owner = c.owner
  view : ∀ f ∉ F, d.view f = c.view f

/-- The second scene agrees with the first on all but some fields. No component is gone, no type
has been dropped, and the document and the rosters have changed by their operations only. -/
structure Scene.Alike (F : List Field) (s t : Scene κ) : Prop where
  config : t.config = s.config
  document : s.document.Follows t.document
  enrols : s.Enrols t
  registered : ∀ tag, s.isRegistered tag = true → t.isRegistered tag = true
  view : ∀ f ∉ F, t.view f = s.view f
  component : ∀ id c, s.component? id = some c → ∃ d, t.component? id = some d ∧ c.Alike F d

namespace Component.Alike
variable {F G : List Field} {c d e : Component κ}

theorem refl (c : Component κ) : c.Alike F c := ⟨rfl, rfl, fun _ _ => rfl⟩

theorem trans (first : c.Alike F d) (second : d.Alike F e) : c.Alike F e :=
  ⟨second.node.trans first.node, second.owner.trans first.owner,
    fun f out => (second.view f out).trans (first.view f out)⟩

theorem mono (alike : c.Alike F d) (fields : ∀ f ∈ F, f ∈ G) : c.Alike G d :=
  ⟨alike.node, alike.owner, fun f out => alike.view f fun inside => out (fields f inside)⟩

theorem put (c : Component κ) (f : Field) (x : f.OfComponent κ) (inside : f ∈ F) :
    c.Alike F (c.put f x) := by
  refine ⟨by cases f <;> rfl, by cases f <;> rfl, fun g out => ?_⟩
  have other : g ≠ f := fun same => out (same ▸ inside)
  cases f <;> cases g <;> first | rfl | exact absurd rfl other

end Component.Alike

namespace Scene

theorem component?_modify (s : Scene κ) (id other : ComponentId)
    (f : Component κ → Component κ) : (s.modify id f).component? other =
      if id = other then (s.component? other).map f else s.component? other := by
  obtain ⟨i⟩ := id
  obtain ⟨j⟩ := other
  simp only [component?, modify, Arena.get?_modify, ComponentId.mk.injEq]

@[simp] theorem size_modify (s : Scene κ) (id : ComponentId) (f : Component κ → Component κ) :
    (s.modify id f).components.size = s.components.size := Arena.size_modify _ _ _

namespace Alike
variable {F G : List Field} {s t u : Scene κ}

theorem refl (s : Scene κ) : s.Alike F s :=
  ⟨rfl, .refl _, .refl s, fun _ known => known, fun _ _ => rfl, fun _ c found => ⟨c, found, .refl c⟩⟩

theorem trans (first : s.Alike F t) (second : t.Alike F u) : s.Alike F u where
  config := second.config.trans first.config
  document := first.document.trans second.document
  enrols := first.enrols.trans second.enrols
  registered tag known := second.registered tag (first.registered tag known)
  view f out := (second.view f out).trans (first.view f out)
  component id c found := by
    obtain ⟨d, there, same⟩ := first.component id c found
    obtain ⟨e, later, same'⟩ := second.component id d there
    exact ⟨e, later, same.trans same'⟩

theorem mono (alike : s.Alike F t) (fields : ∀ f ∈ F, f ∈ G) : s.Alike G t where
  config := alike.config
  document := alike.document
  enrols := alike.enrols
  registered := alike.registered
  view f out := alike.view f fun inside => out (fields f inside)
  component id c found := by
    obtain ⟨d, there, same⟩ := alike.component id c found
    exact ⟨d, there, same.mono fields⟩

theorem modify (s : Scene κ) (id : ComponentId) {f : Component κ → Component κ}
    (alike : ∀ c : Component κ, c.Alike F (f c)) : s.Alike F (s.modify id f) where
  config := rfl
  document := .refl _
  enrols := .of_same rfl rfl
  registered _ known := known
  view g _ := by cases g <;> first | rfl | exact s.size_modify id f
  component other c found := by
    rw [component?_modify]
    by_cases same : id = other
    · exact ⟨f c, by rw [if_pos same, found]; rfl, alike c⟩
    · exact ⟨c, by rw [if_neg same, found], .refl c⟩

theorem put (s : Scene κ) (f : Field) (x : f.OfScene κ) (inside : f ∈ F) :
    s.Alike F (s.put f x) := by
  have others : (s.put f x).components = s.components := by cases f <;> rfl
  have documents : (s.put f x).document = s.document := by cases f <;> rfl
  refine ⟨by cases f <;> rfl, ?_, .of_same (by cases f <;> rfl) (by rw [documents]), ?_,
    fun g out => ?_, fun id c found => ⟨c, ?_, .refl c⟩⟩
  · rw [documents]
    exact .refl _
  · unfold Scene.isRegistered Scene.definition?
    rw [show (s.put f x).definitions = s.definitions by cases f <;> rfl]
    exact fun _ known => known
  · have other : g ≠ f := fun same => out (same ▸ inside)
    cases f <;> cases g <;> first | rfl | exact absurd rfl other
  · rw [component?, others]
    exact found

theorem component_of (alike : s.Alike F t) (out : .components ∉ F) {id : ComponentId}
    {d : Component κ} (found : t.component? id = some d) :
    ∃ c, s.component? id = some c ∧ c.Alike F d := by
  cases here : s.component? id with
  | some c =>
    obtain ⟨e, there, same⟩ := alike.component id c here
    cases there.symm.trans found
    exact ⟨c, rfl, same⟩
  | none =>
    have size : t.components.size = s.components.size := alike.view .components out
    have bound : s.components.size ≤ id.index := Array.getElem?_eq_none_iff.mp here
    have missing : t.component? id = none := Array.getElem?_eq_none (size.trans_le bound)
    exact nomatch missing.symm.trans found

theorem map_component? (alike : s.Alike F t) (out : .components ∉ F) (g : Component κ → β)
    (same : ∀ c d : Component κ, c.Alike F d → g d = g c) (id : ComponentId) :
    (t.component? id).map g = (s.component? id).map g := by
  cases there : t.component? id with
  | some d =>
    obtain ⟨c, here, alike⟩ := alike.component_of out there
    rw [here, Option.map_some, Option.map_some, same c d alike]
  | none =>
    cases here : s.component? id with
    | none => rfl
    | some c =>
      obtain ⟨d, found, -⟩ := alike.component id c here
      exact nomatch there.symm.trans found

end Alike
end Scene

namespace Act

def Touches (F : List Field) (C : List Call.Kind) (m : Act κ α) : Prop :=
  ∀ s, m.Within (Scene.Alike F) (fun c => c.kind ∈ C) s

theorem Within.mono {D E : Scene κ → Scene κ → Prop} {C C' : Call κ → Prop} {m : Act κ α}
    {s : Scene κ} (within : m.Within D C s) (changes : ∀ s t, D s t → E s t)
    (calls : ∀ c, C c → C' c) : m.Within E C' s := by
  induction m generalizing s with
  | done a => trivial
  | read next ih => exact ih _ within
  | put t next ih => exact ⟨changes _ _ within.1, ih within.2⟩
  | call c next ih => exact ⟨calls c within.1, fun a t => ih a (within.2 a t)⟩

theorem Within.bind {D : Scene κ → Scene κ → Prop} {C : Call κ → Prop} {m : Act κ β}
    {f : β → Act κ α} {s : Scene κ} (first : m.Within D C s)
    (second : ∀ b t, (f b).Within D C t) : (m.bind f).Within D C s := by
  induction m generalizing s with
  | done b => exact second b s
  | read next ih => exact ih _ first
  | put t next ih => exact ⟨first.1, ih first.2⟩
  | call c next ih => exact ⟨first.1, fun a t => ih a (first.2 a t)⟩

namespace Touches
variable {F G : List Field} {C D : List Call.Kind}

theorem mono {m : Act κ α} (touches : m.Touches F C) (within : F ⊆ G ∧ C ⊆ D) : m.Touches G D :=
  fun s => (touches s).mono (fun _ _ alike => alike.mono fun _ inside => within.1 inside)
    fun _ kind => within.2 kind

theorem pure (a : α) : (Pure.pure a : Act κ α).Touches F C := fun _ => trivial

theorem done (a : α) : (Act.done a : Act κ α).Touches F C := fun _ => trivial

theorem scene : (scene : Act κ (Scene κ)).Touches F C := fun _ => trivial

theorem update {f : Scene κ → Scene κ} (alike : ∀ s : Scene κ, s.Alike F (f s)) :
    (Act.update f).Touches F C := fun s => ⟨alike s, trivial⟩

theorem modify {id : ComponentId} {f : Component κ → Component κ}
    (alike : ∀ c : Component κ, c.Alike F (f c)) : (Act.modify id f).Touches F C :=
  update fun s => .modify s id alike

/-- An act that looks at the scene first may count on what it saw until it makes a call. -/
theorem sceneBind {f : Scene κ → Act κ α}
    (body : ∀ s, (f s).Within (Scene.Alike F) (fun c => c.kind ∈ C) s) :
    (Act.scene >>= f).Touches F C := fun s => body s

theorem editTo {s : Scene κ} {d : Document} {next : Unit → Act κ α}
    (alike : s.Alike F (s.edit fun _ => d)) (rest : (next ()).Touches F C) :
    (Act.edit (fun _ => d) >>= next).Within (Scene.Alike F) (fun c => c.kind ∈ C) s :=
  ⟨alike, rest _⟩

theorem ask (c : Call κ) (kind : C.contains c.kind = true) : (Act.ask c).Touches F C :=
  fun _ => ⟨List.contains_iff_mem.mp kind, fun _ _ => trivial⟩

theorem bind {m : Act κ β} {f : β → Act κ α} (first : m.Touches F C)
    (second : ∀ b, (f b).Touches F C) : (m >>= f).Touches F C :=
  fun s => (first s).bind fun b t => second b t

theorem each {f : β → Act κ Unit} (items : List β) (body : ∀ b, (f b).Touches F C) :
    (each items f).Touches F C := by
  induction items with
  | nil => exact .done ()
  | cons b rest ih => exact .bind (body b) fun _ => ih

theorem withComponent {id : ComponentId} {a : α} {f : Component κ → Act κ α}
    (body : ∀ c, (f c).Touches F C) : (withComponent id a f).Touches F C := by
  intro s
  simp only [Act.withComponent, Within]
  split
  · exact body _ s
  · trivial

theorem ite {c : Prop} [Decidable c] {m n : Act κ α} (yes : m.Touches F C) (no : n.Touches F C) :
    (if c then m else n).Touches F C := by split <;> assumption

theorem composes : Composes fun {_} (m : Act κ _) => m.Touches F C where
  pure := pure
  scene := scene
  bind := bind

/-- Where no calls come between, all else is still as it was at the end. -/
theorem wp_alone {m : Act κ α} (touches : m.Touches F []) {K : Contract κ σ} {p : Point κ σ}
    (safe : ∀ past s t, p.scene.Alike F s → s.Alike F t → K.safe past (.change s t)) :
    m.wp K (fun _ q => p.scene.Alike F q.scene) p := by
  refine wp_of_within (I := fun q => p.scene.Alike F q.scene) ?_ ?_ (.refl _) (touches p.scene)
  · intro q t kept alike
    exact ⟨safe _ _ _ kept alike, fun _ => kept.trans alike⟩
  · intro c q _ kind
    cases kind

end Touches
end Act
end LiveTree
