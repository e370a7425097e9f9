import LiveTree.Proofs.Atomicity
import LiveTree.Proofs.Display.Course
import LiveTree.Proofs.Readiness.Template
import LiveTree.Proofs.Subscription
import Mathlib.Logic.Relation

/-! Which components a component feeds. In an orderly scene its bindings lead to nodes that come after its own,
so that no component feeds itself, directly or through others, and none is fed by two. What a value sets off that
is pushed to a component then stays with that component and those that it feeds. -/
namespace LiveTree
variable {κ : Type}

def Source.isProperty : Source → Bool
  | .property .. => true
  | _ => false

namespace Scene
variable {s t u : Scene κ} {id other : ComponentId} {i : Nat} {target : String} {x : NodeId} {b : Binding}

def read (s : Scene κ) (id : ComponentId) : Source → Value
  | .property path negate => if negate then (s.follow id path).negated else s.follow id path
  | .channel path _ => s.follow id path
  | .call .. => .undefined

/-- A binding takes a property to a node that comes after the component's own: to the text of a text node, or to
an element, the component at which declares the target if there is one. -/
structure Neat (s : Scene κ) (c : Component κ) (x : NodeId) (b : Binding) : Prop where
  reads : b.source.isProperty = true
  order : c.node.index < x.index
  text : b.target = textTarget → s.Plain x textTarget
  declared : b.target ≠ textTarget → ∀ other ∈ s.componentAt? x, ∀ d ∈ s.component? other,
    d.schema.contains b.target = true

/-- The component has no context, text that was in its host has been written, its properties have attributes of their
own, and so have at each site the targets that are bound. -/
structure Proper (s : Scene κ) (c : Component κ) : Prop where
  unlinked : c.link.bind Link.context? = none
  spent : c.completed = true → c.lightText = ""
  attributes : ∀ p ∈ c.schema.toList, ∀ q ∈ c.schema.toList, p.attributeName = q.attributeName → p.name = q.name
  distinct : ∀ t ∈ c.bindings, ∀ y ∈ t.bindings, ∀ z ∈ t.bindings, y.1 = z.1 →
    attributeOf y.2.target = attributeOf z.2.target → y.2.target = z.2.target
  neat : ∀ t ∈ c.bindings, ∀ y ∈ t.bindings, ∀ x ∈ t.nodeAt? y.1, s.Neat c x y.2

def Heeds (s : Scene κ) (x : NodeId) (event : String) : Listener κ → Prop
  | .writeBack id i target => target ≠ textTarget ∧
      ∃ y ∈ s.bound? id i target, y.1 = x ∧ s.changeEvent? x y.2 = some event
  | .handler .. => False
  | _ => True

def Tuned (s : Scene κ) : Prop :=
  ∀ x, ∀ l ∈ s.document.listed x, ∀ k ∈ (s.listeners.get? l.2.index).join, s.Heeds x l.1 k

structure Orderly (s : Scene κ) : Prop where
  uncalled : s.called = []
  proper : ∀ id, ∀ c ∈ s.component? id, s.Proper c
  tuned : s.Tuned

def Feeds (s : Scene κ) (id other : ComponentId) : Prop :=
  ∃ i target x b, s.bound? id i target = some (x, b) ∧ s.componentAt? x = some other

def Reaches (s : Scene κ) : ComponentId → ComponentId → Prop := Relation.ReflTransGen s.Feeds

def Governs (s : Scene κ) (id : ComponentId) (x : NodeId) : Prop :=
  ∃ other, s.Reaches id other ∧ ((∃ c, s.component? other = some c ∧ c.node = x) ∨
    ∃ i target b, s.bound? other i target = some (x, b))

namespace Orderly
variable (orderly : s.Orderly) (firm : s.Firm)
include orderly firm

theorem neat (bound : s.bound? id i target = some (x, b)) :
    ∃ c, s.component? id = some c ∧ b.target = target ∧ s.Neat c x b := by
  obtain ⟨c, t, found, own, here, held⟩ := s.component_of_bound? bound
  exact ⟨c, found, firm.target_eq bound,
    (orderly.proper id c found).neat t own _ (BindingTree.mem_bindings held) x here⟩

/-- Two bindings lead to the same node only if they are at the same site. -/
theorem apart {whose : ComponentId} {j : Nat} {key : String} {d : Binding}
    (bound : s.bound? id i target = some (x, b)) (bound' : s.bound? whose j key = some (x, d)) :
    id = whose ∧ i = j := by
  have pos {id : ComponentId} {i : Nat} {target : String} {b : Binding}
      (bound : s.bound? id i target = some (x, b)) : 0 < i := by
    obtain ⟨c, found, -, neat⟩ := orderly.neat firm bound
    refine Nat.pos_of_ne_zero ?_
    rintro rfl
    obtain ⟨f, here, at_⟩ := Option.bind_eq_some_iff.mp (s.nodeAt?_of_bound? bound)
    rw [footing?, found] at here
    cases here
    have host : x = c.node := (firm.each id c.footing (by rw [footing?, found]; rfl)).host x at_
    exact absurd neat.order (by rw [host]; exact Nat.lt_irrefl _)
  exact firm.apart id whose i j x (pos bound) (pos bound') (s.nodeAt?_of_bound? bound) (s.nodeAt?_of_bound? bound')

/-- At a site the targets have attributes of their own. -/
theorem distinct {key : String} {d : Binding} (bound : s.bound? id i target = some (x, b))
    (bound' : s.bound? id i key = some (x, d)) (same : attributeOf target = attributeOf key) : target = key := by
  obtain ⟨c, t, found, own, -, held⟩ := s.component_of_bound? bound
  obtain ⟨c', t', found', own', -, held'⟩ := s.component_of_bound? bound'
  cases found.symm.trans found'
  cases own.symm.trans own'
  rw [← firm.target_eq bound, ← firm.target_eq bound'] at same ⊢
  exact (orderly.proper id c found).distinct t own _ (BindingTree.mem_bindings held) _
    (BindingTree.mem_bindings held') rfl same

theorem lt_of_feeds (feeds : s.Feeds id other) : ∃ c d, s.component? id = some c ∧ s.component? other = some d ∧
    c.node.index < d.node.index := by
  obtain ⟨i, target, x, b, bound, here⟩ := feeds
  obtain ⟨c, found, -, neat⟩ := orderly.neat firm bound
  obtain ⟨d, there, rfl⟩ := componentAt?_spec here
  exact ⟨c, d, found, there, neat.order⟩

theorem le_of_reaches (reaches : s.Reaches id other) {c d : Component κ} (found : s.component? id = some c)
    (there : s.component? other = some d) : c.node.index ≤ d.node.index := by
  induction reaches generalizing d with
  | refl =>
    cases found.symm.trans there
    exact Nat.le_refl _
  | tail _ last ih =>
    obtain ⟨e, d', here, there', less⟩ := orderly.lt_of_feeds firm last
    cases there.symm.trans there'
    exact (ih here).trans less.le

theorem not_reaches_back (feeds : s.Feeds id other) : ¬s.Reaches other id := by
  intro back
  obtain ⟨c, d, found, there, less⟩ := orderly.lt_of_feeds firm feeds
  exact absurd (orderly.le_of_reaches firm back there found) (Nat.not_le_of_lt less)

theorem ne_of_feeds (feeds : s.Feeds id other) : other ≠ id := by
  rintro rfl
  exact orderly.not_reaches_back firm feeds .refl

/-- A component is fed by one other at most. -/
theorem feeder_eq {whose : ComponentId} (feeds : s.Feeds id other) (feeds' : s.Feeds whose other) : id = whose := by
  obtain ⟨i, target, x, b, bound, here⟩ := feeds
  obtain ⟨j, key, y, d, bound', there⟩ := feeds'
  obtain ⟨c, found, rfl⟩ := componentAt?_spec here
  obtain ⟨c', found', rfl⟩ := componentAt?_spec there
  cases found.symm.trans found'
  exact (orderly.apart firm bound bound').1

/-- What one fed component reaches none of the others does that are fed by the same. -/
theorem not_reaches_beside {whose : ComponentId} (feeds : s.Feeds id other) (feeds' : s.Feeds id whose)
    (apart : other ≠ whose) : ¬s.Reaches other whose := by
  intro reaches
  rcases Relation.ReflTransGen.cases_tail reaches with same | ⟨last, front, step⟩
  · exact apart same.symm
  · cases orderly.feeder_eq firm feeds' step
    exact orderly.not_reaches_back firm feeds front

/-- A node that is no component's is not governed by those that the component feeds to whose binding it belongs. -/
theorem not_governs (bound : s.bound? id i target = some (x, b)) (free : s.componentAt? x = none)
    (feeds : s.Feeds id other) : ¬s.Governs other x := by
  rintro ⟨whose, reaches, ⟨c, found, rfl⟩ | ⟨j, key, d, bound'⟩⟩
  · exact componentAt?_eq_none.mp free whose c found rfl
  · obtain ⟨rfl, -⟩ := orderly.apart firm bound bound'
    exact orderly.not_reaches_back firm feeds reaches

end Orderly

theorem Governs.of_feeds (feeds : s.Feeds id other) (governs : s.Governs other x) : s.Governs id x := by
  obtain ⟨whose, reaches, here⟩ := governs
  exact ⟨whose, .head feeds reaches, here⟩

namespace Alike
variable {F : List Field} (alike : s.Alike F t) (out : ∀ f ∈ [Field.definition, .bindings, .components], f ∉ F)
include alike out

theorem schemaAt (x : NodeId) : t.schemaAt x = s.schemaAt x := by
  have schemas (id : ComponentId) :
      (t.component? id).map Component.schema = (s.component? id).map Component.schema := by
    refine alike.map_component? (out _ (by decide)) _ (fun c d same => ?_) id
    have definition : d.definition = c.definition := same.view .definition (out _ (by decide))
    rw [Component.schema, definition]
    rfl
  rw [Scene.schemaAt, Scene.schemaAt, alike.componentAt? (out _ (by decide))]
  cases s.componentAt? x with
  | none => rfl
  | some other => exact schemas other

theorem changeEvent? {d : Binding} (still : d.still = b.still) : t.changeEvent? x d = s.changeEvent? x b := by
  have source : d.source = b.source := (congrArg Binding.source still : d.still.source = b.still.source)
  have target : d.target = b.target := (congrArg Binding.target still : d.still.target = b.still.target)
  rw [Scene.changeEvent?, Scene.changeEvent?, source, target, alike.schemaAt out]

theorem exists_bound? (bound : s.bound? id i target = some (x, b)) :
    ∃ d, t.bound? id i target = some (x, d) ∧ d.still = b.still := by
  have same := alike.bound?_still (out _ (by decide)) (out _ (by decide)) id i target
  rw [bound, Option.map_some] at same
  obtain ⟨⟨y, d⟩, there, same⟩ := Option.map_eq_some_iff.mp same
  obtain ⟨rfl, still⟩ := Prod.mk.inj same
  exact ⟨d, there, still⟩

theorem bound?_of (bound : t.bound? id i target = some (x, b)) :
    ∃ d, s.bound? id i target = some (x, d) ∧ b.still = d.still := by
  have same := alike.bound?_still (out _ (by decide)) (out _ (by decide)) id i target
  rw [bound, Option.map_some] at same
  obtain ⟨⟨y, d⟩, there, same⟩ := Option.map_eq_some_iff.mp same.symm
  obtain ⟨rfl, still⟩ := Prod.mk.inj same
  exact ⟨d, there, still.symm⟩

theorem heeds {event : String} {k : Listener κ} (heeds : s.Heeds x event k) : t.Heeds x event k := by
  cases k with
  | writeBack id i target =>
    obtain ⟨field, ⟨y, b⟩, bound, rfl, tells⟩ := heeds
    obtain ⟨d, there, still⟩ := alike.exists_bound? out bound
    exact ⟨field, (y, d), there, rfl, (alike.changeEvent? out still).trans tells⟩
  | handler id method => exact heeds
  | consumer k => trivial
  | contextHandler context path => trivial

end Alike

structure Continues (s t : Scene κ) : Prop where
  course : s.Alike Field.coursing t
  tuned : t.Tuned
  enlisted : t.Enlisted

namespace Continues
variable (continues : s.Continues t)
include continues

theorem declares {p : Property} : t.Declares id p ↔ s.Declares id p := (continues.course.declares (by decide)).symm

/-- What is heard anew is heard by listeners that are tuned. -/
theorem later (alike : t.Alike Field.coursing u) (heard : ∀ x, ∀ l ∈ u.document.listed x,
      ∀ k ∈ (u.listeners.get? l.2.index).join, (l ∈ t.document.listed x ∧ k ∈ (t.listeners.get? l.2.index).join) ∨
        t.Heeds x l.1 k) : s.Continues u where
  course := continues.course.trans alike
  enlisted := alike.enrols.enlisted continues.enlisted
  tuned x l inside k here := by
    rcases heard x l inside k here with ⟨before, there⟩ | heeds
    · exact alike.heeds (by decide) (continues.tuned x l before k there)
    · exact alike.heeds (by decide) heeds

theorem still (alike : t.Alike Field.coursing u) (listed : u.document.listed = t.document.listed)
    (listeners : u.listeners = t.listeners) : s.Continues u :=
  continues.later alike fun _ _ inside _ here => .inl ⟨listed ▸ inside, listeners ▸ here⟩

theorem listen {event : String} {k : Listener κ} (heeds : t.Heeds x event k) :
    s.Continues { t.edit (·.addListener x event ⟨t.listeners.size⟩) with listeners := t.listeners.push (some k) } := by
  have alike := (Alike.enrol t (by simp) (by simp) (.listen t x event k)).mono (G := Field.coursing) (by decide)
  refine continues.later alike fun y l inside k' here => ?_
  change k' ∈ ((t.listeners.push (some k)).get? l.2.index).join at here
  rw [Arena.get?_push] at here
  rcases Enrols.listed_listen t x y event inside with before | ⟨rfl, rfl⟩
  · rw [if_neg (Nat.ne_of_lt (continues.enlisted.known y l before))] at here
    exact .inl ⟨before, here⟩
  · rw [if_pos rfl] at here
    cases here
    exact .inr heeds

end Continues

/-- Nothing has changed but components that a component reaches, nodes that it governs, and of its own properties
those of the given names. -/
structure Confines (base : Scene κ) (id : ComponentId) (names : List String) (s t : Scene κ) : Prop where
  others : ∀ other, ¬base.Reaches id other → t.component? other = s.component? other
  held : ∀ name ∉ names, t.held? id name = s.held? id name
  nodes : ∀ x, ¬base.Governs id x → t.document.node? x = s.document.node? x

namespace Confines
variable {base : Scene κ} {names : List String} {y : NodeId}

instance : IsPreorder (Scene κ) (base.Confines id names) where
  refl _ := ⟨fun _ _ => rfl, fun _ _ => rfl, fun _ _ => rfl⟩
  trans _ _ _ first second := ⟨fun other out => (second.others other out).trans (first.others other out),
    fun name out => (second.held name out).trans (first.held name out),
    fun x out => (second.nodes x out).trans (first.nodes x out)⟩

theorem of_same (components : t.components = s.components) (document : t.document = s.document) :
    base.Confines id names s t := by
  have same (other : ComponentId) : t.component? other = s.component? other := by
    rw [component?, components, component?]
  exact ⟨fun other _ => same other, fun name _ => by rw [held?, slot?, same, held?, slot?],
    fun x _ => by rw [document]⟩

theorem mono {keys : List String} (confines : base.Confines id names s t) (more : ∀ name ∈ names, name ∈ keys) :
    base.Confines id keys s t :=
  ⟨confines.others, fun name out => confines.held name fun inside => out (more name inside), confines.nodes⟩

theorem modify (s : Scene κ) (reaches : base.Reaches id other) {f : Component κ → Component κ}
    (keeps : other = id → ∀ name ∉ names, (s.modify other f).held? id name = s.held? id name) :
    base.Confines id names s (s.modify other f) where
  others whose out := by
    rw [component?_modify, if_neg]
    rintro rfl
    exact out reaches
  held name out := by
    by_cases own : other = id
    · exact keeps own name out
    · rw [held?, slot?, component?_modify, if_neg own, held?, slot?]
  nodes _ _ := rfl

theorem modifySlot (s : Scene κ) {name : String} (f : Slot → Slot) (inside : name ∈ names) :
    base.Confines id names s (s.modify id fun c => c.modifySlot name f) := by
  refine modify s .refl fun _ key out => ?_
  have apart : ¬(id = id ∧ key = name) := fun both => out (both.2 ▸ inside)
  rw [held?, slot?_modifySlot, if_neg apart, held?]

theorem edit (s : Scene κ) (governs : base.Governs id y) {f : Document → Document}
    (keeps : ∀ x, x ≠ y → (f s.document).node? x = s.document.node? x) : base.Confines id names s (s.edit f) :=
  ⟨fun _ _ => rfl, fun _ _ => rfl, fun x out => keeps x fun same => out (same ▸ governs)⟩

end Confines

end Scene
end LiveTree
