import LiveTree.Proofs.Contract.Parts
import LiveTree.Proofs.Display.Spots

/-! Spots: the places at plain nodes where bindings of completed components show their properties. A spot stays
where it is in the course of a write, as long as no method that may be called adds or removes bindings. -/
namespace LiveTree
variable {κ : Type}

def Service.rebinds : Service → Bool
  | .addBinding | .removeBinding => true
  | _ => false

def Source.method? : Source → Option String
  | .call method _ => some method
  | _ => none

namespace Document
variable {d e : Document} {x : NodeId}

theorem isText_iff_tag : d.isText x = true ↔ x.index < d.size ∧ d.tag? x = none := by
  rw [← contains_iff, contains, isText, tag?, content?]
  cases d.node? x with
  | none => simp
  | some n => cases content : n.content <;> simp [content]

end Document

namespace Scene
variable {s t : Scene κ} {F : List Field} {id : ComponentId} {site : Nat} {target : String} {x : NodeId}

def Fixes (s : Scene κ) (id : ComponentId) (method : String) : Prop := ∀ c, s.component? id = some c →
  ∀ x, c.definition.method? method = some (.service x) → x.rebinds = false

def Steady (s : Scene κ) : Prop := ∀ id method, s.Calls id method → s.Fixes id method

def called (s : Scene κ) : List (ComponentId × String) :=
  (s.componentIds.flatMap fun id => (s.component? id).elim [] fun c =>
    ((c.schema.toList.flatMap fun p => p.validator.toList ++ p.observer.toList) ++
      (c.bindings.elim [] fun t => t.bindings.filterMap fun x => x.2.source.method?)).map fun m => (id, m)) ++
  s.listeners.toList.filterMap fun l => match l with
    | some (.handler id method) => some (id, method)
    | _ => none

theorem Calls.mem_called {method : String} (calls : s.Calls id method) : (id, method) ∈ s.called := by
  have mine {c : Component κ} (found : s.component? id = some c) (inside : method ∈
      (c.schema.toList.flatMap fun p => p.validator.toList ++ p.observer.toList) ++
        (c.bindings.elim [] fun t => t.bindings.filterMap fun x => x.2.source.method?)) :
      (id, method) ∈ s.called := by
    refine List.mem_append_left _ (List.mem_flatMap.mpr ⟨id, mem_componentIds found, ?_⟩)
    rw [found]
    exact List.mem_map_of_mem inside
  cases calls with
  | validator declared named =>
    obtain ⟨c, found, own⟩ := declared
    refine mine found (List.mem_append_left _ (List.mem_flatMap.mpr ⟨_, Schema.mem_toList.mpr own, ?_⟩))
    simp [named]
  | observer declared named =>
    obtain ⟨c, found, own⟩ := declared
    refine mine found (List.mem_append_left _ (List.mem_flatMap.mpr ⟨_, Schema.mem_toList.mpr own, ?_⟩))
    simp [named]
  | @computed c site target b arguments found held reads =>
    obtain ⟨t, own, held⟩ := Option.bind_eq_some_iff.mp held
    refine mine found (List.mem_append_right _ ?_)
    rw [own]
    refine List.mem_filterMap.mpr ⟨(site, b), BindingTree.mem_bindings held, ?_⟩
    rw [reads]
    rfl
  | @handler l found =>
    refine List.mem_append_right _ (List.mem_filterMap.mpr ⟨some (.handler id method), ?_, rfl⟩)
    exact Array.mem_def.mp (Array.mem_of_getElem? found)

theorem steady_of_called (fixes : ∀ y ∈ s.called, s.Fixes y.1 y.2) : s.Steady := fun _ _ calls =>
  fixes _ calls.mem_called

def Plain (s : Scene κ) (x : NodeId) (target : String) : Prop :=
  s.componentAt? x = none ∧
    if target = textTarget then s.document.isText x = true else s.document.isElement x = true

namespace Alike

theorem plain (alike : s.Alike F t) (known : .components ∉ F) (elements : .elements ∉ F) (plain : s.Plain x target) :
    t.Plain x target := by
  have tags : t.document.tag? = s.document.tag? := alike.view .elements elements
  refine ⟨(alike.componentAt? known x).trans plain.1, ?_⟩
  obtain ⟨-, shape⟩ := plain
  revert shape
  split <;> intro shape
  · obtain ⟨bound, free⟩ := Document.isText_iff_tag.mp shape
    exact Document.isText_iff_tag.mpr ⟨bound.trans_le alike.document.size, by rw [tags]; exact free⟩
  · rw [Document.isElement_iff] at shape ⊢
    rwa [tags]

theorem property (alike : s.Alike F t) (known : .components ∉ F) (values : .values ∉ F) (id : ComponentId)
    (name : String) : t.property id name = s.property id name := by
  have read (c : Component κ) :
      c.property name = (((c.view .values name).map Prod.fst).getD .undefined : Value) := by
    rw [Component.property, Slots.value?, Component.view, Option.map_map]
    rfl
  refine congrArg (Option.getD · _) (alike.map_component? known (·.property name) (fun c d same => ?_) id)
  rw [read, read, same.view .values values]

section Steady
variable (alike : s.Alike F t) (out : ∀ f ∈ [Field.definition, .bindings, .components], f ∉ F)
include alike out

theorem definition_of {d : Component κ} (found : t.component? id = some d) :
    ∃ c, s.component? id = some c ∧ d.definition = c.definition := by
  obtain ⟨c, here, same⟩ := alike.component_of (out .components (by decide)) found
  exact ⟨c, here, same.view .definition (out .definition (by decide))⟩

theorem declares {p : Property} : s.Declares id p ↔ t.Declares id p := by
  constructor
  · rintro ⟨c, here, own⟩
    obtain ⟨d, there, same⟩ := alike.component id c here
    have definition : d.definition = c.definition := same.view .definition (out .definition (by decide))
    exact ⟨d, there, by rw [Component.schema, definition]; exact own⟩
  · rintro ⟨d, there, own⟩
    obtain ⟨c, here, definition⟩ := alike.definition_of out there
    exact ⟨c, here, by rw [Component.schema, ← definition]; exact own⟩

theorem fixes {method : String} (fixes : s.Fixes id method) : t.Fixes id method := by
  intro d found x named
  obtain ⟨c, here, definition⟩ := alike.definition_of out found
  exact fixes c here x (by rw [← definition]; exact named)

variable (heard : ∀ l x, t.listeners.get? l = some (some x) → s.listeners.get? l = some (some x) ∨ x.isWriteBack)
include heard

/-- No method can be called by a write that could not be called before. -/
theorem calls {method : String} (calls : t.Calls id method) : s.Calls id method := by
  cases calls with
  | validator declared named => exact .validator ((alike.declares out).mpr declared) named
  | observer declared named => exact .observer ((alike.declares out).mpr declared) named
  | @computed d i key b arguments found held reads =>
    obtain ⟨c, here, same⟩ := alike.component_of (out .components (by decide)) found
    have still := same.binding_still (out .bindings (by decide)) i key
    rw [held, Option.map_some] at still
    obtain ⟨a, there, same⟩ := Option.map_eq_some_iff.mp still.symm
    exact .computed here there ((congrArg Binding.source same).trans reads)
  | handler found => exact .handler ((heard _ _ found).resolve_right fun own => own.elim)

theorem steady (steady : s.Steady) : t.Steady := fun _ _ called =>
  alike.fixes out (steady _ _ (alike.calls out heard called))

end Steady

theorem bound?_still (alike : s.Alike F t) (known : .components ∉ F) (bindings : .bindings ∉ F)
    (id : ComponentId) (site : Nat) (target : String) :
    (t.bound? id site target).map (fun y => (y.1, y.2.still)) =
      (s.bound? id site target).map fun y => (y.1, y.2.still) := by
  have own (b : BindingTree) : ((b.site? site).bind fun y => (b.binding? site target).map fun d => (y.node, d)).map
      (fun y => (y.1, y.2.still)) =
        (b.still.nodeAt? site).bind fun x => (b.still.binding? site target).map fun d => (x, d) := by
    rw [b.nodeAt?_still, b.binding?_still, BindingTree.nodeAt?]
    cases b.site? site with
    | none => rfl
    | some y => cases b.binding? site target <;> rfl
  have view (u : Scene κ) : (u.bound? id site target).map (fun y => (y.1, y.2.still)) =
      ((u.component? id).map fun c => (c.bindings.map BindingTree.still).bind fun t =>
        (t.nodeAt? site).bind fun x => (t.binding? site target).map fun b => (x, b)).join := by
    unfold bound?
    cases u.component? id with
    | none => rfl
    | some c =>
      cases here : c.bindings with
      | none => simp [here]
      | some b => simpa [here, Option.map_eq_bind] using own b
  rw [view, view, alike.map_component? known _ (fun c d same => ?_) id]
  have trees : d.bindings.map BindingTree.still = c.bindings.map BindingTree.still := same.view .bindings bindings
  rw [trees]

end Alike

theorem nodeAt?_of_bound? {b : Binding} (bound : s.bound? id site target = some (x, b)) :
    s.nodeAt? id site = some x := by
  obtain ⟨c, t, found, own, here, -⟩ := s.component_of_bound? bound
  rw [nodeAt?, footing?, found]
  change ((c.bindings.map BindingTree.still).bind fun t => t.nodeAt? site) = some x
  rw [own]
  exact (t.nodeAt?_still site).trans here

theorem Firm.bound?_of_mem (firm : s.Firm) {c : Component κ} (found : s.component? id = some c) {t : BindingTree}
    (own : c.bindings = some t) {b : Binding} (inside : (site, b) ∈ t.bindings) :
    ∃ x, s.bound? id site b.target = some (x, b) := by
  have tidy := Component.tidy_footing.mp (firm.each id c.footing (by rw [footing?, found]; rfl)).tidy
  have held := (tidy t own).binding?_of_mem inside
  obtain ⟨y, here, -⟩ := Option.bind_eq_some_iff.mp held
  refine ⟨y.node, ?_⟩
  simp [bound?, found, own, here, held]

theorem Firm.target_eq (firm : s.Firm) {b : Binding} (bound : s.bound? id site target = some (x, b)) :
    b.target = target := by
  obtain ⟨c, t, found, own, -, held⟩ := s.component_of_bound? bound
  have tidy := Component.tidy_footing.mp (firm.each id c.footing (by rw [footing?, found]; rfl)).tidy
  exact (tidy t own).target held

/-- The first site is at the host, which is a component's. -/
theorem Firm.site_pos (firm : s.Firm) (here : s.nodeAt? id site = some x) (free : s.componentAt? x = none) :
    0 < site := by
  obtain ⟨f, found, at_⟩ := Option.bind_eq_some_iff.mp here
  obtain ⟨c, there, rfl⟩ := Option.map_eq_some_iff.mp found
  refine Nat.pos_of_ne_zero ?_
  rintro rfl
  exact componentAt?_eq_none.mp free id c there ((firm.each id c.footing found).host x at_).symm

end Scene

def Field.coursing : List Field := .values :: Act.Touches.spreading

/-- A target of a node that is bound to a path of properties of a component. -/
structure Spot where
  id : ComponentId
  site : Nat
  target : String
  node : NodeId
  binding : Binding
  path : String
  negate : Bool
  reads : binding.source = .property path negate

namespace Spot
variable {o : Spot} {s t u : Scene κ}

def property (o : Spot) : String := Source.rootName o.path

theorem dependencies_of_still (o : Spot) {b : Binding} (same : b.still = o.binding.still) :
    b.dependencies = [o.property] := by
  have source : b.source = o.binding.source := (congrArg Binding.source same : b.still.source = _)
  rw [Binding.dependencies, source, o.reads]
  rfl

def value (o : Spot) (s : Scene κ) : Value :=
  if o.negate then (s.follow o.id o.path).negated else s.follow o.id o.path

def shown? (o : Spot) (s : Scene κ) : Option Display := s.document.display? o.node o.target

/-- The spot is one of a completed component that has no owner. The node is plain, and the attribute of the
target is that of no other target that is bound there. -/
structure In (o : Spot) (s : Scene κ) : Prop where
  firm : s.Firm
  steady : s.Steady
  done : ∃ c, s.component? o.id = some c ∧ c.completed = true ∧ c.owner = none
  bound : (s.bound? o.id o.site o.target).map (fun y => (y.1, y.2.still)) = some (o.node, o.binding.still)
  plain : s.Plain o.node o.target
  sole : ∀ target x b, s.bound? o.id o.site target = some (x, b) →
    attributeOf target = attributeOf o.target → target = o.target

structure Kept (o : Spot) (s t : Scene κ) : Prop where
  course : s.Alike Field.coursing t
  shown : o.shown? t = o.shown? s
  property : t.property o.id o.property = s.property o.id o.property

instance : IsPreorder (Scene κ) o.Kept where
  refl s := ⟨.refl s, rfl, rfl⟩
  trans _ _ _ first second := ⟨first.course.trans second.course, second.shown.trans first.shown,
    second.property.trans first.property⟩

namespace In

/-- A spot stays where it is in the course of a write. -/
theorem later (here : o.In s) (alike : s.Alike Field.coursing t)
    (heard : ∀ l x, t.listeners.get? l = some (some x) → s.listeners.get? l = some (some x) ∨ x.isWriteBack) :
    o.In t where
  firm := (Scene.Carries.of_alike alike (by decide) (by decide)).firm alike.document.size here.firm
  steady := alike.steady (by decide) heard here.steady
  done := by
    obtain ⟨c, found, completed, free⟩ := here.done
    obtain ⟨d, there, same⟩ := alike.component o.id c found
    have still : d.completed = c.completed := same.view .completed (by decide)
    exact ⟨d, there, still.trans completed, same.owner.trans free⟩
  bound := (alike.bound?_still (by decide) (by decide) _ _ _).trans here.bound
  plain := alike.plain (by decide) (by decide) here.plain
  sole target x b bound := by
    have still := alike.bound?_still (by decide) (by decide) o.id o.site target
    rw [bound, Option.map_some] at still
    obtain ⟨⟨y, a⟩, there, -⟩ := Option.map_eq_some_iff.mp still.symm
    exact here.sole target y a there

theorem still_of_bound? (here : o.In s) {x : NodeId} {b : Binding} (bound : s.bound? o.id o.site o.target = some (x, b)) :
    x = o.node ∧ b.still = o.binding.still := by
  have same := here.bound
  rw [bound, Option.map_some, Option.some.injEq, Prod.mk.injEq] at same
  exact same

theorem exists_bound? (here : o.In s) :
    ∃ b, s.bound? o.id o.site o.target = some (o.node, b) ∧ b.still = o.binding.still := by
  obtain ⟨⟨x, b⟩, bound, -⟩ := Option.map_eq_some_iff.mp here.bound
  obtain ⟨rfl, same⟩ := here.still_of_bound? bound
  exact ⟨b, bound, same⟩

theorem there (here : o.In s) : o.node.index < s.document.size := by
  obtain ⟨b, bound, -⟩ := here.exists_bound?
  obtain ⟨f, found, inside⟩ := Option.bind_eq_some_iff.mp (s.nodeAt?_of_bound? bound)
  exact (here.firm.each o.id f found).inside o.site o.node inside

theorem node_ne (here : o.In s) {id : ComponentId} {c : Component κ} (found : s.component? id = some c) :
    c.node ≠ o.node := Scene.componentAt?_eq_none.mp here.plain.1 id c found

theorem footing (here : o.In s) {c : Component κ} (found : s.component? o.id = some c) :
    c.footing.Firm s.document.size := here.firm.each o.id c.footing (by rw [Scene.footing?, found]; rfl)

theorem settled (here : o.In s) : s.isSettled o.id = true ∧
    ∀ c, s.component? o.id = some c → c.bindingsReady = true := by
  obtain ⟨c, found, completed, free⟩ := here.done
  obtain ⟨ready, pushed⟩ := (here.footing found).settled completed
  have ready : c.isReady = true := ready
  refine ⟨by simp [Scene.isSettled, found, ready, free], fun d there => ?_⟩
  cases found.symm.trans there
  exact pushed

theorem mem_boundProperties (here : o.In s) {c : Component κ} (found : s.component? o.id = some c) :
    o.property ∈ c.boundProperties := by
  obtain ⟨b, bound, same⟩ := here.exists_bound?
  obtain ⟨d, tree, there, own, -, held⟩ := s.component_of_bound? bound
  cases found.symm.trans there
  have noted : c.boundProperties = ((c.bindings.map BindingTree.still).map BindingTree.dependencies).getD [] :=
    (here.footing found).bound
  rw [own] at noted
  rw [noted, Option.map_some, Option.map_some, Option.getD_some, tree.dependencies_still, BindingTree.dependencies,
    List.mem_eraseDups]
  refine List.mem_flatMap.mpr ⟨(o.site, b), BindingTree.mem_bindings held, ?_⟩
  rw [o.dependencies_of_still same]
  exact List.mem_cons_self

/-- Other bindings are at other nodes, or their targets have other attributes. -/
theorem elsewhere (here : o.In s) {id : ComponentId} {site : Nat} {target : String} {x : NodeId} {b : Binding}
    (bound : s.bound? id site target = some (x, b)) (other : ¬(id = o.id ∧ site = o.site ∧ target = o.target)) :
    x ≠ o.node ∨ attributeOf target ≠ attributeOf o.target := by
  refine Decidable.or_iff_not_imp_left.mpr fun same => ?_
  obtain rfl := Decidable.not_not.mp same
  obtain ⟨a, own, -⟩ := here.exists_bound?
  have there := s.nodeAt?_of_bound? bound
  have own := s.nodeAt?_of_bound? own
  obtain ⟨rfl, rfl⟩ := here.firm.apart id o.id site o.site _ (here.firm.site_pos there here.plain.1)
    (here.firm.site_pos own here.plain.1) there own
  exact fun attr => other ⟨rfl, rfl, here.sole target _ b bound attr⟩

end In
end Spot
end LiveTree
