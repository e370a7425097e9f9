import LiveTree.Act.Life
import LiveTree.Proofs.Guards.Raised

/-! What the bindings of a component keep to while values travel through them, and what of a tree of
bindings is the same whatever they do. -/
namespace LiveTree
variable {κ : Type}

theorem Arena.map_toList_modify {α β : Type} (a : Arena α) (i : Nat) {f : α → α} {g : α → β}
    (same : ∀ x, g (f x) = g x) : (a.modify i f).toList.map g = a.toList.map g := by
  simp only [toList, modify, Array.toList_modify]
  apply List.ext_getElem?
  intro j
  rw [List.getElem?_map, List.getElem?_modify, List.getElem?_map]
  split <;> cases a.cells.toList[j]? <;> simp [same]

theorem Arena.modify_modify {α : Type} (a : Arena α) (i : Nat) (f g : α → α) :
    (a.modify i f).modify i g = a.modify i (g ∘ f) := by
  simp only [modify, mk.injEq]
  apply Array.ext
  · simp
  · intro j left right
    simp only [Array.getElem_modify]
    split <;> rfl

theorem Keyed.modify_modify {α : Type} (xs : Keyed α) (key : String) (f g : α → α) :
    modify (modify xs key f) key g = modify xs key (g ∘ f) := by
  simp only [modify, List.map_map]
  refine List.map_congr_left fun x _ => ?_
  by_cases same : x.1 = key <;> simp [same]

/-- A change that leaves the entry as it is leaves the record. -/
theorem Keyed.modify_of_same {α : Type} {xs : Keyed α} {key : String} {f : α → α}
    (distinct : (names xs).Nodup) (same : ∀ a, get? xs key = some a → f a = a) :
    modify xs key f = xs := by
  refine (List.map_congr_left fun e member => ?_).trans (List.map_id xs)
  split
  · next here =>
    subst here
    rw [same e.2 (get?_of_mem distinct member)]
    rfl
  · rfl

namespace BindingTree
variable (t : BindingTree)

theorem modify_modify (i : Nat) (target : String) (f g : Binding → Binding) :
    (t.modify i target f).modify i target g = t.modify i target (g ∘ f) := by
  rw [modify, modify, modifySite, modifySite, Arena.modify_modify, modify, modifySite]
  refine congrArg (fun f => BindingTree.mk (t.sites.modify i f)) (funext fun site => ?_)
  exact congrArg (fun bs => { site with bindings := bs }) (Keyed.modify_modify site.bindings target f g)

theorem binding?_insert (i j : Nat) (b : Binding) (key : String) : (t.insert i b).binding? j key =
    if i = j ∧ key = b.target then (t.site? j).map fun _ => b else t.binding? j key := by
  rw [binding?, insert, site?_modifySite, binding?]
  by_cases here : i = j
  · cases t.site? j with
    | none => simp
    | some site =>
      by_cases same : key = b.target
      · simp [here, same, Keyed.get?_insert_self]
      · simp [here, same, Keyed.get?_insert_of_ne _ _ same]
  · rw [if_neg here, if_neg fun both => here both.1]

theorem binding?_erase (i j : Nat) (target key : String) : (t.erase i target).binding? j key =
    if i = j ∧ key = target then none else t.binding? j key := by
  rw [binding?, erase, site?_modifySite, binding?]
  by_cases here : i = j
  · cases t.site? j with
    | none => simp
    | some site => simp [here, Keyed.get?_erase]
  · rw [if_neg here, if_neg fun both => here both.1]

def handlers : List (NodeId × String × String) :=
  t.sites.toList.flatMap fun site => site.handlers.map fun h => (site.node, h.1, h.2)

theorem flatMap_toList {β : Type} (g : Site → List β) :
    (t.toList.flatMap fun x => g x.2) = t.sites.toList.flatMap g := by
  rw [toList, List.flatMap_map]
  calc t.sites.toList.zipIdx.flatMap (fun x => g x.1)
      = (t.sites.toList.zipIdx.map Prod.fst).flatMap g := (List.flatMap_map _ _ _).symm
    _ = t.sites.toList.flatMap g := by rw [List.zipIdx_map_fst]

theorem flatMap_modifySite {β : Type} {g : Site → List β} (i : Nat) {f : Site → Site}
    (same : ∀ x, g (f x) = g x) :
    (t.modifySite i f).sites.toList.flatMap g = t.sites.toList.flatMap g := by
  rw [List.flatMap_def, List.flatMap_def, modifySite, Arena.map_toList_modify _ _ same]

theorem handlers_modifySite (i : Nat) (f : Keyed Binding → Keyed Binding) :
    (t.modifySite i fun site => { site with bindings := f site.bindings }).handlers = t.handlers :=
  t.flatMap_modifySite i fun _ => rfl

theorem dependencies_eq : t.dependencies = (t.sites.toList.flatMap fun site =>
    site.bindings.entries.flatMap Binding.dependencies).eraseDups := by
  rw [dependencies, bindings, List.flatMap_assoc, ← t.flatMap_toList]
  simp only [List.flatMap_map]

theorem dependencies_modify (i : Nat) (target : String) {f : Binding → Binding}
    (same : ∀ b, (f b).source = b.source) : (t.modify i target f).dependencies = t.dependencies := by
  rw [dependencies_eq, dependencies_eq, modify, flatMap_modifySite]
  intro site
  rw [List.flatMap_def, List.flatMap_def, Keyed.entries, Keyed.entries, Keyed.modify, List.map_map,
    List.map_map, List.map_map]
  refine congrArg List.flatten (List.map_congr_left fun b _ => ?_)
  simp only [Function.comp]
  split
  · exact congrArg Source.dependencies (same b.2)
  · rfl

end BindingTree

theorem Act.subscriptionsOf_eq (c : Component κ) : Act.subscriptionsOf c =
    c.definition.subscriptions.filterMap (fun l =>
      (match l.target with
        | none => some c.node
        | some stableId => c.refs.get? stableId).map fun x => (x, l.event, l.handler)) ++
      (c.bindings.map BindingTree.handlers).getD [] := by
  rw [subscriptionsOf]
  refine congrArg (_ ++ ·) ?_
  cases c.bindings with
  | none => rfl
  | some t => exact t.flatMap_toList fun site => site.handlers.map fun h => (site.node, h.1, h.2)

def Source.isCall : Source → Bool
  | .call .. => true
  | _ => false

def Binding.Listens (b : Binding) : Prop :=
  b.mode = .twoWay ∧ b.target ≠ textTarget ∧ b.hasAffixes = false ∧ b.source.isCall = false

instance (b : Binding) : Decidable b.Listens := inferInstanceAs (Decidable (_ ∧ _ ∧ _ ∧ _))

/-- A binding that listens at all does so from its first push on, and none does before. -/
structure Binding.Coherent (b : Binding) (target : String) : Prop where
  named : b.target = target
  unready : b.ready = false → b.listener = none
  ready : b.ready = true → b.Listens → b.listener.isSome = true

def Component.Coherent (c : Component κ) : Prop :=
  c.boundProperties = (c.bindings.map BindingTree.dependencies).getD [] ∧
    ∀ i target b, c.binding? i target = some b → b.Coherent target

def Binding.idle (b : Binding) : Binding := { b with updating := false, value := .undefined }

theorem Binding.Coherent.of_idle {b d : Binding} {target : String} (coherent : b.Coherent target)
    (same : d.idle = b.idle) : d.Coherent target := by
  have idle : d.idle.Coherent target :=
    same ▸ (⟨coherent.named, coherent.unready, coherent.ready⟩ : b.idle.Coherent target)
  exact ⟨idle.named, idle.unready, idle.ready⟩

theorem Binding.coherent_ofToken (target : String) (token : Token) (p : Option Property) :
    (Binding.ofToken target token p).Coherent target := ⟨rfl, fun _ => rfl, fun ready => by cases ready⟩

theorem BindingTree.coherent_ofTemplate (s : Surroundings) (host : NodeId) (template : List NodeId)
    {i : Nat} {target : String} {b : Binding}
    (found : (ofTemplate s host template).binding? i target = some b) :
    b.listener = none ∧ b.Coherent target := by
  have fresh := bindings_ofTemplate s (P := fun bs => ∀ target b, Keyed.get? bs target = some b →
    ∃ token, b = s.bind target token) (fun _ _ held => nomatch held) (fun bs key token holds target b found => ?_)
    host template
  · obtain ⟨site, there, held⟩ := Option.bind_eq_some_iff.mp found
    obtain ⟨token, rfl⟩ := fresh i site there target b held
    exact ⟨rfl, Binding.coherent_ofToken _ _ _⟩
  · by_cases same : target = key
    · rw [same, Keyed.get?_insert_self] at found
      cases found
      exact ⟨token, by rw [same]⟩
    · rw [Keyed.get?_insert_of_ne _ _ same] at found
      exact holds target b found

namespace Component
variable {c d : Component κ}

theorem Alike.coherent {F : List Field} (alike : c.Alike F d)
    (out : ∀ f ∈ [Field.flow, .boundProperties], f ∉ F) (coherent : c.Coherent) : d.Coherent := by
  have trees : d.bindings = c.bindings := alike.view .flow (out _ (by decide))
  have bound : d.boundProperties = c.boundProperties := alike.view .boundProperties (out _ (by decide))
  rw [Coherent, bound, trees]
  exact ⟨coherent.1, fun i target b found => coherent.2 i target b (by rwa [binding?, ← trees])⟩

theorem coherent_new (d : Definition κ) (x : NodeId) (owner : Option ComponentId) :
    (new d x owner).Coherent := by
  refine ⟨rfl, fun i target b found => ?_⟩
  cases (found : (none : Option Binding) = some b)

theorem binding?_modifyBindings (c : Component κ) (i j : Nat) (target key : String)
    (f : Binding → Binding) : (c.modifyBindings fun t => t.modify i target f).binding? j key =
      if i = j ∧ key = target then (c.binding? j key).map f else c.binding? j key := by
  rw [binding?, binding?, modifyBindings]
  cases c.bindings with
  | none => simp
  | some t => exact t.binding?_modify i j target key f

/-- A binding may change if it reads the same and stays coherent. -/
theorem Coherent.modify (coherent : c.Coherent) (i : Nat) (target : String) {f : Binding → Binding}
    (same : ∀ b, (f b).source = b.source)
    (kept : ∀ b, c.binding? i target = some b → (f b).Coherent target) :
    (c.modifyBindings fun t => t.modify i target f).Coherent := by
  constructor
  · refine coherent.1.trans ?_
    rw [modifyBindings, Option.map_map]
    exact congrArg (Option.getD · []) (congrArg (Option.map · c.bindings)
      (funext fun t => (t.dependencies_modify i target same).symm))
  · intro j key b found
    rw [binding?_modifyBindings] at found
    split at found
    · next here =>
      obtain ⟨rfl, rfl⟩ := here
      obtain ⟨a, before, rfl⟩ := Option.map_eq_some_iff.mp found
      exact kept a before
    · exact coherent.2 j key b found

theorem Coherent.rebound (coherent : c.Coherent) {f : BindingTree → BindingTree}
    (kept : ∀ t i target b, (f t).binding? i target = some b →
      b.Coherent target ∨ t.binding? i target = some b) : (c.modifyBindings f).rebound.Coherent := by
  refine ⟨rfl, fun i target b found => ?_⟩
  obtain ⟨u, mapped, held⟩ := Option.bind_eq_some_iff.mp found
  obtain ⟨t, there, rfl⟩ := Option.map_eq_some_iff.mp mapped
  rcases kept t i target b held with fine | before
  · exact fine
  · exact coherent.2 i target b (Option.bind_eq_some_iff.mpr ⟨t, there, before⟩)

theorem subscriptionsOf_modifyBindings (c : Component κ) {f : BindingTree → BindingTree}
    (same : ∀ t, (f t).handlers = t.handlers) :
    Act.subscriptionsOf (c.modifyBindings f) = Act.subscriptionsOf c := by
  rw [Act.subscriptionsOf_eq, Act.subscriptionsOf_eq, modifyBindings, Option.map_map]
  exact congrArg (_ ++ Option.getD · []) (congrArg (Option.map · c.bindings) (funext same))

end Component

/-- A change that leaves the component as it is leaves the scene. -/
theorem Scene.modify_of_same {s : Scene κ} {id : ComponentId} {f : Component κ → Component κ}
    (same : ∀ c, s.component? id = some c → f c = c) : s.modify id f = s := by
  rw [modify, Arena.modify_of_same same]

/-- Nothing happens to a component that is not there. -/
theorem Scene.modify_of_none (s : Scene κ) {id : ComponentId} (missing : s.component? id = none)
    (f : Component κ → Component κ) : s.modify id f = s :=
  modify_of_same fun _ found => nomatch missing.symm.trans found

/-- Two changes of a component are one. -/
theorem Scene.modify_modify (s : Scene κ) (id : ComponentId) (f g : Component κ → Component κ) :
    (s.modify id f).modify id g = s.modify id (g ∘ f) := by
  rw [modify, modify, Arena.modify_modify, modify]

/-- Two changes of a binding are one. -/
theorem Scene.modifyBinding_twice (s : Scene κ) (id : ComponentId) (i : Nat) (target : String)
    (f g : Binding → Binding) :
    (s.modify id fun c => c.modifyBindings fun t => t.modify i target f).modify id
        (fun c => c.modifyBindings fun t => t.modify i target g) =
      s.modify id fun c => c.modifyBindings fun t => t.modify i target (g ∘ f) := by
  rw [modify_modify]
  refine congrArg (s.modify id) (funext fun c => ?_)
  rw [Function.comp, Component.modifyBindings, Component.modifyBindings, Option.map_map]
  exact congrArg (fun f => { c with bindings := c.bindings.map f })
    (funext fun t => t.modify_modify i target f g)

end LiveTree
