import LiveTree.Proofs.Listening.Bindings
import LiveTree.Proofs.Mirror.Naming
import LiveTree.Proofs.Placement

/-! The footing of a component: at which nodes its bindings are, what they read, and how far the component
has come. No node but a host has bindings of two components or of two sites, and a component that is completed
is ready and its bindings have been pushed. -/
namespace LiveTree
variable {κ : Type}

namespace BindingTree

theorem nodeAt?_still (t : BindingTree) (i : Nat) : t.still.nodeAt? i = t.nodeAt? i := by
  simp only [nodeAt?, site?, still, Arena.get?, Array.getElem?_map, Option.map_map]
  rfl

theorem dependencies_still (t : BindingTree) : t.still.dependencies = t.dependencies := by
  have sites : t.still.sites.toList = t.sites.toList.map Site.still := Array.toList_map
  rw [dependencies_eq, dependencies_eq, sites, List.flatMap_map]
  refine congrArg List.eraseDups (congrArg (List.flatMap · _) (funext fun site => ?_))
  rw [Keyed.entries, Keyed.entries, Site.still, List.map_map, List.flatMap_map, List.flatMap_map]
  rfl

theorem site?_still (t : BindingTree) (i : Nat) : t.still.site? i = (t.site? i).map Site.still := by
  simp only [site?, still, Arena.get?, Array.getElem?_map]

theorem mem_bindings {t : BindingTree} {i : Nat} {target : String} {b : Binding}
    (found : t.binding? i target = some b) : (i, b) ∈ t.bindings := by
  obtain ⟨site, there, held⟩ := Option.bind_eq_some_iff.mp found
  refine List.mem_flatMap.mpr ⟨(i, site), mem_toList.mpr there, List.mem_map.mpr ⟨b, ?_, rfl⟩⟩
  exact List.mem_map.mpr ⟨(target, b), Keyed.mem_of_get? held, rfl⟩

theorem nodeAt?_modifySite (t : BindingTree) (i j : Nat) {f : Site → Site}
    (keeps : ∀ site, (f site).node = site.node) : (t.modifySite i f).nodeAt? j = t.nodeAt? j := by
  rw [nodeAt?, site?_modifySite, nodeAt?]
  split
  · rw [Option.map_map, show Site.node ∘ f = Site.node from funext keeps]
  · rfl

end BindingTree

def BindingTree.Tidy (t : BindingTree) : Prop :=
  ∀ i site, t.site? i = some site → (Keyed.names site.bindings).Nodup ∧ ∀ e ∈ site.bindings, e.2.target = e.1

namespace BindingTree.Tidy
variable {t : BindingTree}

theorem target (tidy : t.Tidy) {i : Nat} {target : String} {b : Binding}
    (found : t.binding? i target = some b) : b.target = target := by
  obtain ⟨site, there, held⟩ := Option.bind_eq_some_iff.mp found
  exact (tidy i site there).2 _ (Keyed.mem_of_get? held)

theorem binding?_of_mem (tidy : t.Tidy) {i : Nat} {b : Binding} (inside : (i, b) ∈ t.bindings) :
    t.binding? i b.target = some b := by
  obtain ⟨⟨j, site⟩, listed, held⟩ := List.mem_flatMap.mp inside
  obtain ⟨_, entry, same⟩ := List.mem_map.mp held
  cases same
  obtain ⟨e, member, rfl⟩ := List.mem_map.mp entry
  obtain ⟨distinct, named⟩ := tidy j site (mem_toList.mp listed)
  refine Option.bind_eq_some_iff.mpr ⟨site, mem_toList.mp listed, ?_⟩
  rw [named e member]
  exact Keyed.get?_of_mem distinct member

theorem still (tidy : t.Tidy) : t.still.Tidy := by
  intro i site found
  rw [site?_still] at found
  obtain ⟨site, there, rfl⟩ := Option.map_eq_some_iff.mp found
  obtain ⟨distinct, named⟩ := tidy i site there
  refine ⟨?_, fun e member => ?_⟩
  · rw [Keyed.names, Site.still, List.map_map]
    exact distinct
  · obtain ⟨e, there, rfl⟩ := List.mem_map.mp member
    exact named e there

theorem of_still (tidy : t.still.Tidy) : t.Tidy := by
  intro i site there
  obtain ⟨distinct, named⟩ := tidy i site.still (by rw [site?_still, there]; rfl)
  rw [Keyed.names, Site.still, List.map_map] at distinct
  exact ⟨distinct, fun e member => named (e.1, e.2.still) (List.mem_map.mpr ⟨e, member, rfl⟩)⟩

theorem modifySite (tidy : t.Tidy) (i : Nat) {f : Keyed Binding → Keyed Binding}
    (keeps : ∀ bs : Keyed Binding, (Keyed.names bs).Nodup ∧ (∀ e ∈ bs, e.2.target = e.1) →
      (Keyed.names (f bs)).Nodup ∧ ∀ e ∈ f bs, e.2.target = e.1) :
    (t.modifySite i fun site => { site with bindings := f site.bindings }).Tidy := by
  intro j site found
  rw [site?_modifySite] at found
  split at found
  · obtain ⟨site, there, rfl⟩ := Option.map_eq_some_iff.mp found
    exact keeps _ (tidy j site there)
  · exact tidy j site found

theorem insert (tidy : t.Tidy) (i : Nat) (b : Binding) : (t.insert i b).Tidy := by
  refine tidy.modifySite i fun bs ⟨distinct, named⟩ => ⟨Keyed.nodup_insert distinct _ _, fun e member => ?_⟩
  rcases Keyed.mem_insert member with rfl | before
  · rfl
  · exact named e before

theorem erase (tidy : t.Tidy) (i : Nat) (target : String) : (t.erase i target).Tidy := by
  refine tidy.modifySite i fun bs ⟨distinct, named⟩ => ⟨?_, fun e member => named e (List.mem_of_mem_filter member)⟩
  exact distinct.sublist (List.filter_sublist.map _)

theorem ofTemplate (s : Surroundings) (host : NodeId) (template : List NodeId) :
    (BindingTree.ofTemplate s host template).Tidy := by
  refine bindings_ofTemplate s (P := fun bs => (Keyed.names bs).Nodup ∧ ∀ e ∈ bs, e.2.target = e.1)
    ⟨List.nodup_nil, fun _ member => nomatch member⟩ (fun bs target token ⟨distinct, named⟩ => ?_) host template
  refine ⟨Keyed.nodup_insert distinct _ _, fun e member => ?_⟩
  rcases Keyed.mem_insert member with rfl | before
  · rfl
  · exact named e before

end BindingTree.Tidy

structure Footing where
  node : NodeId
  bindings : Option BindingTree
  bound : List String
  completed : Bool
  ready : Bool
  pushed : Bool

namespace Footing

def nodeAt? (f : Footing) (i : Nat) : Option NodeId := f.bindings.bind (·.nodeAt? i)

structure Firm (n : Nat) (f : Footing) : Prop where
  bound : f.bound = (f.bindings.map BindingTree.dependencies).getD []
  tidy : ∀ t ∈ f.bindings, t.Tidy
  host : ∀ x ∈ f.nodeAt? 0, x = f.node
  inside : ∀ i, ∀ x ∈ f.nodeAt? i, x.index < n
  settled : f.completed = true → f.ready = true ∧ f.pushed = true

structure Bare (f : Footing) : Prop where
  bindings : f.bindings = none
  bound : f.bound = []
  completed : f.completed = false

theorem Bare.nodeAt? {f : Footing} (bare : f.Bare) (i : Nat) : f.nodeAt? i = none := by
  rw [Footing.nodeAt?, bare.bindings, Option.bind_none]

theorem Bare.firm {f : Footing} (bare : f.Bare) (n : Nat) : f.Firm n where
  bound := by rw [bare.bound, bare.bindings]; rfl
  tidy t here := by rw [bare.bindings] at here; cases here
  host x here := by rw [bare.nodeAt?] at here; cases here
  inside i x here := by rw [bare.nodeAt?] at here; cases here
  settled done := by rw [bare.completed] at done; cases done

theorem Firm.mono {f : Footing} {n m : Nat} (firm : f.Firm n) (more : n ≤ m) : f.Firm m :=
  { firm with inside := fun i x here => (firm.inside i x here).trans_le more }

end Footing

def Field.founding : List Field := [.bindings, .boundProperties, .completed, .stage, .bindingsReady]

namespace Component

def footing (c : Component κ) : Footing where
  node := c.node
  bindings := c.bindings.map BindingTree.still
  bound := c.boundProperties
  completed := c.completed
  ready := c.isReady
  pushed := c.bindingsReady

theorem Alike.footing {F : List Field} {c d : Component κ} (alike : c.Alike F d)
    (out : ∀ f ∈ Field.founding, f ∉ F) : d.footing = c.footing := by
  have bindings : d.bindings.map BindingTree.still = c.bindings.map BindingTree.still :=
    alike.view .bindings (out _ (by decide))
  have bound : d.boundProperties = c.boundProperties := alike.view .boundProperties (out _ (by decide))
  have completed : d.completed = c.completed := alike.view .completed (out _ (by decide))
  have stage : d.stage = c.stage := alike.view .stage (out _ (by decide))
  have pushed : d.bindingsReady = c.bindingsReady := alike.view .bindingsReady (out _ (by decide))
  rw [Component.footing, alike.node, bindings, bound, completed, isReady, stage, pushed]
  rfl

theorem footing_new (d : Definition κ) (x : NodeId) (owner : Option ComponentId) :
    (new d x owner).footing.Bare := ⟨rfl, rfl, rfl⟩

theorem tidy_footing {c : Component κ} : (∀ t ∈ c.footing.bindings, t.Tidy) ↔ ∀ t ∈ c.bindings, t.Tidy := by
  change (∀ t ∈ c.bindings.map BindingTree.still, t.Tidy) ↔ _
  cases c.bindings with
  | none => exact ⟨fun _ _ here => (nomatch here), fun _ _ here => (nomatch here)⟩
  | some t =>
    refine ⟨fun tidy u here => ?_, fun tidy u here => ?_⟩ <;> cases here
    · exact (tidy t.still rfl).of_still
    · exact (tidy t rfl).still

/-- Bindings come and go at the same nodes, each under its target. -/
theorem firm_rebound {c : Component κ} {n : Nat} (firm : c.footing.Firm n) {f : BindingTree → BindingTree}
    (nodes : ∀ t i, (f t).nodeAt? i = t.nodeAt? i) (tidy : ∀ t : BindingTree, t.Tidy → (f t).Tidy) :
    ((c.modifyBindings f).rebound.footing).Firm n ∧
      ∀ i, (c.modifyBindings f).rebound.footing.nodeAt? i = c.footing.nodeAt? i := by
  have same (i : Nat) : (c.modifyBindings f).rebound.footing.nodeAt? i = c.footing.nodeAt? i := by
    change ((c.bindings.map f).map BindingTree.still).bind _ = (c.bindings.map BindingTree.still).bind _
    cases c.bindings with
    | none => rfl
    | some t => exact ((f t).nodeAt?_still i).trans ((nodes t i).trans (t.nodeAt?_still i).symm)
  refine ⟨⟨?_, tidy_footing.mpr fun u here => ?_, fun x here => firm.host x (same 0 ▸ here),
    fun i x here => firm.inside i x (same i ▸ here), firm.settled⟩, same⟩
  · change ((c.bindings.map f).map BindingTree.dependencies).getD [] =
      (((c.bindings.map f).map BindingTree.still).map BindingTree.dependencies).getD []
    cases c.bindings with
    | none => rfl
    | some t => exact (f t).dependencies_still.symm
  · obtain ⟨t, own, rfl⟩ := Option.map_eq_some_iff.mp (Option.mem_def.mp here)
    exact tidy t (tidy_footing.mp firm.tidy t own)

end Component

namespace Scene
variable {s t : Scene κ} {id : ComponentId}

def footing? (s : Scene κ) (id : ComponentId) : Option Footing := (s.component? id).map Component.footing

def nodeAt? (s : Scene κ) (id : ComponentId) (i : Nat) : Option NodeId := (s.footing? id).bind (·.nodeAt? i)

structure Firm (s : Scene κ) : Prop where
  each : ∀ id, ∀ f ∈ s.footing? id, f.Firm s.document.size
  apart : ∀ id other i j x, 0 < i → 0 < j → s.nodeAt? id i = some x → s.nodeAt? other j = some x →
    id = other ∧ i = j

theorem firm_ofConfig (config : Config) (journal : Option Journal) :
    (ofConfig config journal : Scene κ).Firm where
  each id f here := by cases (here : (none : Option Footing) = some f)
  apart id other i j x _ _ here _ := by cases (here : (none : Option NodeId) = some x)

structure Carries (s t : Scene κ) : Prop where
  old : ∀ id, ∀ f ∈ s.footing? id, f ∈ t.footing? id
  new : ∀ id, ∀ f ∈ t.footing? id, f ∈ s.footing? id ∨ f.Bare

instance : IsPreorder (Scene κ) Carries where
  refl _ := ⟨fun _ _ here => here, fun _ _ here => .inl here⟩
  trans _ _ _ first second :=
    ⟨fun id f here => second.old id f (first.old id f here),
      fun id f here => (second.new id f here).elim (first.new id f) .inr⟩

namespace Carries

theorem of_nodeAt? (carries : s.Carries t) {i : Nat} {x : NodeId} (here : t.nodeAt? id i = some x) :
    s.nodeAt? id i = some x := by
  obtain ⟨f, found, at_⟩ := Option.bind_eq_some_iff.mp here
  rcases carries.new id f found with before | bare
  · exact Option.bind_eq_some_iff.mpr ⟨f, before, at_⟩
  · rw [bare.nodeAt?] at at_
    cases at_

theorem firm (carries : s.Carries t) (size : s.document.size ≤ t.document.size) (firm : s.Firm) :
    t.Firm where
  each id f here := (carries.new id f here).elim (fun before => (firm.each id f before).mono size) (·.firm _)
  apart id other i j x new new' here there :=
    firm.apart id other i j x new new' (carries.of_nodeAt? here) (carries.of_nodeAt? there)

theorem of_footing? (same : ∀ id, t.footing? id = s.footing? id) : s.Carries t :=
  ⟨fun id _ here => (same id).trans here, fun id _ here => .inl ((same id).symm.trans here)⟩

theorem of_alike {F : List Field} (alike : s.Alike F t) (out : ∀ f ∈ Field.founding, f ∉ F)
    (known : .components ∉ F) : s.Carries t :=
  of_footing? (alike.map_component? known Component.footing fun _ _ same => same.footing out)

theorem of_components (same : t.components = s.components) : s.Carries t :=
  of_footing? fun id => by rw [footing?, component?, same]; rfl

theorem push (s : Scene κ) (d : Definition κ) (x : NodeId) (owner : Option ComponentId) :
    s.Carries { s with components := s.components.push (.new d x owner) } := by
  refine ⟨fun id f here => ?_, fun id f here => ?_⟩
  · rw [footing?, component?_push, if_neg, ← footing?]
    · exact here
    obtain ⟨c, found, -⟩ := Option.map_eq_some_iff.mp (Option.mem_def.mp here)
    exact (Nat.ne_of_lt (Array.getElem?_eq_some_iff.mp found).1)
  · rw [footing?, component?_push] at here
    split at here
    · cases here
      exact .inr (Component.footing_new d x owner)
    · exact .inl here

end Carries

theorem footing?_modify (s : Scene κ) (id other : ComponentId) (f : Component κ → Component κ) :
    (s.modify id f).footing? other =
      if id = other then (s.component? other).map fun c => (f c).footing else s.footing? other := by
  rw [footing?, component?_modify]
  split
  · rw [Option.map_map]
    rfl
  · rfl

theorem Carries.modify (s : Scene κ) (id : ComponentId) {f : Component κ → Component κ}
    (same : ∀ c, s.component? id = some c → (f c).footing = c.footing) : s.Carries (s.modify id f) := by
  refine of_footing? fun other => ?_
  rw [footing?_modify]
  split
  · next here =>
    subst here
    rw [footing?]
    cases found : s.component? id with
    | none => rfl
    | some c => exact congrArg some (same c found)
  · rfl

/-- A component may change if it stays firm and its sites stay at their nodes. -/
theorem Firm.modify (firm : s.Firm) (id : ComponentId) {f : Component κ → Component κ}
    (keeps : ∀ c, s.component? id = some c → c.footing.Firm s.document.size →
      (f c).footing.Firm s.document.size ∧ ∀ i, (f c).footing.nodeAt? i = c.footing.nodeAt? i) :
    (s.modify id f).Firm := by
  have nodes (other : ComponentId) (i : Nat) : (s.modify id f).nodeAt? other i = s.nodeAt? other i := by
    rw [nodeAt?, footing?_modify, nodeAt?]
    split
    · next same =>
      subst same
      rw [footing?]
      cases found : s.component? id with
      | none => rfl
      | some c => exact (keeps c found (firm.each id _ (by rw [footing?, found]; rfl))).2 i
    · rfl
  refine ⟨fun other g here => ?_, fun one other i j x new new' here there => ?_⟩
  · rw [footing?_modify] at here
    split at here
    · next same =>
      subst same
      obtain ⟨c, found, rfl⟩ := Option.map_eq_some_iff.mp (Option.mem_def.mp here)
      exact (keeps c found (firm.each id _ (by rw [footing?, found]; rfl))).1
    · exact firm.each other g here
  · rw [nodes] at here there
    exact firm.apart one other i j x new new' here there

/-- A component may get other sites if they are at nodes of their own. -/
theorem Firm.plant (firm : s.Firm) {c : Component κ} (found : s.component? id = some c)
    {f : Component κ → Component κ} (own : (f c).footing.Firm s.document.size)
    (distinct : ∀ i j x, 0 < i → 0 < j → (f c).footing.nodeAt? i = some x → (f c).footing.nodeAt? j = some x →
      i = j)
    (fresh : ∀ i x, 0 < i → (f c).footing.nodeAt? i = some x → ∀ other j, s.nodeAt? other j ≠ some x) :
    (s.modify id f).Firm := by
  have nodes (other : ComponentId) (i : Nat) : (s.modify id f).nodeAt? other i =
      if id = other then (f c).footing.nodeAt? i else s.nodeAt? other i := by
    rw [nodeAt?, footing?_modify, nodeAt?]
    split
    · next same => rw [← same, found]; rfl
    · rfl
  refine ⟨fun other g here => ?_, fun one other i j x new new' here there => ?_⟩
  · rw [footing?_modify] at here
    split at here
    · next same =>
      subst same
      rw [found] at here
      cases here
      exact own
    · exact firm.each other g here
  · rw [nodes] at here there
    by_cases first : id = one <;> by_cases second : id = other
    · rw [if_pos first] at here
      rw [if_pos second] at there
      exact ⟨first.symm.trans second, distinct i j x new new' here there⟩
    · rw [if_pos first] at here
      rw [if_neg second] at there
      exact absurd there (fresh i x new here other j)
    · rw [if_neg first] at here
      rw [if_pos second] at there
      exact absurd here (fresh j x new' there one i)
    · rw [if_neg first] at here
      rw [if_neg second] at there
      exact firm.apart one other i j x new new' here there

def Matures (s t : Scene κ) : Prop := ∀ id, ∀ f ∈ s.footing? id, ∃ g ∈ t.footing? id,
  (f.ready = true → g.ready = true) ∧ (f.pushed = true → g.pushed = true)

instance : IsPreorder (Scene κ) Matures where
  refl _ _ f here := ⟨f, here, fun same => same, fun same => same⟩
  trans _ _ _ first second id f here := by
    obtain ⟨g, there, ready, pushed⟩ := first id f here
    obtain ⟨k, later, ready', pushed'⟩ := second id g there
    exact ⟨k, later, ready' ∘ ready, pushed' ∘ pushed⟩

namespace Matures

theorem of_carries (carries : s.Carries t) : s.Matures t :=
  fun id f here => ⟨f, carries.old id f here, fun same => same, fun same => same⟩

theorem modify (s : Scene κ) (id : ComponentId) {f : Component κ → Component κ}
    (keeps : ∀ c, s.component? id = some c → (c.isReady = true → (f c).isReady = true) ∧
      (c.bindingsReady = true → (f c).bindingsReady = true)) : s.Matures (s.modify id f) := by
  intro other g here
  rw [footing?_modify]
  split
  · next same =>
    subst same
    obtain ⟨c, found, rfl⟩ := Option.map_eq_some_iff.mp (Option.mem_def.mp here)
    exact ⟨(f c).footing, by rw [found]; rfl, keeps c found⟩
  · exact ⟨g, here, fun same => same, fun same => same⟩

end Matures
end Scene

/-- The sites of a template that has been laid out are at nodes of their own, which are new. -/
theorem BindingTree.nodeAt?_laidOut {d : Document} {n : Nat} {ms : List Markup} {xs : List NodeId} {s : Surroundings}
    {host : NodeId} (stands : Markup.Stands n d ms xs) (sound : d.Sound) (apart : (xs.flatMap d.subtree).Nodup)
    (laidOut : s.document = (Layout.ofTemplate d s.stableId host xs).2) :
    (ofTemplate s host xs).nodeAt? 0 = some host ∧
      (∀ i x, 0 < i → (ofTemplate s host xs).nodeAt? i = some x → n ≤ x.index ∧ x.index < s.document.size) ∧
      ∀ i j x, 0 < i → 0 < j → (ofTemplate s host xs).nodeAt? i = some x →
        (ofTemplate s host xs).nodeAt? j = some x → i = j := by
  have mirrors := mirrors_laidOut stands sound laidOut
  obtain ⟨sound', there, -⟩ := sound_laidOut stands sound laidOut
  have below {x y : NodeId} (inside : y ∈ s.document.subtree x) : y ∈ d.subtree x :=
    mem_subtree_laidOut sound laidOut inside
  have nodup : (xs.flatMap s.document.subtree).Nodup := by
    obtain ⟨-, disjoint⟩ := List.nodup_flatMap.mp apart
    refine List.nodup_flatMap.mpr ⟨mirrors.once, disjoint.imp fun disjoint => ?_⟩
    exact List.disjoint_of_subset_left (fun _ => below) (List.disjoint_of_subset_right (fun _ => below) disjoint)
  refine ⟨by rw [nodeAt?, mirrors.first]; rfl, fun i x new here => ?_, fun i j x new new' here there => ?_⟩
  · obtain ⟨site, found, rfl⟩ := Option.map_eq_some_iff.mp here
    have inside := mirrors.mem_of_site new found
    obtain ⟨y, top, deep⟩ := List.mem_flatMap.mp inside
    refine ⟨stands.new sound (List.mem_flatMap.mpr ⟨y, top, below deep⟩), ?_⟩
    rcases sound'.mem_subtree_iff_under.mp deep with same | under
    · rw [same]
      exact (Document.contains_iff _ _).mp (there y top)
    · exact under.bound
  · obtain ⟨i, rfl⟩ := Nat.exists_eq_succ_of_ne_zero (Nat.ne_of_gt new)
    obtain ⟨j, rfl⟩ := Nat.exists_eq_succ_of_ne_zero (Nat.ne_of_gt new')
    rw [nodeAt?, mirrors.map_node] at here there
    obtain ⟨bound, -⟩ := List.getElem?_eq_some_iff.mp here
    exact congrArg Nat.succ ((List.getElem?_inj bound nodup).mp (here.trans there.symm))

end LiveTree
