import LiveTree.Proofs.Document.Links
import LiveTree.Proofs.Mirror.Sites

/-! How a binding tree grows. The sites of a node and of what lies below it are added one after the other,
so that they make one stretch at the end; sites that were there only get the new node as a child. -/
namespace LiveTree.BindingTree
variable {s : Surroundings} {parent : Nat} {t u v : BindingTree} {x : NodeId} {xs ys : List NodeId}
  {ns ms : List Nat}

structure Grown (s : Surroundings) (parent : Nat) (t : BindingTree) (xs : List NodeId) (ns : List Nat)
    (u : BindingTree) : Prop where
  rooted : u.Rooted
  size : t.size ≤ u.size
  old : ∀ i < t.size, u.site? i = t.site? i
  children : ∀ i < t.size, u.children i = t.children i ++ if parent = i then ns else []
  spans : Spans u s parent xs ns t.size u.size

namespace Grown

theorem refl (rooted : t.Rooted) : Grown s parent t [] [] t where
  rooted := rooted
  size := Nat.le_refl _
  old _ _ := rfl
  children i _ := by rw [ite_self, List.append_nil]
  spans := .nil

theorem trans (there : parent < t.size) (first : Grown s parent t xs ns u)
    (second : Grown s parent u ys ms v) : Grown s parent t (xs ++ ys) (ns ++ ms) v where
  rooted := second.rooted
  size := first.size.trans second.size
  old i old := (second.old i (old.trans_le first.size)).trans (first.old i old)
  children i old := by
    rw [second.children i (old.trans_le first.size), first.children i old, List.append_assoc]
    by_cases same : parent = i <;> simp [same]
  spans := by
    refine (first.spans.congr fun i new bound => ⟨second.old i bound, ?_⟩).append second.spans
    rw [second.children i bound, if_neg (Nat.ne_of_lt (there.trans_le new)), List.append_nil]

/-- One site after the other. -/
theorem foldl {f : BindingTree → NodeId → BindingTree}
    (step : ∀ x ∈ xs, ∀ t, t.Rooted → parent < t.size → Grown s parent t [x] [t.size] (f t x))
    (rooted : t.Rooted) (there : parent < t.size) : ∃ ns, Grown s parent t xs ns (xs.foldl f t) := by
  induction xs generalizing t with
  | nil => exact ⟨[], refl rooted⟩
  | cons x rest ih =>
    have first := step x List.mem_cons_self t rooted there
    obtain ⟨ns, later⟩ := ih (fun y inside => step y (List.mem_cons_of_mem _ inside)) first.rooted
      (there.trans_le first.size)
    exact ⟨t.size :: ns, first.trans there later⟩

/-- A site that has got sites for all children of its node. -/
theorem above {site : Site} (rooted : t.Rooted) (there : parent < t.size) (made : s.site? x = some site)
    (below : Grown s t.size (t.add parent site).2 (s.document.children x) ns u) :
    Grown s parent t [x] [t.size] u where
  rooted := below.rooted
  size := (Nat.le_succ _).trans ((size_add t parent site).symm.trans_le below.size)
  old i old := by
    rw [below.old i (by rw [size_add]; exact old.trans (Nat.lt_succ_self _)), site?_add, if_neg (Nat.ne_of_lt old)]
  children i old := by
    rw [below.children i (by rw [size_add]; exact old.trans (Nat.lt_succ_self _)), children_add,
      if_neg (Nat.ne_of_gt old), List.append_nil]
  spans := by
    have new : t.size < (t.add parent site).2.size := by rw [size_add]; exact Nat.lt_succ_self _
    have here : u.site? t.size = some { site with parent := some parent } := by
      rw [below.old _ new, site?_add, if_pos rfl]
    have children : u.children t.size = ns := by
      rw [below.children _ new, children_add, rooted.children (Nat.le_succ _), if_neg (Nat.ne_of_lt there),
        if_pos rfl, List.append_nil, List.nil_append]
    refine .cons made here ?_ .nil
    rw [children, ← size_add t parent site]
    exact below.spans

end Grown

theorem Surroundings.addAttribute_place (s : Surroundings) (site : Site) (attr : String) :
    (s.addAttribute site attr).node = site.node ∧ (s.addAttribute site attr).stableId = site.stableId := by
  unfold addAttribute
  split
  · exact ⟨rfl, rfl⟩
  · extract_lets text
    split
    · exact ⟨rfl, rfl⟩
    · split <;> exact ⟨rfl, rfl⟩

/-- The site of a node knows it and its stable id. -/
theorem Surroundings.place_of_site? {site : Site} (made : s.site? x = some site) :
    site.node = x ∧ site.stableId = s.document.attribute? x s.stableId := by
  have named (names : List String) (site : Site) :
      (names.foldl s.addAttribute site).node = site.node ∧
        (names.foldl s.addAttribute site).stableId = site.stableId := by
    induction names generalizing site with
    | nil => exact ⟨rfl, rfl⟩
    | cons attr rest ih =>
      obtain ⟨node, stableId⟩ := s.addAttribute_place site attr
      rw [List.foldl_cons, (ih _).1, (ih _).2]
      exact ⟨node, stableId⟩
  simp only [site?] at made
  split at made
  · split at made <;> cases made <;> exact ⟨rfl, rfl⟩
  · cases made
    exact named _ _
  · cases made

theorem Surroundings.site?_of_contains (there : s.document.contains x = true) :
    ∃ site, s.site? x = some site := by
  obtain ⟨n, found⟩ := Option.isSome_iff_exists.mp there
  unfold site? Document.content?
  rw [found, Option.map_some]
  cases n.content with
  | text words => dsimp only; split <;> exact ⟨_, rfl⟩
  | element tag => exact ⟨_, rfl⟩

/-- Fuel for the depth of a node is enough to grow the sites of all that lies below it, as long as
nothing lies below texts. -/
theorem grown_grow (sound : s.document.Sound) {most : Nat}
    (shallow : ∀ y, s.document.up most y ≠ some x) (there : s.document.contains x = true)
    (plain : ∀ y ∈ s.document.subtree x, s.document.isText y = true → s.document.children y = [])
    (rooted : t.Rooted) (bound : parent < t.size) :
    Grown s parent t [x] [t.size] (s.grow most parent t x) := by
  induction most generalizing x t parent with
  | zero => exact absurd rfl (shallow x)
  | succ most ih =>
    obtain ⟨site, made⟩ := Surroundings.site?_of_contains there
    rw [Surroundings.grow, made]
    dsimp only
    have inside {c : NodeId} (child : c ∈ s.document.children x) {y : NodeId}
        (deep : y ∈ s.document.subtree c) : y ∈ s.document.subtree x := by
      rw [Document.subtree, sound.descendants_eq]
      exact List.mem_cons_of_mem _ (List.mem_flatMap.mpr ⟨c, child, deep⟩)
    have rooted' := rooted.add bound site
    have bound' : t.size < (t.add parent site).2.size := by rw [size_add]; exact Nat.lt_succ_self _
    have child (c : NodeId) (child : c ∈ s.document.children x) (u : BindingTree) (rooted : u.Rooted)
        (bound : t.size < u.size) : Grown s t.size u [c] [u.size] (s.grow most t.size u c) := by
      have link := sound.parent c x child
      refine ih (fun y reached => shallow y ?_) ((s.document.contains_iff c).mpr (Document.bound_of_parent? link))
        (fun y deep => plain y (inside child deep)) rooted bound
      rw [s.document.up_add most 1, reached, Option.bind_some, Document.up, link]
      rfl
    split
    · obtain ⟨ns, below⟩ := Grown.foldl child rooted' bound'
      exact below.above rooted bound made
    · next none =>
      have bare : s.document.children x = [] := by
        refine plain x List.mem_cons_self ?_
        obtain ⟨n, found⟩ := Option.isSome_iff_exists.mp there
        unfold Document.isElement Document.content? at none
        unfold Document.isText Document.content?
        rw [found, Option.map_some] at none ⊢
        cases content : n.content with
        | text words => rfl
        | element tag => rw [content] at none; exact absurd rfl none
      have none : Grown s t.size (t.add parent site).2 (s.document.children x) [] (t.add parent site).2 :=
        bare ▸ Grown.refl rooted'
      exact none.above rooted bound made

theorem rooted_ofHost (host : NodeId) : (ofHost host).Rooted := by
  intro i site j here parent
  have first : i = 0 := Nat.lt_one_iff.mp (lt_of_site? here)
  subst first
  cases here
  cases parent

/-- The sites of a template come after that of the host, and hang below it. -/
theorem grown_ofTemplate (sound : s.document.Sound) {template : List NodeId} (host : NodeId)
    (there : ∀ x ∈ template, s.document.contains x = true)
    (plain : ∀ x ∈ template, ∀ y ∈ s.document.subtree x, s.document.isText y = true →
      s.document.children y = []) :
    ∃ ns, Grown s 0 (ofHost host) template ns (ofTemplate s host template) := by
  refine Grown.foldl (fun x member t rooted bound => ?_) (rooted_ofHost host) Nat.zero_lt_one
  refine grown_grow sound (fun y reached => ?_) (there x member) (plain x member) rooted bound
  obtain ⟨p, above, -⟩ := Option.bind_eq_some_iff.mp reached
  have short := sound.up_lt reached (Document.bound_of_parent? above)
  omega

end LiveTree.BindingTree

/-! The binding tree of a template mirrors it: a walk over the sites goes the way of a walk through the
nodes of the template, and the links between sites are those between their nodes. -/
namespace LiveTree.BindingTree
variable {s : Surroundings} {t : BindingTree} {d : Document} {host x y : NodeId} {template : List NodeId}

def nodeAt? (t : BindingTree) (i : Nat) : Option NodeId := (t.site? i).map Site.node

/-- The tree has sites for a host node and for the nodes of a template, which hang below that of the
host, with all that lies below them. -/
structure Mirrors (t : BindingTree) (d : Document) (host : NodeId) (template : List NodeId) : Prop where
  first : t.site? 0 = some { node := host }
  walk : t.round^[t.size] ([], [0]) = (List.range t.size, [])
  nodes : t.sites.toList.map Site.node = host :: template.flatMap d.subtree
  once : ∀ x ∈ template, (d.subtree x).Nodup
  top : (t.children 0).map t.nodeAt? = template.map some
  below : ∀ i site, 0 < i → t.site? i = some site →
    (t.children i).map t.nodeAt? = (d.children site.node).map some
  above : ∀ i site, 0 < i → t.site? i = some site → ∃ j other, site.parent = some j ∧ j < i ∧
    t.site? j = some other ∧ (j = 0 ∧ site.node ∈ template ∨ d.parent? site.node = some other.node)

theorem map_range_nodeAt? (t : BindingTree) :
    (List.range t.size).map t.nodeAt? = (t.sites.toList.map Site.node).map some := by
  have length : t.sites.toList.length = t.size := rfl
  apply List.ext_getElem?
  intro i
  by_cases inside : i < t.size
  · obtain ⟨site, here⟩ : ∃ site, t.site? i = some site := ⟨_, Array.getElem?_eq_getElem inside⟩
    rw [List.getElem?_map, List.getElem?_range inside, List.getElem?_map, List.getElem?_map,
      getElem?_sites, here, Option.map_some, nodeAt?, here]
    rfl
  · rw [List.getElem?_eq_none (by simpa using inside), List.getElem?_eq_none (by simp [length]; omega)]

section Template
variable (sound : s.document.Sound) (host : NodeId)
    (there : ∀ x ∈ template, s.document.contains x = true)
    (plain : ∀ x ∈ template, ∀ y ∈ s.document.subtree x, s.document.isText y = true →
      s.document.children y = [])
include sound there plain

/-- All sites but that of the host are those of nodes. -/
theorem site?_ofTemplate {i : Nat} {site : Site} (new : 0 < i)
    (here : (ofTemplate s host template).site? i = some site) :
    ∃ made j, s.site? site.node = some made ∧ site = { made with parent := some j } := by
  obtain ⟨ns, grown⟩ := grown_ofTemplate sound host there plain
  obtain ⟨x, made, j, known, same⟩ := grown.spans.made new (lt_of_site? here)
  cases same.symm.trans here
  exact ⟨made, j, (Surroundings.place_of_site? known).1 ▸ known, rfl⟩

/-- They are called as their nodes are. -/
theorem stableId_ofTemplate {i : Nat} {site : Site} (new : 0 < i)
    (here : (ofTemplate s host template).site? i = some site) :
    site.stableId = s.document.attribute? site.node s.stableId := by
  obtain ⟨made, j, known, rfl⟩ := site?_ofTemplate sound host there plain new here
  exact (Surroundings.place_of_site? known).2

theorem mirrors_ofTemplate : (ofTemplate s host template).Mirrors s.document host template := by
  obtain ⟨ns, grown⟩ := grown_ofTemplate sound host there plain
  generalize ofTemplate s host template = t at grown
  have place (x : NodeId) (site : Site) (made : s.site? x = some site) : site.node = x :=
    (Surroundings.place_of_site? made).1
  have first : t.site? 0 = some { node := host } := grown.old 0 Nat.zero_lt_one
  have tops : t.children 0 = ns := by
    rw [grown.children 0 Nat.zero_lt_one, (rooted_ofHost host).children (Nat.le_refl 1), if_pos rfl,
      List.nil_append]
  obtain ⟨rest, size⟩ : ∃ rest, t.size = rest + 1 := ⟨_, (Nat.succ_pred_eq_of_pos (lt_of_site? first)).symm⟩
  have range : List.range t.size = 0 :: List.range' 1 rest := by
    rw [size, List.range_eq_range', List.range'_succ]
  have spans : Spans t s 0 template ns 1 (rest + 1) := size ▸ grown.spans
  obtain ⟨top, children⟩ := spans.children place
  have below (i : Nat) (site : Site) (new : 0 < i) (here : t.site? i = some site) :
      (t.children i).map t.nodeAt? = (s.document.children site.node).map some :=
    children i site new (size ▸ lt_of_site? here) here
  have top : (t.children 0).map t.nodeAt? = template.map some := tops ▸ top
  refine ⟨first, ?_, ?_, fun x _ => ?_, top, below, fun i site new here => ?_⟩
  · have walk := spans.iterate_round [0] []
    rw [List.append_nil] at walk
    rw [range, size, Function.iterate_succ_apply, round, tops, List.append_nil]
    exact walk
  · refine List.map_injective_iff.mpr (Option.some_injective _) ?_
    rw [← t.map_range_nodeAt?, range, List.map_cons, nodeAt?, first, List.map_cons]
    exact congrArg (some host :: ·) (spans.nodes sound place)
  · exact List.nodup_cons.mpr ⟨fun round => (sound.mem_descendants_iff.mp round).1 rfl, sound.nodup_descendants x⟩
  · obtain ⟨y, made, j, -, here'⟩ := spans.made new (size ▸ lt_of_site? here)
    have parent : site.parent = some j := by rw [Option.some.inj (here.symm.trans here')]
    have lower := grown.rooted i site j here parent
    obtain ⟨other, found⟩ : ∃ other, t.site? j = some other :=
      ⟨_, Array.getElem?_eq_getElem (lower.trans (lt_of_site? here))⟩
    have child : some site.node ∈ (t.children j).map t.nodeAt? :=
      List.mem_map.mpr ⟨i, mem_children.mpr ⟨site, here, parent⟩, by rw [nodeAt?, here, Option.map_some]⟩
    refine ⟨j, other, parent, lower, found, ?_⟩
    rcases Nat.eq_zero_or_pos j with root | deep
    · rw [root, top] at child
      exact .inl ⟨root, (List.mem_map_of_injective (Option.some_injective _)).mp child⟩
    · rw [below j other deep found] at child
      exact .inr (sound.parent _ _ ((List.mem_map_of_injective (Option.some_injective _)).mp child))

end Template

namespace Mirrors
variable (mirrors : t.Mirrors d host template)
include mirrors

theorem map_node (i : Nat) : (t.site? (i + 1)).map Site.node = (template.flatMap d.subtree)[i]? := by
  rw [← getElem?_sites, ← List.getElem?_map, mirrors.nodes, List.getElem?_cons_succ]

theorem mem_of_site {i : Nat} {site : Site} (new : 0 < i) (here : t.site? i = some site) :
    site.node ∈ template.flatMap d.subtree := by
  obtain ⟨i, rfl⟩ := Nat.exists_eq_succ_of_ne_zero (Nat.ne_of_gt new)
  have there := mirrors.map_node i
  rw [here, Option.map_some] at there
  exact List.mem_of_getElem? there.symm

theorem site_of_mem (inside : x ∈ template.flatMap d.subtree) :
    ∃ i site, 0 < i ∧ t.site? i = some site ∧ site.node = x := by
  obtain ⟨i, there⟩ := List.mem_iff_getElem?.mp inside
  rw [← mirrors.map_node i] at there
  obtain ⟨site, here, node⟩ := Option.map_eq_some_iff.mp there
  exact ⟨i + 1, site, Nat.succ_pos i, here, node⟩

end Mirrors
end LiveTree.BindingTree
