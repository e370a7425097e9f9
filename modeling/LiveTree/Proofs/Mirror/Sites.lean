import LiveTree.Binding.Tree
import LiveTree.Proofs.Document.Traversal

/-! The shape of a binding tree. Its sites stand in the order of a walk from the first of them over the
links to their children, because they were made on such a walk through a document: what lies at and below
some nodes has a stretch of sites, each site before those of its children. -/
namespace LiveTree.BindingTree
variable {t u : BindingTree} {i j : Nat} {site : Site}

theorem getElem?_sites (t : BindingTree) (i : Nat) : t.sites.toList[i]? = t.site? i := Array.getElem?_toList

theorem mem_toList : (i, site) ∈ t.toList ↔ t.site? i = some site := by
  have swapped : (i, site) ∈ t.toList ↔ (site, i) ∈ t.sites.toList.zipIdx := by
    rw [toList, List.mem_map]
    exact ⟨fun ⟨_, member, same⟩ => by cases same; exact member, fun member => ⟨_, member, rfl⟩⟩
  rw [swapped, List.mem_zipIdx_iff_getElem?, getElem?_sites]

theorem mem_children : i ∈ t.children j ↔ ∃ site, t.site? i = some site ∧ site.parent = some j := by
  rw [children, List.mem_map]
  constructor
  · rintro ⟨⟨k, site⟩, member, rfl⟩
    obtain ⟨inside, parent⟩ := List.mem_filter.mp member
    exact ⟨site, mem_toList.mp inside, of_decide_eq_true parent⟩
  · rintro ⟨site, here, parent⟩
    exact ⟨(i, site), List.mem_filter.mpr ⟨mem_toList.mpr here, decide_eq_true parent⟩, rfl⟩

theorem lt_of_site? (here : t.site? i = some site) : i < t.size := (Array.getElem?_eq_some_iff.mp here).1

@[simp] theorem size_add (t : BindingTree) (parent : Nat) (site : Site) :
    (t.add parent site).2.size = t.size + 1 := Arena.size_push _ _

theorem site?_add (t : BindingTree) (parent : Nat) (site : Site) (i : Nat) :
    (t.add parent site).2.site? i = if i = t.size then some { site with parent := some parent } else t.site? i :=
  Arena.get?_push _ _ _

theorem children_add (t : BindingTree) (parent : Nat) (site : Site) (i : Nat) :
    (t.add parent site).2.children i = t.children i ++ if parent = i then [t.size] else [] := by
  have list : (t.add parent site).2.toList = t.toList ++ [(t.size, { site with parent := some parent })] := by
    simp [toList, add, Arena.toList, Arena.push, List.zipIdx_append, size, Arena.size]
  rw [children, list, List.filter_append, List.map_append, children]
  by_cases same : parent = i <;> simp [same]

def Rooted (t : BindingTree) : Prop := ∀ i site j, t.site? i = some site → site.parent = some j → j < i

theorem Rooted.children (rooted : t.Rooted) (out : t.size ≤ i + 1) : t.children i = [] := by
  refine List.eq_nil_iff_forall_not_mem.mpr fun k member => ?_
  obtain ⟨site, here, parent⟩ := mem_children.mp member
  have below := rooted k site i here parent
  have bound := lt_of_site? here
  omega

theorem Rooted.add (rooted : t.Rooted) {parent : Nat} (there : parent < t.size) (site : Site) :
    (t.add parent site).2.Rooted := by
  intro i other j here above
  rw [site?_add] at here
  split at here
  · next new =>
    cases here
    cases above
    rwa [new]
  · exact rooted i other j here above

/-- One round of a walk over the sites: the top of the stack goes to the output, and the places of its
children on the stack, the first of them on top. -/
def round (t : BindingTree) : List Nat × List Nat → List Nat × List Nat
  | (out, []) => (out, [])
  | (out, i :: stack) => (out ++ [i], t.children i ++ stack)

/-- The sites from `n` to `m` are those of some nodes and of all that lies below them, in document order;
those of the nodes themselves are the given ones, below `parent`. -/
inductive Spans (t : BindingTree) (s : Surroundings) :
    (parent : Nat) → List NodeId → List Nat → (n m : Nat) → Prop
  | nil {parent n : Nat} : Spans t s parent [] [] n n
  | cons {parent : Nat} {x : NodeId} {xs : List NodeId} {ns : List Nat} {n k m : Nat} {site : Site}
    (made : s.site? x = some site) (here : t.site? n = some { site with parent := some parent })
    (below : Spans t s n (s.document.children x) (t.children n) (n + 1) k)
    (rest : Spans t s parent xs ns k m) : Spans t s parent (x :: xs) (n :: ns) n m

namespace Spans
variable {s : Surroundings} {parent n k m : Nat} {xs ys : List NodeId} {ns ms : List Nat}

theorem le (spans : Spans t s parent xs ns n m) : n ≤ m := by
  induction spans with
  | nil => exact Nat.le_refl _
  | cons _ _ _ _ below rest => exact (Nat.le_of_succ_le below).trans rest

theorem append (first : Spans t s parent xs ns n k) (second : Spans t s parent ys ms k m) :
    Spans t s parent (xs ++ ys) (ns ++ ms) n m := by
  induction first with
  | nil => exact second
  | cons made here below _ _ ih => exact .cons made here below (ih second)

/-- Sites elsewhere do not matter. -/
theorem congr (spans : Spans t s parent xs ns n m)
    (same : ∀ i, n ≤ i → i < m → u.site? i = t.site? i ∧ u.children i = t.children i) :
    Spans u s parent xs ns n m := by
  induction spans with
  | nil => exact .nil
  | @cons parent x xs ns n k m site made here below rest ihBelow ihRest =>
    have first : n < k := below.le
    have last := rest.le
    obtain ⟨site', children⟩ := same n (Nat.le_refl n) (first.trans_le last)
    refine .cons made (site'.trans here) ?_ (ihRest fun i lower upper => same i (first.le.trans lower) upper)
    rw [children]
    exact ihBelow fun i lower upper => same i (Nat.le_of_succ_le lower) (upper.trans_le last)

theorem range'_split (first : n < k) (last : k ≤ m) :
    List.range' n (m - n) = n :: List.range' (n + 1) (k - (n + 1)) ++ List.range' k (m - k) := by
  have tail : List.range' (n + 1) (m - (n + 1)) =
      List.range' (n + 1) (k - (n + 1)) ++ List.range' k (m - k) := by
    have joined := List.range'_append_1 (s := n + 1) (m := k - (n + 1)) (n := m - k)
    rw [show n + 1 + (k - (n + 1)) = k by omega, show k - (n + 1) + (m - k) = m - (n + 1) by omega] at joined
    exact joined.symm
  rw [show m - n = m - (n + 1) + 1 by omega, List.range'_succ, tail, List.cons_append]

/-- A walk that has the places of some nodes on the stack takes the whole stretch. -/
theorem iterate_round (spans : Spans t s parent xs ns n m) (out stack : List Nat) :
    t.round^[m - n] (out, ns ++ stack) = (out ++ List.range' n (m - n), stack) := by
  induction spans generalizing out stack with
  | nil => simp
  | @cons parent x xs ns n k m site made here below rest ihBelow ihRest =>
    have first : n < k := below.le
    have last := rest.le
    have rounds : m - n = m - k + (k - (n + 1)) + 1 := by omega
    calc t.round^[m - n] (out, n :: ns ++ stack)
        = t.round^[m - k] (t.round^[k - (n + 1)] (out ++ [n], t.children n ++ (ns ++ stack))) := by
          rw [rounds, Function.iterate_succ_apply, Function.iterate_add_apply]
          rfl
      _ = t.round^[m - k] (out ++ [n] ++ List.range' (n + 1) (k - (n + 1)), ns ++ stack) := by rw [ihBelow]
      _ = (out ++ List.range' n (m - n), stack) := by
          rw [ihRest, range'_split first last]
          simp

/-- The nodes of a stretch are those it is for, each before those below it. -/
theorem nodes (spans : Spans t s parent xs ns n m) (sound : s.document.Sound)
    (node : ∀ x site, s.site? x = some site → site.node = x) :
    (List.range' n (m - n)).map (fun i => (t.site? i).map Site.node) =
      (xs.flatMap s.document.subtree).map some := by
  induction spans with
  | nil => simp
  | @cons parent x xs ns n k m site made here below rest ihBelow ihRest =>
    rw [range'_split below.le rest.le, List.map_append, List.map_cons, here, ihBelow, ihRest, List.flatMap_cons,
      Document.subtree, sound.descendants_eq, List.map_append, List.map_cons, Option.map_some, node x site made]

/-- The children of a site in the stretch are at the children of its node. -/
theorem children (spans : Spans t s parent xs ns n m)
    (node : ∀ x site, s.site? x = some site → site.node = x) :
    ns.map (fun i => (t.site? i).map Site.node) = xs.map some ∧
      ∀ i site, n ≤ i → i < m → t.site? i = some site →
        (t.children i).map (fun j => (t.site? j).map Site.node) = (s.document.children site.node).map some := by
  induction spans with
  | nil => exact ⟨rfl, fun i site lower upper => absurd upper (Nat.not_lt_of_le lower)⟩
  | @cons parent x xs ns n k m site made here below rest ihBelow ihRest =>
    refine ⟨?_, fun i other lower upper there => ?_⟩
    · rw [List.map_cons, here, ihRest.1, List.map_cons, Option.map_some, node x site made]
    · by_cases same : i = n
      · subst same
        cases here.symm.trans there
        rw [ihBelow.1, node x site made]
      · by_cases early : i < k
        · exact ihBelow.2 i other (by omega) early there
        · exact ihRest.2 i other (by omega) upper there

/-- The sites of a stretch are those of nodes, each below another. -/
theorem made (spans : Spans t s parent xs ns n m) {i : Nat} (lower : n ≤ i) (upper : i < m) :
    ∃ x site j, s.site? x = some site ∧ t.site? i = some { site with parent := some j } := by
  induction spans with
  | nil => exact absurd upper (Nat.not_lt_of_le lower)
  | @cons parent x xs ns n k m site made here below rest ihBelow ihRest =>
    by_cases same : i = n
    · exact ⟨x, site, parent, made, same ▸ here⟩
    · by_cases early : i < k
      · exact ihBelow (by omega) early
      · exact ihRest (by omega) upper

end Spans
end LiveTree.BindingTree
