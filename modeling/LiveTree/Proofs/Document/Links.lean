import Mathlib.Logic.Relation
import LiveTree.Proofs.Document.Traversal

/-! What lies below what. The way up from a node is a chain of links, from each node to its parent,
so that what an operation does to the links tells what it does to the chains. Most operations leave
the links alone or cut some of them. -/
namespace LiveTree.Document
variable {d e k : Document} {x y z p : NodeId}

def Link (d : Document) (x p : NodeId) : Prop := d.parent? x = some p

def Under (d : Document) : NodeId → NodeId → Prop := Relation.TransGen d.Link

theorem under_iff_up : d.Under x y ↔ ∃ n, d.up (n + 1) x = some y := by
  constructor
  · intro below
    induction below using Relation.TransGen.head_induction_on with
    | single link => exact ⟨0, by rw [up, link]; rfl⟩
    | head link _ ih =>
      obtain ⟨n, there⟩ := ih
      exact ⟨n + 1, by rw [up, link]; exact there⟩
  · rintro ⟨n, there⟩
    induction n generalizing x with
    | zero =>
      obtain ⟨p, link, same⟩ := Option.bind_eq_some_iff.mp there
      cases same
      exact .single link
    | succ n ih =>
      obtain ⟨p, link, rest⟩ := Option.bind_eq_some_iff.mp there
      exact .head link (ih rest)

/-- The first step of a way up. -/
theorem under_iff_link : d.Under x y ↔ ∃ p, d.Link x p ∧ (p = y ∨ d.Under p y) := by
  constructor
  · intro below
    obtain ⟨p, link, rest⟩ := Relation.TransGen.head'_iff.mp below
    exact ⟨p, link, Relation.reflTransGen_iff_eq_or_transGen.mp rest |>.imp_left Eq.symm⟩
  · rintro ⟨p, link, rfl | rest⟩
    · exact .single link
    · exact .head link rest

theorem Under.trans (first : d.Under x y) (second : d.Under y z) : d.Under x z :=
  Relation.TransGen.trans first second

/-- Of two nodes above a third one is above the other, unless they are the same. -/
theorem Under.linear (first : d.Under x y) (second : d.Under x z) :
    y = z ∨ d.Under y z ∨ d.Under z y := by
  induction first using Relation.TransGen.head_induction_on with
  | single link =>
    obtain ⟨p, link', rest⟩ := under_iff_link.mp second
    cases link.symm.trans link'
    exact rest.imp_right .inl
  | head link below ih =>
    obtain ⟨p, link', rest⟩ := under_iff_link.mp second
    cases link.symm.trans link'
    rcases rest with rfl | rest
    · exact .inr (.inr below)
    · exact ih rest

theorem Under.bound (below : d.Under x y) : x.index < d.size := by
  obtain ⟨p, link, -⟩ := under_iff_link.mp below
  exact bound_of_parent? link

section Sound
variable (sound : d.Sound)
include sound

theorem Sound.bound_of_link (link : d.Link x p) : p.index < d.size := bound_of_child (sound.listed x p link)

theorem Sound.bound_of_under (below : d.Under x y) : y.index < d.size := by
  induction below with
  | single link => exact sound.bound_of_link link
  | tail _ link _ => exact sound.bound_of_link link

theorem Sound.not_under_self : ¬d.Under x x := by
  intro round
  obtain ⟨n, there⟩ := under_iff_up.mp round
  exact sound.acyclic n x there

theorem Sound.mem_ancestors_iff_under : y ∈ d.ancestors x ↔ d.Under x y :=
  sound.mem_ancestors.trans under_iff_up.symm

theorem Sound.mem_descendants_iff_under : y ∈ d.descendants x ↔ d.Under y x :=
  sound.mem_descendants.trans under_iff_up.symm

theorem Sound.mem_subtree_iff_under : y ∈ d.subtree x ↔ y = x ∨ d.Under y x := by
  rw [subtree, List.mem_cons, sound.mem_descendants_iff_under]

theorem Sound.isWithin_iff_under : d.isWithin x y = true ↔ x = y ∨ d.Under x y := by
  rw [isWithin, Bool.or_eq_true, beq_iff_eq, List.contains_iff_mem, sound.mem_ancestors_iff_under]

theorem Sound.isConnected_iff : d.isConnected x = true ↔ x = root ∨ d.Under x root := sound.isWithin_iff_under

/-- What lies above a node of the document is in it. -/
theorem Sound.isConnected_of_under (top : d.parent? root = none) (there : d.isConnected x = true)
    (below : d.Under x y) : d.isConnected y = true := by
  have free (y : NodeId) : ¬d.Under root y := by
    intro above
    obtain ⟨p, link, -⟩ := under_iff_link.mp above
    cases top.symm.trans link
  rcases sound.isConnected_iff.mp there with rfl | deep
  · exact absurd below (free y)
  · rcases Under.linear below deep with rfl | above | above
    · exact sound.isConnected_iff.mpr (.inl rfl)
    · exact sound.isConnected_iff.mpr (.inr above)
    · exact absurd above (free y)

theorem Sound.isConnected_of_within (there : d.isConnected y = true) (within : x = y ∨ d.Under x y) :
    d.isConnected x = true := by
  rcases within with rfl | below
  · exact there
  · refine sound.isConnected_iff.mpr (.inr ?_)
    rcases sound.isConnected_iff.mp there with rfl | above
    · exact below
    · exact below.trans above

theorem Sound.not_isConnected (top : d.parent? root = none) (loose : d.parent? y = none) (plain : y ≠ root)
    (within : x = y ∨ d.Under x y) : d.isConnected x = false := by
  refine Bool.eq_false_iff.mpr fun there => ?_
  have near : d.isConnected y = true := by
    rcases within with rfl | below
    · exact there
    · exact sound.isConnected_of_under top there below
  rcases sound.isConnected_iff.mp near with same | below
  · exact plain same
  · obtain ⟨p, link, -⟩ := under_iff_link.mp below
    cases loose.symm.trans link

theorem Sound.depth_lt (below : d.Under x y) : d.depth y < d.depth x := by
  have step {x p : NodeId} (link : d.Link x p) : d.depth p < d.depth x := by
    rw [depth, depth, sound.ancestors_of_parent? link]
    exact Nat.lt_succ_self _
  induction below with
  | single link => exact step link
  | tail _ link ih => exact (step link).trans ih

/-- In the list of what is at a node and below it no node comes before one above it. -/
theorem Sound.pairwise_subtree (x : NodeId) : (d.subtree x).Pairwise fun y z => ¬d.Under y z := by
  have within (most : Nat) {x y : NodeId} (inside : y ∈ d.descendantsUpTo most x) : d.Under y x := by
    obtain ⟨n, -, there⟩ := (sound.mem_descendantsUpTo most).mp inside
    exact under_iff_up.mpr ⟨n, there⟩
  have below (most : Nat) (x : NodeId) :
      (x :: d.descendantsUpTo most x).Pairwise fun y z => ¬d.Under y z := by
    induction most generalizing x with
    | zero => exact List.pairwise_singleton _ x
    | succ most ih =>
      refine List.pairwise_cons.mpr ⟨fun y inside under => ?_, ?_⟩
      · exact sound.not_under_self (under.trans (within (most + 1) inside))
      refine List.pairwise_flatMap.mpr ⟨fun c _ => ih c, ?_⟩
      refine (sound.nodup x).imp_of_mem fun {c c'} member member' apart y first z second under => ?_
      -- A node below one of two siblings is not below the other.
      have walk {c : NodeId} {y : NodeId} (inside : y ∈ c :: d.descendantsUpTo most c) :
          ∃ n, d.up n y = some c := by
        rcases List.mem_cons.mp inside with rfl | deeper
        · exact ⟨0, rfl⟩
        · obtain ⟨n, there⟩ := under_iff_up.mp (within most deeper)
          exact ⟨n + 1, there⟩
      obtain ⟨m, there⟩ := walk first
      obtain ⟨n, there'⟩ := walk second
      obtain ⟨l, step⟩ := under_iff_up.mp under
      have far : d.up (l + 1 + n) y = some c' := by rw [up_add, step, Option.bind_some, there']
      exact apart (sound.apart_of_siblings (sound.parent c x member) (sound.parent c' x member') there far)
  exact below d.size x

end Sound

structure Prunes (d e : Document) : Prop extends d.Follows e where
  link : ∀ x p, e.Link x p → d.Link x p ∨ d.size ≤ x.index

namespace Prunes

theorem refl (d : Document) : d.Prunes d := ⟨.refl d, fun _ _ => .inl⟩

theorem trans (first : d.Prunes e) (second : e.Prunes k) : d.Prunes k where
  toFollows := first.toFollows.trans second.toFollows
  link x p later := by
    rcases second.link x p later with before | new
    · exact first.link x p before
    · exact .inr (first.size.trans new)

theorem foldl {β : Type} {f : Document → β → Document} (step : ∀ (d : Document) b, d.Prunes (f d b))
    (items : List β) (d : Document) : d.Prunes (items.foldl f d) := by
  induction items generalizing d with
  | nil => exact refl d
  | cons b rest ih => exact (step d b).trans (ih _)

theorem of_tree (same : e.tree = d.tree) : d.Prunes e :=
  ⟨.of_tree same, fun x p later => .inl (by rwa [Link, parent?_eq, ← same, ← parent?_eq])⟩

/-- What lies below a node that was there before lay below it before. -/
theorem under (prunes : d.Prunes e) (sound : d.Sound) (old : x.index < d.size)
    (below : e.Under x y) : d.Under x y := by
  have step {x p : NodeId} (old : x.index < d.size) (link : e.Link x p) : d.Link x p :=
    (prunes.link x p link).resolve_right (Nat.not_le_of_lt old)
  induction below using Relation.TransGen.head_induction_on with
  | single link => exact .single (step old link)
  | head link _ ih => exact .head (step old link) (ih (sound.bound_of_link (step old link)))

theorem isConnected (prunes : d.Prunes e) (sound : d.Sound) (old : x.index < d.size)
    (there : e.isConnected x = true) : d.isConnected x = true := by
  rcases (prunes.sound sound).isWithin_iff_under.mp there with same | below
  · exact sound.isWithin_iff_under.mpr (.inl same)
  · exact sound.isWithin_iff_under.mpr (.inr (prunes.under sound old below))

end Prunes

theorem prunes_detach (d : Document) (x : NodeId) : d.Prunes (d.detach x) :=
  ⟨follows_detach d x, fun _ _ later => .inl (parent?_of_detach later).2⟩

theorem parent?_foldl_detach (xs : List NodeId) (d : Document) (y : NodeId) :
    (xs.foldl detach d).parent? y = if y ∈ xs then none else d.parent? y := by
  induction xs generalizing d with
  | nil => rfl
  | cons x rest ih =>
    rw [List.foldl_cons, ih, parent?_detach]
    by_cases inside : y ∈ rest <;> by_cases same : y = x <;> simp [inside, same]

/-- A node has no children when all have been taken away. -/
theorem Sound.children_emptied (sound : d.Sound) (x : NodeId) :
    ((d.children x).foldl detach d).children x = [] := by
  have emptied := (Prunes.foldl prunes_detach (d.children x) d).sound sound
  refine List.eq_nil_iff_forall_not_mem.mpr fun y inside => ?_
  have above := emptied.mem_children.mp inside
  rw [parent?_foldl_detach] at above
  split at above
  · cases above
  · next outside => exact outside (sound.mem_children.mpr above)

theorem prunes_removeChild (d : Document) (x y : NodeId) : d.Prunes ((d.removeChild? x y).getD d) := by
  unfold removeChild?
  split
  · exact prunes_detach d y
  · exact .refl d

theorem parent?_add (d : Document) (content : Content) (x : NodeId) :
    (d.add content).2.parent? x = d.parent? x := by
  rw [parent?, node?_add, parent?]
  split
  · next new =>
    rw [show d.node? x = none from Array.getElem?_eq_none (Nat.le_of_eq new.symm)]
    rfl
  · rfl

theorem prunes_add (d : Document) {content : Content} (follows : d.Follows (d.add content).2) :
    d.Prunes (d.add content).2 :=
  ⟨follows, fun x _ later => .inl ((d.parent?_add content x).symm.trans later)⟩

theorem prunes_createText (d : Document) (text : String) : d.Prunes (d.createText text).2 :=
  d.prunes_add (reworks_createText d text).toFollows

/-- A node that is put below another is the only one with a new parent. -/
theorem link_appendChild {parent child : NodeId} (later : (d.appendChild parent child).Link x p) :
    d.Link x p ∨ x = child ∧ p = parent := by
  by_cases allowed : d.Allows parent child
  · rw [Link, parent?_appendChild allowed] at later
    split at later
    · next same => exact .inr ⟨same, (Option.some.inj later).symm⟩
    · exact .inl later
  · rw [appendChild, if_pos (Classical.not_not.mp allowed)] at later
    exact .inl later

/-- A way up that does not come by the one node with a new parent is an old one. -/
theorem under_of_outside {child : NodeId} (links : ∀ x p, e.Link x p → d.Link x p ∨ x = child)
    (outside : ¬(x = child ∨ e.Under x child)) (below : e.Under x y) : d.Under x y := by
  induction below using Relation.TransGen.head_induction_on with
  | single link => exact .single ((links _ _ link).resolve_right fun same => outside (.inl same))
  | head link _ ih =>
    have before := (links _ _ link).resolve_right fun same => outside (.inl same)
    refine .head before (ih fun within => outside (.inr ?_))
    rcases within with rfl | deeper
    · exact .single link
    · exact .head link deeper

section Moved
variable {child : NodeId} (links : ∀ x p, x ≠ child → (e.Link x p ↔ d.Link x p))
include links

theorem under_iff_of_outside (outside : ¬(x = child ∨ e.Under x child)) : e.Under x y ↔ d.Under x y := by
  have kept (x p : NodeId) (later : e.Link x p) : d.Link x p ∨ x = child := by
    by_cases same : x = child
    · exact .inr same
    · exact .inl ((links x p same).mp later)
  refine ⟨under_of_outside kept outside, fun below => ?_⟩
  induction below using Relation.TransGen.head_induction_on with
  | single link => exact .single ((links _ _ fun same => outside (.inl same)).mpr link)
  | head link _ ih =>
    have before := (links _ _ fun same => outside (.inl same)).mpr link
    refine .head before (ih fun within => outside (.inr ?_))
    rcases within with rfl | deeper
    · exact .single before
    · exact .head before deeper

/-- What lies below the node that was moved has come along with it. -/
theorem Sound.under_of_moved (sound : e.Sound) (below : e.Under x child) : d.Under x child := by
  have apart {x : NodeId} (below : e.Under x child) : x ≠ child := by
    rintro rfl
    exact sound.not_under_self below
  induction below using Relation.TransGen.head_induction_on with
  | single link => exact .single ((links _ _ (apart (.single link))).mp link)
  | head link below ih => exact .head ((links _ _ (apart (.head link below))).mp link) ih

theorem isWithin_of_outside (before : d.Sound) (after : e.Sound) (outside : ¬(x = child ∨ e.Under x child)) :
    e.isWithin x y = d.isWithin x y := by
  rw [Bool.eq_iff_iff, after.isWithin_iff_under, before.isWithin_iff_under, under_iff_of_outside links outside]

end Moved

theorem link_detach_of_ne {child : NodeId} (other : x ≠ child) : (d.detach child).Link x p ↔ d.Link x p := by
  rw [Link, parent?_detach, if_neg other, Link]

theorem link_appendChild_of_ne {parent child : NodeId} (other : x ≠ child) :
    (d.appendChild parent child).Link x p ↔ d.Link x p := by
  by_cases allowed : d.Allows parent child
  · rw [Link, parent?_appendChild allowed, if_neg other, Link]
  · rw [appendChild, if_pos (Classical.not_not.mp allowed)]

theorem prunes_setText (d : Document) (x : NodeId) (text : String) : d.Prunes (d.setText x text) := by
  cases here : d.content? x with
  | none =>
    rw [setText, here]
    exact .refl d
  | some content =>
    cases content with
    | text old => exact .of_tree (d.tree_setText x text here)
    | element tag =>
      rw [setText, here]
      have emptied := Prunes.foldl prunes_detach (d.children x) d
      have grown := emptied.trans (prunes_createText _ text)
      refine ⟨grown.toFollows.trans (reworks_appendChild _ _ _).toFollows, fun y p later => ?_⟩
      -- The text node is the only one that comes below another.
      rcases link_appendChild later with before | ⟨new, -⟩
      · exact grown.link y p before
      · exact .inr (emptied.size.trans_eq (congrArg NodeId.index new).symm)

theorem prunes_show (d : Document) (b : Binding) (x : NodeId) (v : Value) : d.Prunes (b.show x v d) := by
  refine .of_tree ?_
  unfold Binding.show
  dsimp only
  split <;> simp

end LiveTree.Document
