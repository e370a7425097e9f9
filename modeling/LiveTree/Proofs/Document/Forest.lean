import Mathlib.Data.Finset.Card
import LiveTree.Proofs.Document.Frame

/-! Documents are forests. Parents and children agree, and no node lies above itself, so that the
bounded walks up and down find all there is. `Document.Sound` says so, with the tags in small
letters; `Document.Follows` is what the operations keep. -/
namespace LiveTree

namespace Document

def up (d : Document) : Nat → NodeId → Option NodeId
  | 0, x => some x
  | n + 1, x => (d.parent? x).bind (d.up n)

structure Sound (d : Document) : Prop where
  listed : ∀ x p, d.parent? x = some p → x ∈ d.children p
  parent : ∀ x p, x ∈ d.children p → d.parent? x = some p
  nodup : ∀ x, (d.children x).Nodup
  acyclic : ∀ n x, d.up (n + 1) x ≠ some x
  lower : ∀ x tag, d.tag? x = some tag → tag.toLower = tag

structure Follows (d e : Document) : Prop where
  sound : d.Sound → e.Sound
  size : d.size ≤ e.size
  tag : ∀ x : NodeId, x.index < d.size → e.tag? x = d.tag? x

namespace Follows
variable {d e k : Document}

theorem refl (d : Document) : d.Follows d := ⟨fun sound => sound, Nat.le_refl _, fun _ _ => rfl⟩

theorem trans (first : d.Follows e) (second : e.Follows k) : d.Follows k where
  sound sound := second.sound (first.sound sound)
  size := first.size.trans second.size
  tag x bound := (second.tag x (bound.trans_le first.size)).trans (first.tag x bound)

/-- A fold over operations is one. -/
theorem foldl {β : Type} {f : Document → β → Document} (step : ∀ (d : Document) b, d.Follows (f d b))
    (items : List β) (d : Document) : d.Follows (items.foldl f d) := by
  induction items generalizing d with
  | nil => exact refl d
  | cons b rest ih => exact (step d b).trans (ih _)

end Follows

structure Reworks (d e : Document) : Prop extends d.Follows e where
  elements : e.tag? = d.tag?
  listed : e.listed = d.listed

namespace Reworks
variable {d e k : Document}

theorem refl (d : Document) : d.Reworks d := ⟨.refl d, rfl, rfl⟩

theorem trans (first : d.Reworks e) (second : e.Reworks k) : d.Reworks k :=
  ⟨first.toFollows.trans second.toFollows, second.elements.trans first.elements,
    second.listed.trans first.listed⟩

theorem foldl {β : Type} {f : Document → β → Document} (step : ∀ (d : Document) b, d.Reworks (f d b))
    (items : List β) (d : Document) : d.Reworks (items.foldl f d) := by
  induction items generalizing d with
  | nil => exact refl d
  | cons b rest ih => exact (step d b).trans (ih _)

end Reworks

section Tree
variable {d e : Document}

theorem frame?_eq (d : Document) (x : NodeId) : d.tree[x.index]? = (d.node? x).map Node.frame := by
  simp only [tree, node?, Arena.get?, Array.getElem?_map]

theorem parent?_eq (d : Document) (x : NodeId) :
    d.parent? x = (d.tree[x.index]?).bind Frame.parent := by
  rw [frame?_eq, parent?, Option.bind_map]
  rfl

theorem children_eq (d : Document) (x : NodeId) :
    d.children x = ((d.tree[x.index]?).map Frame.children).getD [] := by
  rw [frame?_eq, children, Option.map_map]
  rfl

theorem tag?_eq (d : Document) (x : NodeId) : d.tag? x = (d.tree[x.index]?).bind Frame.tag := by
  rw [frame?_eq, tag?, content?, Option.bind_map]
  cases d.node? x with
  | none => rfl
  | some n => cases h : n.content <;> simp [Node.frame, Node.tag?, h]

theorem size_eq (d : Document) : d.size = d.tree.size := by simp [tree, size, Arena.size]

theorem up_congr (parent : ∀ x, e.parent? x = d.parent? x) (n : Nat) (x : NodeId) :
    e.up n x = d.up n x := by
  induction n generalizing x with
  | zero => rfl
  | succ n ih => simp only [up, parent, funext ih]

theorem ancestors_congr (parent : ∀ x, e.parent? x = d.parent? x) (size : e.size = d.size) (x : NodeId) :
    e.ancestors x = d.ancestors x := by
  have same (most : Nat) (x : NodeId) : e.ancestorsUpTo most x = d.ancestorsUpTo most x := by
    induction most generalizing x with
    | zero => rfl
    | succ most ih => simp only [ancestorsUpTo, parent, ih]
  rw [ancestors, ancestors, same, size]

theorem isWithin_congr (parent : ∀ x, e.parent? x = d.parent? x) (size : e.size = d.size) (x y : NodeId) :
    e.isWithin x y = d.isWithin x y := by
  rw [isWithin, isWithin, ancestors_congr parent size]

theorem parent?_of_tree (same : e.tree = d.tree) (x : NodeId) : e.parent? x = d.parent? x := by
  rw [parent?_eq, same, parent?_eq]

theorem size_of_tree (same : e.tree = d.tree) : e.size = d.size := by rw [size_eq, same, size_eq]

theorem isWithin_of_tree (same : e.tree = d.tree) (x y : NodeId) : e.isWithin x y = d.isWithin x y :=
  isWithin_congr (parent?_of_tree same) (size_of_tree same) x y

theorem isConnected_of_tree (same : e.tree = d.tree) (x : NodeId) : e.isConnected x = d.isConnected x :=
  isWithin_of_tree same x root

theorem Follows.of_tree (same : e.tree = d.tree) : d.Follows e where
  sound sound := by
    have parent := parent?_of_tree same
    have children (x) : e.children x = d.children x := by rw [children_eq, same, children_eq]
    exact {
      listed := fun x p => by rw [parent, children]; exact sound.listed x p
      parent := fun x p => by rw [parent, children]; exact sound.parent x p
      nodup := fun x => by rw [children]; exact sound.nodup x
      acyclic := fun n x => by rw [up_congr parent]; exact sound.acyclic n x
      lower := fun x tag => by rw [tag?_eq, same, ← tag?_eq]; exact sound.lower x tag }
  size := (size_of_tree same).ge
  tag x _ := by rw [tag?_eq, same, tag?_eq]

theorem elements_of_tree (same : e.tree = d.tree) : e.tag? = d.tag? :=
  funext fun x => by rw [tag?_eq, same, tag?_eq]

theorem Reworks.of_tree (same : e.tree = d.tree) (listed : e.listed = d.listed) : d.Reworks e :=
  ⟨.of_tree same, elements_of_tree same, listed⟩

end Tree

section Walks
variable {d : Document} {x y : NodeId}

theorem up_add (d : Document) (m n : Nat) (x : NodeId) :
    d.up (m + n) x = (d.up m x).bind (d.up n) := by
  induction m generalizing x with
  | zero => simp [up]
  | succ m ih =>
    rw [Nat.succ_add, up, up]
    cases d.parent? x with
    | none => rfl
    | some p => exact ih p

theorem mem_ancestorsUpTo (most : Nat) :
    y ∈ d.ancestorsUpTo most x ↔ ∃ n < most, d.up (n + 1) x = some y := by
  induction most generalizing x with
  | zero => simp [ancestorsUpTo]
  | succ most ih =>
    cases h : d.parent? x with
    | none => simp [ancestorsUpTo, up, h]
    | some p =>
      simp only [ancestorsUpTo, h, List.mem_cons, ih, up, Option.bind_some]
      constructor
      · rintro (rfl | ⟨n, bound, there⟩)
        · exact ⟨0, by omega, rfl⟩
        · exact ⟨n + 1, by omega, there⟩
      · rintro ⟨n, bound, there⟩
        cases n with
        | zero => exact .inl (Option.some.inj there).symm
        | succ n => exact .inr ⟨n, by omega, there⟩

theorem bound_of_parent? {p : NodeId} (here : d.parent? x = some p) : x.index < d.size := by
  obtain ⟨n, found, -⟩ := Option.bind_eq_some_iff.mp here
  exact (Array.getElem?_eq_some_iff.mp found).1

theorem sound_empty : empty.Sound := by
  have parent (x : NodeId) : empty.parent? x = none := by
    obtain ⟨i⟩ := x
    cases i <;> rfl
  have children (x : NodeId) : empty.children x = [] := by
    obtain ⟨i⟩ := x
    cases i <;> rfl
  refine ⟨fun x p here => ?_, fun x p here => ?_, fun x => ?_, fun n x => ?_, fun x tag here => ?_⟩
  · rw [parent] at here; cases here
  · rw [children] at here; cases here
  · rw [children]; exact List.nodup_nil
  · rw [up, parent]; nofun
  · obtain ⟨i⟩ := x
    cases i with
    | zero =>
      cases here
      rw [← String.toList_inj]
      refine (String.toList_map ..).trans ?_
      decide
    | succ i => cases here

theorem bound_of_tag? {tag : String} (here : d.tag? x = some tag) : x.index < d.size := by
  rw [tag?_eq] at here
  obtain ⟨f, found, -⟩ := Option.bind_eq_some_iff.mp here
  rw [size_eq]
  exact (Array.getElem?_eq_some_iff.mp found).1

theorem bound_of_child (inside : x ∈ d.children y) : y.index < d.size := by
  unfold children at inside
  cases found : d.node? y with
  | none => rw [found] at inside; cases inside
  | some n => exact (Array.getElem?_eq_some_iff.mp found).1

/-- A walk up from a node never comes back, so it is no longer than there are nodes. -/
theorem Sound.up_lt (sound : d.Sound) {n : Nat} (there : d.up n x = some y)
    (inside : x.index < d.size) : n < d.size := by
  have step (i : Nat) (le : i ≤ n) :
      d.up i x = some ((d.up i x).getD x) ∧ ((d.up i x).getD x).index < d.size := by
    rw [show n = i + (n - i) by omega, up_add] at there
    obtain ⟨z, reached, -⟩ := Option.bind_eq_some_iff.mp there
    rw [reached]
    refine ⟨rfl, ?_⟩
    cases i with
    | zero => cases reached; exact inside
    | succ i =>
      rw [up_add d i 1] at reached
      obtain ⟨w, -, last⟩ := Option.bind_eq_some_iff.mp reached
      obtain ⟨p, parent, same⟩ := Option.bind_eq_some_iff.mp last
      cases same
      exact bound_of_child (sound.listed w z parent)
  have apart : Set.InjOn (fun i => ((d.up i x).getD x).index) (Finset.range (n + 1)) := by
    intro i first j second same
    wlog le : i ≤ j generalizing i j
    · exact (this second first same.symm (by omega)).symm
    by_contra ne
    have equal : d.up i x = d.up j x := by
      rw [(step i (by grind)).1, (step j (by grind)).1]
      exact congrArg (fun k => some (NodeId.mk k)) same
    have round : (d.up i x).bind (d.up (j - i - 1 + 1)) = d.up i x := by
      rw [← up_add, show i + (j - i - 1 + 1) = j by omega, equal]
    rw [(step i (by grind)).1] at round
    exact sound.acyclic (j - i - 1) ((d.up i x).getD x) round
  have card := Finset.card_le_card_of_injOn (t := Finset.range d.size) _
    (fun i member => by
      have bound : i ≤ n := by simpa [Nat.lt_succ_iff] using member
      simpa using (step i bound).2) apart
  simpa [Nat.succ_le_iff] using card

/-- The ancestors of a node are all the nodes that a walk up comes to. -/
theorem Sound.mem_ancestors (sound : d.Sound) :
    y ∈ d.ancestors x ↔ ∃ n, d.up (n + 1) x = some y := by
  rw [ancestors, mem_ancestorsUpTo]
  refine ⟨fun ⟨n, _, there⟩ => ⟨n, there⟩, fun ⟨n, there⟩ => ⟨n, ?_, there⟩⟩
  obtain ⟨p, parent, -⟩ := Option.bind_eq_some_iff.mp there
  have := sound.up_lt there (bound_of_parent? parent)
  omega

theorem Sound.mem_children (sound : d.Sound) : x ∈ d.children y ↔ d.parent? x = some y :=
  ⟨sound.parent x y, sound.listed x y⟩

theorem Sound.mem_descendantsUpTo (sound : d.Sound) (most : Nat) :
    y ∈ d.descendantsUpTo most x ↔ ∃ n < most, d.up (n + 1) y = some x := by
  induction most generalizing x with
  | zero => simp [descendantsUpTo]
  | succ most ih =>
    simp only [descendantsUpTo, List.mem_flatMap, List.mem_cons, sound.mem_children, ih]
    constructor
    · rintro ⟨c, parent, rfl | ⟨n, bound, there⟩⟩
      · exact ⟨0, by omega, by simp [up, parent]⟩
      · refine ⟨n + 1, by omega, ?_⟩
        rw [up_add d (n + 1) 1, there]
        simp [up, parent]
    · rintro ⟨n, bound, there⟩
      rw [up_add d n 1] at there
      obtain ⟨c, reached, last⟩ := Option.bind_eq_some_iff.mp there
      obtain ⟨p, parent, same⟩ := Option.bind_eq_some_iff.mp last
      cases same
      refine ⟨c, parent, ?_⟩
      cases n with
      | zero => exact .inl (Option.some.inj reached)
      | succ n => exact .inr ⟨n, by omega, reached⟩

theorem Sound.mem_descendants (sound : d.Sound) :
    y ∈ d.descendants x ↔ ∃ n, d.up (n + 1) y = some x := by
  rw [descendants, sound.mem_descendantsUpTo]
  refine ⟨fun ⟨n, _, there⟩ => ⟨n, there⟩, fun ⟨n, there⟩ => ⟨n, ?_, there⟩⟩
  obtain ⟨p, parent, -⟩ := Option.bind_eq_some_iff.mp there
  have := sound.up_lt there (bound_of_parent? parent)
  omega

/-- A node is within another exactly if the walk down from that one comes to it. -/
theorem Sound.isWithin_iff (sound : d.Sound) : d.isWithin y x = true ↔ y ∈ d.subtree x := by
  rw [isWithin, subtree, Bool.or_eq_true, beq_iff_eq, List.contains_iff_mem, List.mem_cons,
    sound.mem_ancestors, sound.mem_descendants]

/-- Below two different children of a node there is nothing in common. -/
theorem Sound.apart_of_siblings (sound : d.Sound) {c c' : NodeId} {m n : Nat}
    (parent : d.parent? c = some x) (parent' : d.parent? c' = some x)
    (there : d.up m y = some c) (there' : d.up n y = some c') : c = c' := by
  wlog le : m ≤ n generalizing c c' m n
  · exact (this parent' parent there' there (by omega)).symm
  rw [show n = m + (n - m) by omega, up_add, there, Option.bind_some] at there'
  cases gap : n - m with
  | zero =>
    rw [gap] at there'
    exact Option.some.inj there'
  | succ k =>
    rw [gap, up, parent, Option.bind_some] at there'
    refine absurd ?_ (sound.acyclic k x)
    rw [up_add d k 1, there']
    simp [up, parent']

theorem Sound.nodup_descendantsUpTo (sound : d.Sound) (most : Nat) (x : NodeId) :
    (d.descendantsUpTo most x).Nodup := by
  induction most generalizing x with
  | zero => exact List.nodup_nil
  | succ most ih =>
    refine List.nodup_flatMap.mpr ⟨fun c member => List.nodup_cons.mpr ⟨fun below => ?_, ih c⟩, ?_⟩
    · obtain ⟨n, -, there⟩ := (sound.mem_descendantsUpTo most).mp below
      exact sound.acyclic n c there
    · refine (sound.nodup x).imp_of_mem fun {c c'} member member' ne y first second => ne ?_
      have walk {c : NodeId} (inside : y ∈ c :: d.descendantsUpTo most c) :
          ∃ n, d.up n y = some c := by
        rcases List.mem_cons.mp inside with rfl | below
        · exact ⟨0, rfl⟩
        · obtain ⟨n, -, there⟩ := (sound.mem_descendantsUpTo most).mp below
          exact ⟨n + 1, there⟩
      obtain ⟨m, there⟩ := walk first
      obtain ⟨n, there'⟩ := walk second
      exact sound.apart_of_siblings (sound.parent c x member) (sound.parent c' x member') there there'

theorem Sound.nodup_descendants (sound : d.Sound) (x : NodeId) : (d.descendants x).Nodup :=
  sound.nodup_descendantsUpTo _ x

end Walks
end Document
end LiveTree
