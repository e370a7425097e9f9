import Mathlib.Algebra.Order.BigOperators.Group.Finset
import LiveTree.Proofs.Footprint.Life

/-! The holds of a component and what they are for. A history tells how often a component was held
and released from outside and how the tree looked when its template had been applied; a scene tells
how many holds it has and how many components list it as waiting for them. The difference is what
the acts under way still have to drop. -/
namespace LiveTree
variable {κ σ : Type}

namespace Scene

def stage? (s : Scene κ) (id : ComponentId) : Option Stage := (s.component? id).map Component.stage

def isCompleted (s : Scene κ) (id : ComponentId) : Bool :=
  (s.component? id).any Component.completed

def holds (s : Scene κ) (id : ComponentId) : Nat :=
  ((s.component? id).map fun c => c.barrier.holds).getD 0

def waiters (s : Scene κ) (id : ComponentId) : List ComponentId :=
  ((s.component? id).map Component.waiters).getD []

def waits (s : Scene κ) (id : ComponentId) : Nat :=
  ∑ i ∈ Finset.range s.components.size, (s.waiters ⟨i⟩).count id

theorem component?_eq_none {s : Scene κ} {i : Nat} (out : s.components.size ≤ i) :
    s.component? ⟨i⟩ = none := Array.getElem?_eq_none out

theorem waits_eq_sum (s : Scene κ) (id : ComponentId) {n : Nat} (bound : s.components.size ≤ n) :
    s.waits id = ∑ i ∈ Finset.range n, (s.waiters ⟨i⟩).count id := by
  refine Finset.sum_subset (Finset.range_mono bound) fun i _ out => ?_
  have beyond : s.components.size ≤ i := by simpa using out
  rw [waiters, component?_eq_none beyond]
  rfl

theorem waits_congr {s t : Scene κ} (same : ∀ x, t.waiters x = s.waiters x) (id : ComponentId) :
    t.waits id = s.waits id := by
  rw [waits_eq_sum t id (Nat.le_max_right s.components.size t.components.size),
    waits_eq_sum s id (Nat.le_max_left s.components.size t.components.size)]
  exact Finset.sum_congr rfl fun i _ => by rw [same]

/-- If only one component has other waiters, the counts differ by those. -/
theorem waits_change {s t : Scene κ} (x : ComponentId)
    (others : ∀ y, y ≠ x → t.waiters y = s.waiters y) (id : ComponentId) :
    t.waits id + (s.waiters x).count id = s.waits id + (t.waiters x).count id := by
  obtain ⟨k⟩ := x
  obtain ⟨n, left, right, inside⟩ : ∃ n, s.components.size ≤ n ∧ t.components.size ≤ n ∧ k < n :=
    ⟨s.components.size + t.components.size + k + 1, by omega, by omega, by omega⟩
  have member : k ∈ Finset.range n := Finset.mem_range.mpr inside
  rw [waits_eq_sum t id right, waits_eq_sum s id left, ← Finset.add_sum_erase _ _ member,
    ← Finset.add_sum_erase _ (fun i => (s.waiters ⟨i⟩).count id) member]
  have rest : ∑ i ∈ (Finset.range n).erase k, (t.waiters ⟨i⟩).count id =
      ∑ i ∈ (Finset.range n).erase k, (s.waiters ⟨i⟩).count id :=
    Finset.sum_congr rfl fun i inside => by
      rw [others ⟨i⟩ fun same => (Finset.mem_erase.mp inside).1 (congrArg ComponentId.index same)]
  rw [rest]
  omega

theorem waits_pos {s : Scene κ} {id x : ComponentId} (listed : id ∈ s.waiters x) :
    0 < s.waits id := by
  have there : x.index < s.components.size := by
    by_contra out
    rw [waiters, show s.component? x = none from component?_eq_none (Nat.le_of_not_lt out)] at listed
    cases listed
  refine Nat.lt_of_lt_of_le (List.count_pos_iff.mpr listed) ?_
  exact Finset.single_le_sum (f := fun i => (s.waiters ⟨i⟩).count id) (fun _ _ => Nat.zero_le _)
    (Finset.mem_range.mpr there)

end Scene

def Step.holds (id : ComponentId) : Step κ σ → Bool
  | .request (.hold other) s => other = id && (s.component? id).any fun c => !c.completed
  | _ => false

def Step.released? : Step κ σ → Option ComponentId
  | .request (.release id) s => if (s.component? id).isSome then some id else none
  | _ => none

def Step.drops (id : ComponentId) (x : Step κ σ) : Bool := x.released? = some id

def Step.expands? (id : ComponentId) : Step κ σ → Option (Scene κ)
  | .change s t =>
    if s.stage? id ≠ some .expanded ∧ t.stage? id = some .expanded then some t else none
  | _ => none

namespace History

def held (h : History κ σ) (id : ComponentId) : Nat := h.countP (Step.holds id)

def dropped (h : History κ σ) (id : ComponentId) : Nat := h.countP (Step.drops id)

def expanded? (h : History κ σ) (id : ComponentId) : Option (Scene κ) :=
  h.reverse.findSome? (Step.expands? id)

variable (h : History κ σ) (x : Step κ σ) (id : ComponentId)

theorem held_append : held (h ++ [x]) id = held h id + if x.holds id then 1 else 0 := by
  rw [held, List.countP_append, List.countP_singleton, held]

theorem dropped_append : dropped (h ++ [x]) id = dropped h id + if x.drops id then 1 else 0 := by
  rw [dropped, List.countP_append, List.countP_singleton, dropped]

theorem expanded?_append : expanded? (h ++ [x]) id = (x.expands? id).or (expanded? h id) := by
  rw [expanded?, List.reverse_append, List.reverse_singleton, List.singleton_append,
    List.findSome?_cons, expanded?]
  cases x.expands? id <;> rfl

end History

def Balanced (past : History κ σ) (x : Step κ σ) : Prop :=
  ∀ id ∈ x.released?, History.dropped past id < History.held past id

instance (past : History κ σ) (x : Step κ σ) : Decidable (Balanced past x) :=
  inferInstanceAs (Decidable (∀ id ∈ x.released?, _ < _))

/-- The holds of a component that are neither from outside nor for a component it waits for. -/
def Point.slack (p : Point κ σ) (id : ComponentId) : Int :=
  p.scene.holds id + p.past.dropped id - p.scene.waits id - p.past.held id

end LiveTree
