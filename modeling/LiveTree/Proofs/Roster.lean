import LiveTree.Proofs.Document.Frame
import LiveTree.Scene

/-! The rosters of listeners. A listener is known in two places: its node lists its number, and the
scene has under that number what it does. Numbers are handed out one after the other, and the gap
that a removed listener leaves is never filled. `Scene.Enrols` is what follows for any two scenes of
a run, an earlier and a later one. -/
namespace LiveTree
variable {κ : Type}

namespace Scene

/-- The numbers listed at nodes have been handed out, each is listed at one node only, and there
they stand in the order in which they were handed out. -/
structure Enlisted (s : Scene κ) : Prop where
  known : ∀ x, ∀ l ∈ s.document.listed x, l.2.index < s.listeners.size
  ordered : ∀ x, (s.document.listed x).Pairwise fun l k => l.2.index < k.2.index
  single : ∀ x y, ∀ l ∈ s.document.listed x, ∀ k ∈ s.document.listed y, l.2 = k.2 → x = y

structure Enrols (s t : Scene κ) : Prop where
  enlisted : s.Enlisted → t.Enlisted
  size : s.listeners.size ≤ t.listeners.size
  slot : ∀ i < s.listeners.size,
    t.listeners.get? i = s.listeners.get? i ∨ t.listeners.get? i = some none
  listed : ∀ x, ∀ l ∈ t.document.listed x, l.2.index < s.listeners.size → l ∈ s.document.listed x

theorem enlisted_ofConfig (config : Config) (journal : Option Journal) :
    (ofConfig config journal : Scene κ).Enlisted := by
  have bare (x : NodeId) : Document.empty.listed x = [] := by
    obtain ⟨i⟩ := x
    cases i <;> rfl
  refine ⟨fun x l inside => ?_, fun x => ?_, fun x y l inside => ?_⟩
  · exact absurd (bare x ▸ inside) List.not_mem_nil
  · exact (bare x).symm ▸ List.Pairwise.nil
  · exact absurd (bare x ▸ inside) List.not_mem_nil

namespace Enrols
variable {s t u : Scene κ}

theorem trans (first : s.Enrols t) (second : t.Enrols u) : s.Enrols u where
  enlisted holds := second.enlisted (first.enlisted holds)
  size := Nat.le_trans first.size second.size
  slot i old := by
    rcases second.slot i (Nat.lt_of_lt_of_le old first.size) with same | gone
    · rw [same]
      exact first.slot i old
    · exact .inr gone
  listed x l inside old :=
    first.listed x l (second.listed x l inside (Nat.lt_of_lt_of_le old first.size)) old

/-- Nothing was added. -/
theorem of_fewer (size : t.listeners.size = s.listeners.size)
    (slot : ∀ i, t.listeners.get? i = s.listeners.get? i ∨ t.listeners.get? i = some none)
    (fewer : ∀ x, (t.document.listed x).Sublist (s.document.listed x)) : s.Enrols t where
  enlisted holds := {
    known := fun x l inside => by
      rw [size]
      exact holds.known x l ((fewer x).subset inside)
    ordered := fun x => (holds.ordered x).sublist (fewer x)
    single := fun x y l first k second =>
      holds.single x y l ((fewer x).subset first) k ((fewer y).subset second) }
  size := Nat.le_of_eq size.symm
  slot i _ := slot i
  listed x _ inside _ := (fewer x).subset inside

theorem of_same (listeners : t.listeners = s.listeners)
    (listed : t.document.listed = s.document.listed) : s.Enrols t :=
  of_fewer (by rw [listeners]) (fun i => .inl (by rw [listeners])) fun x => by
    simp [listed]

theorem refl (s : Scene κ) : s.Enrols s := of_same rfl rfl

/-- What is listed after a listener was added: what was, and the new number last at its node. -/
theorem listed_listen (s : Scene κ) (x y : NodeId) (event : String) {l : String × ListenerId}
    (inside : l ∈ (s.document.addListener x event ⟨s.listeners.size⟩).listed y) :
    l ∈ s.document.listed y ∨ x = y ∧ l = (event, ⟨s.listeners.size⟩) := by
  rcases s.document.listed_addListener x y event ⟨s.listeners.size⟩ with same | ⟨here, grown⟩
  · rw [same] at inside
    exact .inl inside
  · rw [grown] at inside
    exact (List.mem_append.mp inside).imp_right fun last => ⟨here, List.mem_singleton.mp last⟩

theorem listen (s : Scene κ) (x : NodeId) (event : String) (l : Listener κ) :
    s.Enrols { s.edit (·.addListener x event ⟨s.listeners.size⟩) with
      listeners := s.listeners.push (some l) } where
  size := by
    rw [Arena.size_push]
    exact Nat.le_succ _
  slot i old := .inl (by rw [Arena.get?_push, if_neg (Nat.ne_of_lt old)])
  listed y k inside old := by
    rcases listed_listen s x y event inside with before | ⟨-, rfl⟩
    · exact before
    · exact absurd old (Nat.lt_irrefl _)
  enlisted holds := {
    known := fun y k inside => by
      rw [Arena.size_push]
      rcases listed_listen s x y event inside with before | ⟨-, rfl⟩
      · exact Nat.lt_succ_of_lt (holds.known y k before)
      · exact Nat.lt_succ_self _
    ordered := fun y => by
      change ((s.document.addListener x event ⟨s.listeners.size⟩).listed y).Pairwise _
      rcases s.document.listed_addListener x y event ⟨s.listeners.size⟩ with same | ⟨-, grown⟩
      · rw [same]
        exact holds.ordered y
      · rw [grown]
        refine List.pairwise_append.mpr ⟨holds.ordered y, List.pairwise_singleton _ _, ?_⟩
        intro k before m last
        rw [List.mem_singleton.mp last]
        exact holds.known y k before
    single := fun y z k first m second same => by
      have fresh {w : NodeId} {k : String × ListenerId} (before : k ∈ s.document.listed w) :
          k.2 ≠ ⟨s.listeners.size⟩ := fun equal =>
        absurd (holds.known w k before) (by rw [equal]; exact Nat.lt_irrefl _)
      rcases listed_listen s x y event first with before | ⟨rfl, rfl⟩
      · rcases listed_listen s x z event second with before' | ⟨-, rfl⟩
        · exact holds.single y z k before m before' same
        · exact absurd same (fresh before)
      · rcases listed_listen s x z event second with before' | ⟨rfl, -⟩
        · exact absurd same.symm (fresh before')
        · rfl }

theorem unlisten (s : Scene κ) (x : NodeId) (event : String) (l : ListenerId) :
    s.Enrols { s.edit (·.removeListener x event l) with
      listeners := s.listeners.modify l.index fun _ => none } := by
  refine of_fewer (Arena.size_modify _ _ _) (fun i => ?_) fun y =>
    s.document.listed_removeListener x y event l
  rw [Arena.get?_modify]
  split
  · cases s.listeners.get? i with
    | none => exact .inl rfl
    | some held => exact .inr rfl
  · exact .inl rfl

/-- A removed listener does not come back. -/
theorem gone (enrols : s.Enrols t) {i : Nat} (gone : s.listeners.get? i = some none) :
    t.listeners.get? i = some none := by
  have old : i < s.listeners.size := (Array.getElem?_eq_some_iff.mp gone).1
  rcases enrols.slot i old with same | removed
  · rw [same, gone]
  · exact removed

end Enrols
end Scene
end LiveTree
