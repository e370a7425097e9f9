import LiveTree.Proofs.Placement
import LiveTree.Proofs.Readiness.Run

/-! Components become ready from the bottom up, whatever consumer code does and in whatever order
the components below are done. -/
namespace LiveTree
variable {κ σ α : Type}

theorem Scene.Placed.componentAt? {s : Scene κ} (placed : s.Placed) {id : ComponentId}
    {c : Component κ} (found : s.component? id = some c) : s.componentAt? c.node = some id := by
  cases here : s.componentAt? c.node with
  | none => exact absurd rfl (componentAt?_eq_none.mp here id c found)
  | some other =>
    obtain ⟨d, there, same⟩ := componentAt?_spec here
    rw [placed.apart other id d c there found same]

/-- Below a component lie those whose nodes are its node or have it above them. -/
theorem Scene.Placed.below {s : Scene κ} (placed : s.Placed) {id other : ComponentId}
    {host c : Component κ} (found : s.component? id = some host)
    (there : s.component? other = some c) (apart : other ≠ id)
    (inside : s.document.isWithin c.node host.node = true) : s.Below id other := by
  refine ⟨host, found, List.mem_filterMap.mpr ⟨c.node, ?_, placed.componentAt? there⟩, apart⟩
  exact placed.document.isWithin_iff.mp inside

theorem History.expanded?_spec {h : History κ σ} {id : ComponentId} {u : Scene κ}
    (expanded : h.expanded? id = some u) :
    (∃ v, .change v u ∈ h) ∧ u.stage? id = some .expanded := by
  obtain ⟨x, member, here⟩ := List.exists_of_findSome?_eq_some expanded
  have member := List.mem_reverse.mp member
  cases x with
  | change v t =>
    rw [Step.expands?] at here
    split at here
    · next reached =>
      cases here
      exact ⟨⟨v, member⟩, reached.2⟩
    · cases here
  | request r s => cases here
  | answer c w a w' => cases here

theorem Orderly.initial (config : Config) (journal : Option Journal) (store : σ) :
    Orderly (⟨[], .ofConfig config journal, store⟩ : Point κ σ) where
  slack id := Int.le_refl 0
  fair id := Nat.le_refl 0
  expanded id here := by
    obtain ⟨stage, there, -⟩ := here
    cases there
  waiting id u expanded := by cases expanded

/-- When a component becomes ready, all others that lay at or below its node when its template had
been applied are completed, provided that nobody releases a component more often than it was held. -/
theorem ready_bottom_up (env : Environment κ σ) (fuel : Nat) (m : Script κ σ α) (config : Config)
    (journal : Option Journal) (store : σ) (past rest : History κ σ) (s t : Scene κ)
    (steps : (env.record fuel m ⟨.ofConfig config journal, store⟩).steps =
      past ++ .change s t :: rest)
    (balanced : Along Balanced [] (past ++ .change s t :: rest))
    (id : ComponentId) (before : s.stage? id ≠ some .ready) (after : t.stage? id = some .ready) :
    ∃ u host, History.expanded? past id = some u ∧ u.component? id = some host ∧
      ∀ other c, u.component? other = some c → other ≠ id →
        u.document.isWithin c.node host.node = true → s.isCompleted other = true := by
  have start := Script.wp_orderly m (Orderly.initial config journal store)
  have kept := Environment.record_fulfils (Readying.meets env) fuel m start
  have safe := (kept (by rw [steps]; exact balanced)).1
  obtain ⟨u, expanded, met⟩ := Along.iff_splits.mp safe past _ rest steps id before after
  obtain ⟨⟨v, member⟩, stage⟩ := History.expanded?_spec expanded
  obtain ⟨host, found, -⟩ := Option.map_eq_some_iff.mp stage
  have placed : u.Placed := placed_of_run env fuel m config journal store v u (by
    rw [steps]
    exact List.mem_append_left _ member)
  refine ⟨u, host, expanded, found, fun other c there apart inside => ?_⟩
  exact met other (placed.below found there apart inside)

def nesting : Script Empty Unit Unit := do
  let _ ← Script.request (.register (Declaration.define { tag := "x-in" }))
  let _ ← Script.request (.register (Declaration.define {
    tag := "x-out"
    template := some "<x-in></x-in>" }))
  let x ← Script.request (.createElement "x-out")
  Script.request (.hold ⟨0⟩)
  Script.request (.appendChild Document.root x)
  Script.request (.release ⟨0⟩)

def Step.readies (id : ComponentId) : Step κ σ → Bool
  | .change s t => s.stage? id ≠ some .ready ∧ t.stage? id = some .ready
  | _ => false

set_option maxRecDepth 100000 in
theorem ready_bottom_up_nesting : ∃ past s t rest,
    (silent.record 20 nesting ⟨.ofConfig {} none, ()⟩).steps = past ++ .change s t :: rest ∧
      Along Balanced [] (past ++ .change s t :: rest) ∧
      s.stage? ⟨0⟩ ≠ some .ready ∧ t.stage? ⟨0⟩ = some .ready ∧
      ∃ u host, History.expanded? past ⟨0⟩ = some u ∧ u.component? ⟨0⟩ = some host ∧
        ∀ other c, u.component? other = some c → other ≠ ⟨0⟩ →
          u.document.isWithin c.node host.node = true → s.isCompleted other = true := by
  have readied : (silent.record 20 nesting ⟨.ofConfig {} none, ()⟩).steps.any (Step.readies ⟨0⟩) := by
    decide +kernel
  have balanced : Along Balanced [] (silent.record 20 nesting ⟨.ofConfig {} none, ()⟩).steps := by
    decide +kernel
  obtain ⟨x, member, here⟩ := List.any_eq_true.mp readied
  obtain ⟨past, rest, split⟩ := List.append_of_mem member
  rw [split] at balanced
  cases x with
  | change s t =>
    obtain ⟨before, after⟩ := of_decide_eq_true here
    exact ⟨past, s, t, rest, split, balanced, before, after, ready_bottom_up silent 20 nesting {} none
      () past rest s t split balanced ⟨0⟩ before after⟩
  | request r s => cases here
  | answer c w a w' => cases here

end LiveTree
