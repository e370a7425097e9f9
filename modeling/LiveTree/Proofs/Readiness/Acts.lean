import LiveTree.Proofs.Readiness.Contract

/-! What the acts that move a component on do to the order. -/
namespace LiveTree
variable {κ σ : Type}

theorem Scene.stage?_setStage (s : Scene κ) (id other : ComponentId) (stage : Stage) :
    (s.modify id fun c => { c with stage := stage }).stage? other =
      if id = other then (s.stage? other).map fun _ => stage else s.stage? other := by
  unfold stage?
  rw [component?_modify]
  split
  · rw [Option.map_map, Option.map_map]
    rfl
  · rfl

/-- A clear barrier means that there is nothing left to wait for. -/
theorem Orderly.met {p : Point κ σ} (orderly : Orderly p) {id : ComponentId}
    (clear : p.scene.holds id = 0) : Met id p := by
  intro u expanded other below
  refine (orderly.waiting id u expanded other below).resolve_right fun listed => ?_
  have waits := Scene.waits_pos listed
  have slack := orderly.slack id
  have fair := orderly.fair id
  rw [Point.slack, clear] at slack
  omega

namespace Act.Keeps
variable {P : Point κ σ → Prop}

theorem setStage (id : ComponentId) (stage : Stage) (late : stage.isApplied = true)
    (new : stage ≠ .expanded) (applied : ∀ p, P p → p.scene.Applied id)
    (met : stage = .ready → ∀ p, P p → Met id p) : (Act.setStage id stage).Keeps P := by
  intro p orderly here
  have alike : p.scene.Alike [.stage] (p.scene.modify id fun c => { c with stage := stage }) :=
    (Touches.setStage id stage p.scene).1
  have tidy : Tidy (fun _ => False) p.scene
      (p.scene.modify id fun c => { c with stage := stage }) :=
    { node := alike.node
      completed := fun other done => by rwa [alike.isCompleted (by decide)]
      listed := fun other x listed => .inr (by rwa [alike.waiters (by decide)])
      mild := fun other _ => by
        rw [Scene.stage?_setStage]
        split
        · next same =>
          obtain ⟨before, there, was⟩ := applied p here
          subst same
          exact .inr (.inr ⟨⟨before, there, was⟩, stage, by rw [there]; rfl, late, new⟩)
        · exact .inl rfl
      unapplied := fun _ => False.elim }
  refine Readying.takes_tidy _ orderly tidy (fun other => ?_) (fun other => ?_) fun other before => ?_
  · rw [alike.slack (by decide)]; omega
  · rw [alike.slack (by decide)]; exact orderly.slack other
  · rw [Scene.stage?_setStage]
    split
    · next same =>
      subst same
      intro after
      have ready : stage = .ready := by
        obtain ⟨_, _, same⟩ := Option.map_eq_some_iff.mp after
        exact same
      obtain ⟨u, expanded⟩ := orderly.expanded id (applied p here)
      exact ⟨u, expanded, met ready p here u expanded⟩
    · exact fun after => absurd after before

theorem enter (id : ComponentId) :
    (Act.enter id : Act κ _).Keeps fun p : Point κ σ => p.scene.Applied id := by
  have lasting := lasting_applied (κ := κ) (σ := σ) id
  refine bind lasting (setStage id .attached rfl nofun (fun _ here => here) nofun) fun _ => ?_
  refine bind lasting (of_touches (.tellParts _ _) (by decide)) fun _ => ?_
  exact bind lasting (of_touches (.runHook _ _ _) (by decide)) fun _ => of_touches (.wire _) (by decide)

theorem attach (id : ComponentId) :
    (Act.attach id : Act κ _).Keeps fun p : Point κ σ => p.scene.Applied id := by
  refine withComponent fun c => mono ?_ fun p here => here.2
  refine bind (lasting_applied id) (enter id) fun _ => bind (lasting_applied id) scene fun s => ?_
  split
  · exact ite (fun _ => of_touches (.modifyStrays _ _) (by decide)) (pure _)
  · exact pure _

theorem detach (id : ComponentId) : (Act.detach id : Act κ _).Keeps P := by
  refine withComponent fun c => ?_
  extract_lets left
  have later (r) : (left r).Calmly := by
    have dequeued (s : Scene κ) := Scene.Alike.put (F := [.pending]) s .pending
      (s.pending.filter (· ≠ id)) (by decide)
    refine .bind (.of_touches (C := []) (.update dequeued) (by decide)) fun _ => .bind .scene fun s => ?_
    split
    · split
      · exact .of_touches (.addStray _ _) (by decide)
      · exact .pure _
    · exact .pure _
  by_cases attached : c.stage = .attached
  · rw [if_pos attached]
    have lasting := lasting_applied (κ := κ) (σ := σ) id
    refine mono (P := fun p => p.scene.Applied id) ?_ fun p here => ?_
    · refine bind lasting (of_touches (.unwire _) (by decide)) fun _ => ?_
      refine bind lasting (setStage id .detached rfl nofun (fun _ here => here) nofun) fun _ => ?_
      refine bind lasting (of_touches (.tellParts _ _) (by decide)) fun _ => ?_
      exact bind lasting (of_touches (.runHook _ _ _) (by decide)) fun _ => of_calmly (later ())
    · exact ⟨.attached, by rw [Scene.stage?, here.1, Option.map_some, attached], rfl⟩
  · rw [if_neg attached]
    exact of_calmly (later ())

theorem markCompleted (id : ComponentId) :
    (Act.modify id fun c : Component κ => { c with completed := true }).Touches [.completed] [] :=
  .modify fun c => .put c .completed _ (by decide)

theorem clearWaiters (id : ComponentId) :
    (Act.modify id fun c : Component κ => { c with waiters := [] }).Touches [.waiters] [] :=
  .modify fun c => .put c .waiters _ (by decide)

end Act.Keeps

namespace Scene

theorem isCompleted_mark (s : Scene κ) (id other : ComponentId) :
    (s.modify id fun c => { c with completed := true }).isCompleted other =
      if id = other then (s.component? other).isSome else s.isCompleted other := by
  unfold isCompleted
  rw [component?_modify]
  split
  · cases s.component? other <;> rfl
  · rfl

theorem waiters_clear (s : Scene κ) (id other : ComponentId) :
    (s.modify id fun c => { c with waiters := [] }).waiters other =
      if id = other then [] else s.waiters other := by
  unfold waiters
  rw [component?_modify]
  split
  · cases s.component? other <;> rfl
  · rfl

theorem isSome_of_isCompleted {s : Scene κ} {id : ComponentId} (done : s.isCompleted id = true) :
    (s.component? id).isSome = true := by
  unfold isCompleted at done
  cases here : s.component? id with
  | none => rw [here] at done; cases done
  | some c => rfl

end Scene

namespace Readying
variable {p : Point κ σ}

/-- A component's completion takes nothing from anybody. -/
theorem takes_completed (orderly : Orderly p) (id : ComponentId) :
    (Readying κ σ).Takes p.past
      (.change p.scene (p.scene.modify id fun c => { c with completed := true }))
      (Orderly (p.change (p.scene.modify id fun c => { c with completed := true })) ∧
        Steady p (p.change (p.scene.modify id fun c => { c with completed := true }))) := by
  have alike : p.scene.Alike [.completed] (p.scene.modify id fun c => { c with completed := true }) :=
    (Act.Keeps.markCompleted id p.scene).1
  have tidy : Tidy (fun _ => False) p.scene
      (p.scene.modify id fun c => { c with completed := true }) :=
    { node := alike.node
      completed := fun other done => by
        rw [Scene.isCompleted_mark]
        split
        · exact Scene.isSome_of_isCompleted done
        · exact done
      listed := fun other x listed => .inr (by rwa [alike.waiters (by decide)])
      mild := fun other _ => .inl (alike.stage? (by decide) other)
      unapplied := fun _ => False.elim }
  refine takes_tidy _ orderly tidy (fun other => ?_) (fun other => ?_) (safe_of_stage fun other here => ?_)
  · rw [alike.slack (by decide)]; omega
  · rw [alike.slack (by decide)]; exact orderly.slack other
  · rwa [alike.stage? (by decide)] at here

/-- When a completed component forgets who waits for it, as many of their holds become free. -/
theorem takes_clear (orderly : Orderly p) {id : ComponentId} (done : p.scene.isCompleted id = true) :
    (Readying κ σ).Takes p.past
      (.change p.scene (p.scene.modify id fun c => { c with waiters := [] }))
      (Orderly (p.change (p.scene.modify id fun c => { c with waiters := [] })) ∧
        Advance (fun _ => False) (fun other => -((p.scene.waiters id).count other : Int)) p
          (p.change (p.scene.modify id fun c => { c with waiters := [] }))) := by
  have alike : p.scene.Alike [.waiters] (p.scene.modify id fun c => { c with waiters := [] }) :=
    (Act.Keeps.clearWaiters id p.scene).1
  have tidy : Tidy (fun _ => False) p.scene (p.scene.modify id fun c => { c with waiters := [] }) :=
    { node := alike.node
      completed := fun other done => by rwa [alike.isCompleted (by decide)]
      listed := fun other x listed => by
        rw [Scene.waiters_clear, alike.isCompleted (by decide)]
        split
        · next same => exact .inl (same ▸ done)
        · exact .inr listed
      mild := fun other _ => .inl (alike.stage? (by decide) other)
      unapplied := fun _ => False.elim }
  have slack (other) : (p.change (p.scene.modify id fun c => { c with waiters := [] })).slack other =
      p.slack other + (p.scene.waiters id).count other := by
    have fewer := Scene.waits_change (s := p.scene) (t := p.scene.modify id fun c => { c with waiters := [] }) id
      (fun y apart => by rw [Scene.waiters_clear, if_neg apart.symm]) other
    rw [Scene.waiters_clear, if_pos rfl, List.count_nil] at fewer
    rw [Point.slack_change, alike.holds (by decide), Point.slack]
    omega
  refine takes_tidy _ orderly tidy (fun other => ?_) (fun other => ?_) (safe_of_stage fun other here => ?_)
  · rw [slack]; omega
  · rw [slack]; have := orderly.slack other; omega
  · rwa [alike.stage? (by decide)] at here

end Readying

namespace Act.Keeps

/-- The waiters' holds that became free are dropped one by one. -/
theorem wp_releaseEach {p : Point κ σ} (orderly : Orderly p) (waiters : List ComponentId)
    (q : Point κ σ) (start : Orderly q)
    (advance : Advance (fun _ => False) (fun other => -(waiters.count other : Int)) p q) :
    (Act.each waiters fun waiter => Act.ask (.release waiter)).wp (Readying κ σ)
      (fun _ r => Orderly r ∧ Steady p r) q := by
  refine wp_each (fun rest r => Orderly r ∧
    Advance (fun _ => False) (fun other => -(rest.count other : Int)) p r) ?_ ?_ _ ⟨start, advance⟩
  · rintro waiter rest r ⟨ordered, advance⟩
    refine ⟨⟨ordered, fun id _ => ?_⟩, fun _ t after => ⟨trivial, fun _ => ?_⟩⟩
    · have before := orderly.slack id
      have gained := advance.slack id
      simp only [List.count_cons] at gained
      simp only [Call.cost]
      grind
    · have same := Point.same_answered t (.release waiter) r.world ()
      refine ⟨same.orderly after.1, ((advance.trans after.2).trans same.steady).relax ?_⟩
      intro other
      simp only [List.count_cons, Call.cost]
      grind
  · exact fun r kept => ⟨kept.1, kept.2.relax fun _ => by simp⟩

theorem tellWaiting (id : ComponentId) :
    (Act.tellWaiting id : Act κ _).Keeps fun p : Point κ σ => p.scene.isCompleted id = true := by
  refine bind (lasting_completed id) (withComponent fun c => ?_) fun _ p orderly done => ?_
  · refine of_calmly (.bind (.of_touches (F := [.whenReady]) (C := [])
      (.modify fun c => .put c .whenReady _ (by decide)) (by decide)) fun _ => ?_)
    exact .of_touches (.each _ fun _ => .hooked _ _ _ _) (by decide)
  · refine wp_withComponent (fun c found => ?_) fun _ => ⟨orderly, .refl p⟩
    refine (wp_modify_bind _ _ _).mpr ((Readying.takes_clear orderly done).imp fun next => ?_)
    have waiters : p.scene.waiters id = c.waiters := by rw [Scene.waiters, found]; rfl
    rw [waiters] at next
    exact wp_releaseEach orderly _ _ next.1 next.2

theorem complete (id : ComponentId) : (Act.complete id : Act κ _).Keeps
    fun p : Point κ σ => p.scene.Applied id ∧ Met id p := by
  refine withComponent fun c => mono (P := fun p => p.scene.Applied id ∧ Met id p) ?_ fun p here => here.2
  have lasting := lasting_met (κ := κ) (σ := σ) id
  refine ite (fun _ => ?_) (pure _)
  refine bind lasting scene fun s => bind lasting (of_touches (.noteMissing _ _) (by decide)) fun _ => ?_
  refine bind lasting (each lasting _ fun o => of_touches (.pushOwner o) (by decide)) fun _ => ?_
  refine bind lasting (of_touches (.pushFirst _) (by decide)) fun _ => ?_
  refine bind lasting (setStage id .ready rfl nofun (fun _ here => here.1) fun _ _ here => here.2) fun _ => ?_
  refine bind lasting (of_touches (.tellParts _ _) (by decide)) fun _ => ?_
  refine bind lasting (of_touches (.runHook _ _ _) (by decide)) fun _ => ?_
  refine bind lasting (mono (enter id) fun _ here => here.1) fun _ p orderly here => ?_
  refine (wp_modify_bind _ _ _).mpr ((Readying.takes_completed orderly id).imp fun next => ?_)
  have rest : (do runHook id "completed" Hooks.completed; Act.tellWaiting id : Act κ Unit).Keeps
      fun p : Point κ σ => p.scene.isCompleted id = true :=
    bind (lasting_completed id) (of_touches (.runHook _ _ _) (by decide)) fun _ => tellWaiting id
  have done : (p.scene.modify id fun c => { c with completed := true }).isCompleted id = true := by
    rw [Scene.isCompleted_mark, if_pos rfl]
    obtain ⟨stage, there, -⟩ := here.1
    obtain ⟨c, found, -⟩ := Option.map_eq_some_iff.mp there
    rw [found]
    rfl
  have ends := rest (p.change (p.scene.modify id fun c => { c with completed := true })) next.1 done
  exact wp_mono _ (fun _ q kept => ⟨kept.1, next.2.trans kept.2⟩) ends

end Act.Keeps

namespace Scene

theorem holds_modify (s : Scene κ) (id other : ComponentId) (f : Component κ → Component κ) :
    (s.modify id f).holds other = if id = other
      then ((s.component? other).map fun c => (f c).barrier.holds).getD 0 else s.holds other := by
  unfold holds
  rw [component?_modify]
  split
  · rw [Option.map_map]
    rfl
  · rfl

end Scene

namespace Act

theorem touches_drop (id : ComponentId) :
    (Act.modify id fun c : Component κ => { c with barrier := c.barrier.drop }).Touches [.barrier] [] :=
  .modify fun c => .put c .barrier _ (by decide)

/-- A hold that is dropped has to be there; with the last one the component completes. -/
theorem wp_release {p : Point κ σ} (orderly : Orderly p) (id : ComponentId)
    (afford : (p.scene.component? id).isSome → 1 ≤ p.slack id) :
    (Act.release id).wp (Readying κ σ)
      (fun _ q => Orderly q ∧ Advance (fun _ => False) (Call.release (κ := κ) id).cost p q) p := by
  refine wp_withComponent (fun c found => ?_) fun _ => ⟨orderly, (Advance.refl p).relax ?_⟩
  swap
  · intro other
    simp only [Call.cost]
    split <;> omega
  have alike : p.scene.Alike [.barrier]
      (p.scene.modify id fun c => { c with barrier := c.barrier.drop }) := (touches_drop id p.scene).1
  have enough : 1 ≤ p.slack id := afford (by rw [found]; rfl)
  have slack (other) : (p.change (p.scene.modify id fun c => { c with barrier := c.barrier.drop })).slack
      other + (if id = other ∧ 0 < c.barrier.holds then 1 else 0) = p.slack other := by
    have waits := Scene.waits_congr (alike.waiters (by decide)) other
    rw [Point.slack_change, Scene.holds_modify, waits, Point.slack]
    by_cases same : id = other
    · subst same
      rw [if_pos rfl, found, Scene.holds, found]
      simp only [Option.map_some, Option.getD_some, Barrier.drop, true_and]
      split <;> omega
    · rw [if_neg same, if_neg fun both => same both.1]
      omega
  have tidy : Tidy (fun _ => False) p.scene
      (p.scene.modify id fun c => { c with barrier := c.barrier.drop }) :=
    { node := alike.node
      completed := fun other done => by rwa [alike.isCompleted (by decide)]
      listed := fun other x listed => .inr (by rwa [alike.waiters (by decide)])
      mild := fun other _ => .inl (alike.stage? (by decide) other)
      unapplied := fun _ => False.elim }
  have taken := Readying.takes_tidy (Call.release (κ := κ) id).cost orderly tidy
    (fun other => by have := slack other; simp only [Call.cost]; grind)
    (fun other => by have := slack other; have := orderly.slack other; grind)
    (Readying.safe_of_stage fun other here => by rwa [alike.stage? (by decide)] at here)
  refine (wp_modify_bind _ _ _).mpr (taken.imp fun next => ?_)
  rw [wp_ite]
  split
  · next last =>
    simp only [Bool.and_eq_true, Barrier.clearsOnDrop, decide_eq_true_eq, beq_iff_eq] at last
    refine wp_mono _ (fun _ q kept => ⟨kept.1, (next.2.trans kept.2).relax ?_⟩)
      (Keeps.complete id _ next.1 ⟨⟨.expanded, ?_, rfl⟩, next.1.met ?_⟩)
    · exact fun other => by simp
    · rw [Point.scene_change, alike.stage? (by decide), Scene.stage?, found, Option.map_some, last.2]
    · rw [Point.scene_change, Scene.holds_modify, if_pos rfl, found]
      simp [Barrier.drop, last.1]
  · exact next

end Act
end LiveTree
