import LiveTree.Proofs.Readiness.Template

/-! Runs keep the order: the requests of consumer code, the calls, and scripts played from outside. -/
namespace LiveTree
variable {κ σ α : Type}

theorem Point.same_request (p : Point κ σ) (r : Request κ)
    (hold : ∀ id, (Step.request r p.scene : Step κ σ).holds id = false)
    (drop : ∀ id, (Step.request r p.scene : Step κ σ).drops id = false) : p.Same (p.request r) where
  scene := rfl
  held id := by rw [Point.request, History.held_append, hold]; rfl
  dropped id := by rw [Point.request, History.dropped_append, drop]; rfl
  expanded id := History.expanded?_append p.past _ id

namespace Act

theorem Keeps.request {P : Point κ σ → Prop} (r : Request κ) (other : ∀ id, r ≠ .release id)
    (apart : ∀ id, r ≠ .hold id) : r.act.Keeps P := by
  cases r with
  | hold id => exact absurd rfl (apart id)
  | release id => exact absurd rfl (other id)
  | register d => exact register d
  | createElement tag => exact of_calmly (.createElement tag)
  | appendChild parent child => exact appendChild parent child
  | removeChild parent child => exact removeChild parent child
  | finishLoading => exact finishLoading
  | _ =>
    refine of_touches (.request _) ?_
    dsimp only [Touches.requested, Touches.calling]
    decide

def heldBack (s : Scene κ) (id : ComponentId) : Scene κ :=
  s.modify id fun c => if c.completed then c else { c with barrier := c.barrier.hold }

/-- A hold from outside is counted and taken, or neither. -/
theorem wp_hold {p : Point κ σ} (orderly : Orderly p) (id : ComponentId) :
    (Act.hold id).wp (Readying κ σ) (fun _ q => Orderly q ∧ Steady p q) (p.request (.hold id)) := by
  have alike : p.scene.Alike [.barrier] (heldBack p.scene id) := (Touches.hold id p.scene).1
  have held (o) : History.held (p.request (.hold id)).past o = History.held p.past o +
      if id = o ∧ (p.scene.component? o).any (!·.completed) then 1 else 0 := by
    rw [Point.request, History.held_append]
    simp [Step.holds]
  have dropped (o) : History.dropped (p.request (.hold id)).past o = History.dropped p.past o :=
    History.dropped_append p.past _ o
  have slack (o) : ((p.request (.hold id)).change (heldBack p.scene id)).slack o = p.slack o := by
    have waits := Scene.waits_congr (alike.waiters (by decide)) o
    rw [Point.slack_change, waits, held, dropped, heldBack, Scene.holds_modify, Point.slack]
    by_cases same : id = o
    · subst same
      rw [if_pos rfl, Scene.holds]
      cases found : p.scene.component? id with
      | none => simp
      | some c => cases done : c.completed <;> simp [done, Barrier.hold]; omega
    · rw [if_neg same, if_neg fun both => same both.1]
      omega
  have stage (o) := alike.stage? (by decide) o
  have expanded (o) : History.expanded? ((p.request (.hold id)).change (heldBack p.scene id)).past o =
      History.expanded? p.past o := by
    refine (Point.expanded?_change (p.request (.hold id)) _ o ?_).trans ?_
    · exact fun here => (stage o).symm.trans here
    · exact History.expanded?_append p.past _ o
  change (Readying κ σ).Takes _ (.change p.scene (heldBack p.scene id))
    (Orderly ((p.request (.hold id)).change (heldBack p.scene id)) ∧
      Steady p ((p.request (.hold id)).change (heldBack p.scene id)))
  refine ⟨Readying.safe_of_stage fun o ready => (stage o).symm.trans ready, fun _ => ⟨?_, ?_⟩⟩
  swap
  · exact {
      node := alike.node
      completed := fun o done => by rwa [Point.scene_change, alike.isCompleted (by decide)]
      configured := fun o _ here => (stage o).trans here
      applied := by
        rintro o - ⟨x, there, applied⟩
        exact ⟨⟨x, (stage o).trans there, applied⟩, expanded o⟩
      slack := fun o => by rw [slack]; omega }
  refine ⟨fun o => ?_, fun o => ?_, fun o => ?_, fun o u => ?_⟩
  · rw [slack]
    exact orderly.slack o
  · rw [Point.held_change, Point.dropped_change, held, dropped]
    exact (orderly.fair o).trans (Nat.le_add_right _ _)
  all_goals rw [expanded]
  · rintro ⟨x, there, applied⟩
    exact orderly.expanded o ⟨x, (stage o).symm.trans there, applied⟩
  · rw [Point.scene_change]
    intro before x below
    rw [alike.isCompleted (by decide), alike.waiters (by decide)]
    exact orderly.waiting o u before x below

/-- A hold that is dropped from outside was put on from outside. -/
theorem wp_explicitRelease {p : Point κ σ} (orderly : Orderly p) (id : ComponentId)
    (fair : Balanced p.past (.request (.release id) p.scene : Step κ σ)) :
    (Act.ask (.release id)).wp (Readying κ σ) (fun _ q => Orderly q ∧ Steady p q)
      (p.request (.release id)) := by
  have held (o) : History.held (p.request (.release id)).past o = History.held p.past o :=
    History.held_append p.past _ o
  have dropped (o) : History.dropped (p.request (.release id)).past o =
      History.dropped p.past o + if id = o ∧ (p.scene.component? o).isSome then 1 else 0 := by
    rw [Point.request, History.dropped_append]
    simp only [Step.drops, Step.released?]
    grind
  have slack (o) : (p.request (.release id)).slack o =
      p.slack o + if id = o ∧ (p.scene.component? o).isSome then 1 else 0 := by
    rw [Point.slack, Point.slack, held, dropped, Point.scene_request]
    split <;> omega
  have expanded (o) :
      History.expanded? (p.request (.release id)).past o = History.expanded? p.past o :=
    History.expanded?_append p.past _ o
  have ordered : Orderly (p.request (.release id)) :=
    { slack := fun o => by have := orderly.slack o; rw [slack]; split <;> omega
      fair := fun o => by
        rw [held, dropped]
        split
        · next here =>
          obtain ⟨rfl, there⟩ := here
          exact fair _ (by rw [Step.released?, if_pos there]; rfl)
        · exact orderly.fair o
      expanded := fun o => by rw [expanded]; exact orderly.expanded o
      waiting := fun o => by rw [expanded]; exact orderly.waiting o }
  refine ⟨⟨ordered, fun o there => ?_⟩, fun a q after => ⟨trivial, fun _ => ?_⟩⟩
  · have before := orderly.slack o
    rw [slack]
    rw [Point.scene_request] at there
    simp only [Call.cost, there, and_true]
    grind
  · have same := Point.same_answered q (.release id) (p.request (.release id)).world a
    have ends := same.orderly after.1
    have rest := after.2.trans same.steady
    refine ⟨ends, rest.node, rest.completed, rest.configured, fun o free here => ?_, fun o => ?_⟩
    · rw [← expanded]
      exact rest.applied o free here
    · have used := rest.slack o
      have left := ends.slack o
      have fair := orderly.fair o
      rw [slack] at used
      simp only [Call.cost] at used
      cases found : p.scene.component? o with
      | none =>
        have none_held : p.scene.holds o = 0 := by rw [Scene.holds, found]; rfl
        rw [Point.slack, none_held]
        omega
      | some c =>
        simp only [found, Option.isSome_some, and_true] at used
        grind

end Act

/-- Whatever consumer code asks for leaves everything in order. -/
theorem Script.wp_orderly (m : Script κ σ α) {p : Point κ σ} (orderly : Orderly p) :
    m.wp (Readying κ σ) (fun _ q => Orderly q ∧ Steady p q) p := by
  refine wp_of_requests (I := fun q => Orderly q ∧ Steady p q) (fun q store kept => ?_) ?_ m
    ⟨orderly, .refl p⟩
  · have same := Point.same_keep q store
    exact ⟨same.orderly kept.1, kept.2.trans same.steady⟩
  refine fun r q kept => ⟨trivial, fun fair => ?_⟩
  refine Act.wp_mono (Q := fun _ s => Orderly s ∧ Steady q s) _
    (fun _ s ended => ⟨ended.1, kept.2.trans ended.2⟩) ?_
  by_cases drops : ∃ id, r = .release id
  · obtain ⟨id, rfl⟩ := drops
    exact Act.wp_explicitRelease kept.1 id fair
  by_cases holds : ∃ id, r = .hold id
  · obtain ⟨id, rfl⟩ := holds
    exact Act.wp_hold kept.1 id
  have same : q.Same (q.request r) := by
    refine q.same_request r (fun id => ?_) fun id => ?_ <;> cases r <;> first
      | rfl | exact absurd ⟨_, rfl⟩ holds | exact absurd ⟨_, rfl⟩ drops
  have keeps : r.act.Keeps fun _ : Point κ σ => True :=
    .request r (fun id here => drops ⟨id, here⟩) fun id here => holds ⟨id, here⟩
  exact Act.wp_mono _ (fun _ _ ended => ⟨ended.1, same.steady.trans ended.2⟩)
    (keeps _ (same.orderly kept.1) trivial)

/-- Every call keeps the order. -/
theorem Readying.meets (env : Environment κ σ) : env.Meets (Readying κ σ) := by
  rintro c p ⟨orderly, afford⟩
  have keeps {β : Type} {m : Act κ β} (kept : m.Keeps fun _ : Point κ σ => True)
      (kind : c.kind ≠ .release) :
      m.wp (Readying κ σ) (fun _ q => Orderly q ∧ Advance (fun _ => False) c.cost p q) p := by
    rw [Call.cost_eq_zero kind]
    exact kept p orderly trivial
  cases c with
  | write id name v origin => exact keeps (.of_touches (.write id name v origin) (by decide)) (by rintro ⟨⟩)
  | connect id => exact keeps (.connect id) (by rintro ⟨⟩)
  | release id =>
    exact Act.wp_release orderly id fun there => by simpa [Call.cost] using afford id there
  | service s id arguments => exact keeps (.of_touches (.service s id arguments) (by decide)) (by rintro ⟨⟩)
  | deliver x e => exact keeps (.of_touches (.deliver x e) (by decide)) (by rintro ⟨⟩)
  | callback k o => exact Script.wp_orderly _ orderly
  | apply f arguments =>
    have same := p.same_keep (env.apply f arguments p.world.store).2
    exact ⟨same.orderly orderly, same.steady⟩

end LiveTree
