import LiveTree.Proofs.Readiness.Ledger

/-! The order that all acts keep: holds cover what a component waits for, and a component waits for
all that lay below its node when its template was applied, until it is completed. What a call may
change at most is told by `Advance`; a component is never thrown back by calls that begin after it
was configured. -/
namespace LiveTree
variable {κ σ : Type}

namespace Stage

def isApplied : Stage → Bool
  | .expanded | .ready | .attached | .detached => true
  | _ => false

/-- A change of stage that does not throw a component back, and is not the application of its
template. A missing component has no stage yet. -/
def Mild (a b : Option Stage) : Prop :=
  b = a ∨ (a.all (!·.isConfigured) = true ∧ b.all (!·.isConfigured) = true) ∨
    ((∃ x, a = some x ∧ x.isApplied = true) ∧ ∃ y, b = some y ∧ y.isApplied = true ∧ y ≠ .expanded)

end Stage

namespace Scene

def Applied (s : Scene κ) (id : ComponentId) : Prop :=
  ∃ stage, s.stage? id = some stage ∧ stage.isApplied = true

def Below (s : Scene κ) (id other : ComponentId) : Prop :=
  ∃ host, s.component? id = some host ∧ other ∈ s.componentsIn host.node ∧ other ≠ id

end Scene

structure Orderly (p : Point κ σ) : Prop where
  slack : ∀ id, 0 ≤ p.slack id
  fair : ∀ id, History.dropped p.past id ≤ History.held p.past id
  expanded : ∀ id, p.scene.Applied id → ∃ u, History.expanded? p.past id = some u
  waiting : ∀ id u, History.expanded? p.past id = some u → ∀ other, u.Below id other →
    p.scene.isCompleted other = true ∨ id ∈ p.scene.waiters other

/-- From one point to a later one no component is gone or undone, and none but the free ones is
thrown back; of the slack no more is used up than is owed. -/
structure Advance (free : ComponentId → Prop) (owed : ComponentId → Int) (p q : Point κ σ) :
    Prop where
  node : ∀ id c, p.scene.component? id = some c →
    ∃ d, q.scene.component? id = some d ∧ d.node = c.node
  completed : ∀ id, p.scene.isCompleted id = true → q.scene.isCompleted id = true
  configured : ∀ id, ¬free id → p.scene.stage? id = some .configured →
    q.scene.stage? id = some .configured
  applied : ∀ id, ¬free id → p.scene.Applied id →
    q.scene.Applied id ∧ History.expanded? q.past id = History.expanded? p.past id
  slack : ∀ id, p.slack id ≤ q.slack id + owed id

abbrev Steady (p q : Point κ σ) : Prop := Advance (fun _ => False) (fun _ => 0) p q

namespace Advance
variable {free : ComponentId → Prop} {owed debt : ComponentId → Int} {p q r : Point κ σ}

theorem refl (p : Point κ σ) : Advance free (fun _ => 0) p p where
  node _ c found := ⟨c, found, rfl⟩
  completed _ done := done
  configured _ _ here := here
  applied _ _ here := ⟨here, rfl⟩
  slack _ := by omega

theorem trans (first : Advance free owed p q) (second : Advance free debt q r) :
    Advance free (fun id => owed id + debt id) p r where
  node id c found := by
    obtain ⟨d, there, same⟩ := first.node id c found
    obtain ⟨e, later, same'⟩ := second.node id d there
    exact ⟨e, later, same'.trans same⟩
  completed id done := second.completed id (first.completed id done)
  configured id bound here := second.configured id bound (first.configured id bound here)
  applied id bound here := by
    obtain ⟨there, same⟩ := first.applied id bound here
    obtain ⟨later, same'⟩ := second.applied id bound there
    exact ⟨later, same'.trans same⟩
  slack id := by
    have one := first.slack id
    have two := second.slack id
    omega

theorem mono {F : ComponentId → Prop} (advance : Advance free owed p q)
    (wider : ∀ id, free id → F id) (more : ∀ id, owed id ≤ debt id) :
    Advance F debt p q where
  node := advance.node
  completed := advance.completed
  configured id bound := advance.configured id fun inside => bound (wider id inside)
  applied id bound := advance.applied id fun inside => bound (wider id inside)
  slack id := (advance.slack id).trans (by have := more id; omega)

theorem relax (advance : Advance free owed p q) (more : ∀ id, owed id ≤ debt id) :
    Advance free debt p q := advance.mono (fun _ inside => inside) more

/-- Freedom is of no use to components that had not come so far. -/
theorem bind_free (advance : Advance free owed p q)
    (early : ∀ id, free id → p.scene.stage? id ≠ some .configured ∧ ¬p.scene.Applied id) :
    Advance (fun _ => False) owed p q where
  node := advance.node
  completed := advance.completed
  configured id _ here := advance.configured id (fun inside => (early id inside).1 here) here
  applied id _ here := advance.applied id (fun inside => (early id inside).2 here) here
  slack := advance.slack

end Advance

namespace Steady
variable {p q r : Point κ σ}

theorem trans (first : Steady p q) (second : Steady q r) : Steady p r :=
  (Advance.trans first second).relax fun _ => by simp

end Steady

namespace Point
variable {p q : Point κ σ}

structure Same (p q : Point κ σ) : Prop where
  scene : q.scene = p.scene
  held : ∀ id, History.held q.past id = History.held p.past id
  dropped : ∀ id, History.dropped q.past id = History.dropped p.past id
  expanded : ∀ id, History.expanded? q.past id = History.expanded? p.past id

theorem Same.slack (same : p.Same q) (id : ComponentId) : q.slack id = p.slack id := by
  rw [Point.slack, Point.slack, same.scene, same.held, same.dropped]

theorem Same.steady (same : p.Same q) : Steady p q where
  node _ c found := ⟨c, by rw [same.scene, found], rfl⟩
  completed _ done := by rw [same.scene, done]
  configured _ _ here := by rw [same.scene, here]
  applied id _ here := ⟨by rwa [same.scene], same.expanded id⟩
  slack id := by rw [same.slack]; omega

theorem Same.orderly (same : p.Same q) (orderly : Orderly p) : Orderly q where
  slack id := by rw [same.slack]; exact orderly.slack id
  fair id := by rw [same.held, same.dropped]; exact orderly.fair id
  expanded id := by rw [same.scene, same.expanded]; exact orderly.expanded id
  waiting id := by rw [same.scene, same.expanded]; exact orderly.waiting id

theorem same_answered (p : Point κ σ) (c : Call κ) (w : World κ σ) (a : c.Answer) :
    p.Same (p.answered c w a) where
  scene := rfl
  held id := History.held_append p.past _ id
  dropped id := History.dropped_append p.past _ id
  expanded id := History.expanded?_append p.past _ id

theorem same_keep (p : Point κ σ) (store : σ) : p.Same (p.keep store) :=
  ⟨rfl, fun _ => rfl, fun _ => rfl, fun _ => rfl⟩

@[simp] theorem held_change (p : Point κ σ) (t : Scene κ) (id : ComponentId) :
    History.held (p.change t).past id = History.held p.past id := History.held_append p.past _ id

@[simp] theorem dropped_change (p : Point κ σ) (t : Scene κ) (id : ComponentId) :
    History.dropped (p.change t).past id = History.dropped p.past id :=
  History.dropped_append p.past _ id

theorem slack_change (p : Point κ σ) (t : Scene κ) (id : ComponentId) : (p.change t).slack id =
    t.holds id + History.dropped p.past id - t.waits id - History.held p.past id := by
  rw [slack, held_change, dropped_change, scene_change]

theorem expanded?_change (p : Point κ σ) (t : Scene κ) (id : ComponentId)
    (plain : t.stage? id = some .expanded → p.scene.stage? id = some .expanded) :
    History.expanded? (p.change t).past id = History.expanded? p.past id := by
  have none_new : (Step.change p.scene t : Step κ σ).expands? id = none :=
    if_neg fun new => new.1 (plain new.2)
  rw [Point.change, History.expanded?_append, none_new, Option.none_or]

end Point

structure Tidy (free : ComponentId → Prop) (s t : Scene κ) : Prop where
  node : ∀ id c, s.component? id = some c → ∃ d, t.component? id = some d ∧ d.node = c.node
  completed : ∀ id, s.isCompleted id = true → t.isCompleted id = true
  listed : ∀ id other, id ∈ s.waiters other → t.isCompleted other = true ∨ id ∈ t.waiters other
  mild : ∀ id, ¬free id → Stage.Mild (s.stage? id) (t.stage? id)
  unapplied : ∀ id, free id → ¬t.Applied id

namespace Tidy
variable {free : ComponentId → Prop} {owed : ComponentId → Int} {p : Point κ σ} {t : Scene κ}

theorem plain (tidy : Tidy free p.scene t) (id : ComponentId)
    (here : t.stage? id = some .expanded) : p.scene.stage? id = some .expanded := by
  by_cases inside : free id
  · exact absurd ⟨_, here, rfl⟩ (tidy.unapplied id inside)
  · rcases tidy.mild id inside with same | ⟨-, early⟩ | ⟨-, y, there, -, other⟩
    · rw [← same, here]
    · rw [here] at early; cases early
    · rw [here] at there
      exact absurd (Option.some.inj there).symm other

theorem applied (tidy : Tidy free p.scene t) (id : ComponentId) (here : t.Applied id) :
    p.scene.Applied id := by
  by_cases inside : free id
  · exact absurd here (tidy.unapplied id inside)
  · obtain ⟨stage, there, applied⟩ := here
    rcases tidy.mild id inside with same | ⟨-, early⟩ | ⟨late, -⟩
    · exact ⟨stage, by rw [← same, there], applied⟩
    · rw [there] at early
      cases stage <;> simp [Stage.isApplied, Stage.isConfigured] at applied early
    · exact late

theorem advance (tidy : Tidy free p.scene t)
    (slack : ∀ id, p.slack id ≤ (p.change t).slack id + owed id) :
    Advance free owed p (p.change t) where
  node := tidy.node
  completed := tidy.completed
  configured id bound here := by
    rcases tidy.mild id bound with same | ⟨early, -⟩ | ⟨⟨x, there, applied⟩, -⟩
    · exact same.trans here
    · rw [here] at early; cases early
    · rw [here] at there; cases there; cases applied
  applied id bound here := by
    refine ⟨?_, p.expanded?_change t id (tidy.plain id)⟩
    obtain ⟨stage, there, applied⟩ := here
    rcases tidy.mild id bound with same | ⟨early, -⟩ | ⟨-, y, later, applied', -⟩
    · exact ⟨stage, same.trans there, applied⟩
    · rw [there] at early
      cases stage <;> simp [Stage.isApplied, Stage.isConfigured] at applied early
    · exact ⟨y, later, applied'⟩
  slack := slack

theorem orderly (tidy : Tidy free p.scene t) (orderly : Orderly p)
    (slack : ∀ id, 0 ≤ (p.change t).slack id) : Orderly (p.change t) where
  slack := slack
  fair id := by rw [Point.held_change, Point.dropped_change]; exact orderly.fair id
  expanded id here := by
    rw [p.expanded?_change t id (tidy.plain id)]
    exact orderly.expanded id (tidy.applied id here)
  waiting id u before other below := by
    rw [p.expanded?_change t id (tidy.plain id)] at before
    rcases orderly.waiting id u before other below with done | listed
    · exact .inl (tidy.completed other done)
    · exact tidy.listed id other listed

end Tidy
end LiveTree
