import LiveTree.Proofs.Readiness.Calm

/-! The contract by which components become ready from the bottom up, and what it says of the acts
that move a component on. -/
namespace LiveTree
variable {κ σ α β : Type}

def Met (id : ComponentId) (p : Point κ σ) : Prop :=
  ∀ u, History.expanded? p.past id = some u → ∀ other, u.Below id other →
    p.scene.isCompleted other = true

def Call.cost : Call κ → ComponentId → Int
  | .release id, other => if other = id then 1 else 0
  | _, _ => 0

def Readying (κ σ : Type) : Contract κ σ where
  given := Balanced
  safe past x := match x with
    | .change s t => ∀ id, s.stage? id ≠ some .ready → t.stage? id = some .ready →
      ∃ u, History.expanded? past id = some u ∧
        ∀ other, u.Below id other → s.isCompleted other = true
    | _ => True
  before c p := Orderly p ∧ ∀ id, (p.scene.component? id).isSome → c.cost id ≤ p.slack id
  after c p _ q := Orderly q ∧ Advance (fun _ => False) c.cost p q

theorem Orderly.slack_nonneg {p : Point κ σ} (orderly : Orderly p) {c : Call κ}
    (kind : c.kind ≠ .release) (id : ComponentId) : c.cost id ≤ p.slack id := by
  cases c <;> first | exact orderly.slack id | exact absurd rfl kind

theorem Call.cost_eq_zero {c : Call κ} (kind : c.kind ≠ .release) : c.cost = fun _ => 0 := by
  cases c <;> first | rfl | exact absurd rfl kind

namespace Scene.Alike
variable {F : List Field} {s t : Scene κ} {p : Point κ σ}

theorem stage? (alike : s.Alike F t) (out : ∀ f ∈ [Field.stage, .components], f ∉ F)
    (id : ComponentId) : t.stage? id = s.stage? id :=
  alike.map_component? (out _ (by decide)) _ (fun _ _ same => same.view .stage (out _ (by decide))) id

theorem waiters (alike : s.Alike F t) (out : ∀ f ∈ [Field.waiters, .components], f ∉ F)
    (id : ComponentId) : t.waiters id = s.waiters id :=
  congrArg (·.getD []) <| alike.map_component? (out _ (by decide)) Component.waiters
    (fun _ _ same => same.view .waiters (out _ (by decide))) id

theorem holds (alike : s.Alike F t) (out : ∀ f ∈ [Field.barrier, .components], f ∉ F)
    (id : ComponentId) : t.holds id = s.holds id :=
  congrArg (·.getD 0) <| alike.map_component? (out _ (by decide)) (fun c => c.barrier.holds)
    (fun _ _ same => congrArg Barrier.holds (same.view .barrier (out _ (by decide)))) id

theorem isCompleted (alike : s.Alike F t) (out : ∀ f ∈ [Field.completed, .components], f ∉ F)
    (id : ComponentId) : t.isCompleted id = s.isCompleted id := by
  have same := alike.map_component? (out _ (by decide)) Component.completed
    (fun _ _ same => same.view .completed (out _ (by decide))) id
  simpa only [Option.any_map, Scene.isCompleted] using congrArg (·.any fun b => b) same

theorem node (alike : s.Alike F t) (id : ComponentId) (c : Component κ)
    (found : s.component? id = some c) : ∃ d, t.component? id = some d ∧ d.node = c.node := by
  obtain ⟨d, there, same⟩ := alike.component id c found
  exact ⟨d, there, same.node⟩

theorem slack (alike : p.scene.Alike F t)
    (out : ∀ f ∈ [Field.barrier, .waiters, .components], f ∉ F) (id : ComponentId) :
    (p.change t).slack id = p.slack id := by
  have waits := Scene.waits_congr (alike.waiters fun f inside => out f (by grind)) id
  rw [Point.slack_change, alike.holds fun f inside => out f (by grind), waits, Point.slack]

end Scene.Alike

namespace Readying
variable {free : ComponentId → Prop} {owed : ComponentId → Int} {p q : Point κ σ} {t : Scene κ}

/-- No component becomes ready by a change. -/
theorem safe_of_stage {past : History κ σ} {s : Scene κ}
    (stage : ∀ id, t.stage? id = some .ready → s.stage? id = some .ready) :
    (Readying κ σ).safe past (.change s t) :=
  fun id before after => absurd (stage id after) before

theorem takes_tidy (owed : ComponentId → Int) (orderly : Orderly p) (tidy : Tidy free p.scene t)
    (slack : ∀ id, p.slack id ≤ (p.change t).slack id + owed id)
    (covered : ∀ id, 0 ≤ (p.change t).slack id)
    (safe : (Readying κ σ).safe p.past (.change p.scene t)) :
    (Readying κ σ).Takes p.past (.change p.scene t)
      (Orderly (p.change t) ∧ Advance free owed p (p.change t)) :=
  ⟨safe, fun _ => ⟨tidy.orderly orderly covered, tidy.advance slack⟩⟩

theorem takes_calm (orderly : Orderly p) (calm : Calm p.scene t) :
    (Readying κ σ).Takes p.past (.change p.scene t)
      (Orderly (p.change t) ∧ Steady p (p.change t)) := by
  refine takes_tidy _ orderly calm.tidy (fun id => ?_) (fun id => ?_) (safe_of_stage fun id here => ?_)
  · rw [calm.slack]; omega
  · rw [calm.slack]; exact orderly.slack id
  · rcases calm.stage? id with same | ⟨-, early⟩
    · rw [← same, here]
    · rw [here] at early; cases early

theorem wp_calmly {m : Act κ α} (calmly : m.Calmly) (orderly : Orderly p) :
    m.wp (Readying κ σ) (fun _ q => Orderly q ∧ Steady p q) p := by
  refine Act.wp_of_within (fun q t kept calm => ?_) (fun c q kept kind => ?_)
    ⟨orderly, Advance.refl p⟩ (calmly p.scene)
  · exact (takes_calm kept.1 calm).imp fun next => ⟨next.1, kept.2.trans next.2⟩
  · refine ⟨⟨kept.1, fun id _ => kept.1.slack_nonneg kind id⟩, fun a r after => ⟨trivial, fun _ => ?_⟩⟩
    have same := Point.same_answered r c q.world a
    refine ⟨same.orderly after.1, kept.2.trans (Steady.trans ?_ same.steady)⟩
    exact after.2.relax fun id => by rw [Call.cost_eq_zero kind]

end Readying

def Act.Keeps (P : Point κ σ → Prop) (m : Act κ α) : Prop :=
  ∀ p, Orderly p → P p → m.wp (Readying κ σ) (fun _ q => Orderly q ∧ Steady p q) p

def Lasting (P : Point κ σ → Prop) : Prop := ∀ p q, P p → Steady p q → P q

theorem lasting_true : Lasting fun _ : Point κ σ => True := fun _ _ _ _ => trivial

theorem lasting_applied (id : ComponentId) : Lasting fun p : Point κ σ => p.scene.Applied id :=
  fun _ _ here steady => (steady.applied id not_false here).1

theorem lasting_completed (id : ComponentId) :
    Lasting fun p : Point κ σ => p.scene.isCompleted id = true :=
  fun _ _ here steady => steady.completed id here

theorem lasting_met (id : ComponentId) :
    Lasting fun p : Point κ σ => p.scene.Applied id ∧ Met id p := by
  rintro p q ⟨applied, met⟩ steady
  obtain ⟨later, same⟩ := steady.applied id not_false applied
  exact ⟨later, fun u expanded other below =>
    steady.completed other (met u (same.symm.trans expanded) other below)⟩

namespace Act.Keeps
variable {P : Point κ σ → Prop}

theorem of_calmly {m : Act κ α} (calmly : m.Calmly) : m.Keeps P :=
  fun _ orderly _ => Readying.wp_calmly calmly orderly

theorem of_touches {F : List Field} {C : List Call.Kind} {m : Act κ α} (touches : m.Touches F C)
    (out : (∀ f ∈ [Field.stage, .barrier, .completed, .waiters, .components], f ∉ F) ∧
      .release ∉ C) : m.Keeps P := of_calmly (.of_touches touches out)

theorem mono {Q : Point κ σ → Prop} {m : Act κ α} (keeps : m.Keeps P) (weaker : ∀ p, Q p → P p) :
    m.Keeps Q := fun p orderly here => keeps p orderly (weaker p here)

theorem pure (a : α) : (Pure.pure a : Act κ α).Keeps P := fun p orderly _ => ⟨orderly, .refl p⟩

theorem scene : (scene : Act κ (Scene κ)).Keeps P := fun p orderly _ => ⟨orderly, .refl p⟩

theorem bind {m : Act κ β} {f : β → Act κ α} (lasting : Lasting P) (first : m.Keeps P)
    (second : ∀ b, (f b).Keeps P) : (m >>= f).Keeps P := fun p orderly here =>
  (wp_bind m f).mpr <| wp_mono m (fun b q kept =>
    wp_mono _ (fun _ _ more => ⟨more.1, kept.2.trans more.2⟩)
      (second b q kept.1 (lasting p q here kept.2))) (first p orderly here)

theorem each {f : β → Act κ Unit} (lasting : Lasting P) (items : List β)
    (body : ∀ b, (f b).Keeps P) : (each items f).Keeps P := by
  induction items with
  | nil => exact pure ()
  | cons b rest ih => exact bind lasting (body b) fun _ => ih

theorem ite {c : Prop} [Decidable c] {m n : Act κ α} (yes : c → m.Keeps P) (no : n.Keeps P) :
    (if c then m else n).Keeps P := by
  split
  · next here => exact yes here
  · exact no

/-- What is found of a component holds of the scene as long as nothing has happened. -/
theorem withComponent {id : ComponentId} {a : α} {f : Component κ → Act κ α}
    (body : ∀ c, (f c).Keeps fun p => p.scene.component? id = some c ∧ P p) :
    (withComponent id a f).Keeps P := fun p orderly here =>
  wp_withComponent (fun c found => body c p orderly ⟨found, here⟩) fun _ => ⟨orderly, .refl p⟩

theorem ask {c : Call κ} (kind : c.kind ≠ .release) : (ask c).Keeps P := fun p orderly _ => by
  refine ⟨⟨orderly, fun id _ => orderly.slack_nonneg kind id⟩, fun a q after => ⟨trivial, fun _ => ?_⟩⟩
  have same := Point.same_answered q c p.world a
  refine ⟨same.orderly after.1, Steady.trans ?_ same.steady⟩
  exact after.2.relax fun id => by rw [Call.cost_eq_zero kind]

/-- Where nothing has to be known in advance, parts can be put together. -/
theorem composes : Composes fun {_} (m : Act κ _) => m.Keeps fun _ : Point κ σ => True where
  pure := pure
  scene := scene
  bind := bind lasting_true

end Act.Keeps
end LiveTree
