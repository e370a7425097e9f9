import LiveTree.Proofs.Readiness.Order

/-! Calm acts: those that leave stages, holds and waiters of all components as they are, though they
may make new components. Most acts are calm by their footprints. -/
namespace LiveTree
variable {κ σ α β : Type}

structure Calm (s t : Scene κ) : Prop where
  kept : ∀ id c, s.component? id = some c → ∃ d, t.component? id = some d ∧ d.node = c.node ∧
    d.barrier = c.barrier ∧ d.completed = c.completed ∧ d.waiters = c.waiters ∧
    (d.stage = c.stage ∨ c.stage.isConfigured = false ∧ d.stage.isConfigured = false)
  fresh : ∀ id d, s.component? id = none → t.component? id = some d →
    d.barrier = {} ∧ d.completed = false ∧ d.waiters = [] ∧ d.stage.isConfigured = false

namespace Calm
variable {s t : Scene κ}

theorem of_alike {F : List Field} (alike : s.Alike F t)
    (out : ∀ f ∈ [Field.stage, .barrier, .completed, .waiters, .components], f ∉ F) : Calm s t where
  kept id c found := by
    obtain ⟨d, there, same⟩ := alike.component id c found
    exact ⟨d, there, same.node, same.view .barrier (out _ (by decide)),
      same.view .completed (out _ (by decide)), same.view .waiters (out _ (by decide)),
      .inl (same.view .stage (out _ (by decide)))⟩
  fresh id d missing found := by
    have size : t.components.size = s.components.size := alike.view .components (out _ (by decide))
    have bound : id.index < s.components.size :=
      size ▸ (Array.getElem?_eq_some_iff.mp found).1
    exact nomatch missing.symm.trans (Array.getElem?_eq_getElem bound)

theorem of_components (same : ∀ id, t.component? id = s.component? id) : Calm s t where
  kept id c found := ⟨c, (same id).trans found, rfl, rfl, rfl, rfl, .inl rfl⟩
  fresh id _ missing found := nomatch missing.symm.trans ((same id).symm.trans found)

/-- The making of a component that is not configured yet. -/
theorem of_push (s : Scene κ) {c : Component κ} (barrier : c.barrier = {})
    (completed : c.completed = false) (waiters : c.waiters = [])
    (early : c.stage.isConfigured = false) :
    Calm s { s with components := s.components.push c } where
  kept id d found := by
    obtain ⟨e, there, same⟩ := (Scene.Alike.push s c).component id d found
    exact ⟨e, there, same.node, same.view .barrier (by decide), same.view .completed (by decide),
      same.view .waiters (by decide), .inl (same.view .stage (by decide))⟩
  fresh id d missing found := by
    simp only [Scene.component?, Arena.get?_push] at missing found
    split at found
    · cases found
      exact ⟨barrier, completed, waiters, early⟩
    · cases missing.symm.trans found

theorem stage? (calm : Calm s t) (id : ComponentId) :
    t.stage? id = s.stage? id ∨
      ((s.stage? id).all (!·.isConfigured) = true ∧ (t.stage? id).all (!·.isConfigured) = true) := by
  unfold Scene.stage?
  cases here : s.component? id with
  | none =>
    cases there : t.component? id with
    | none => exact .inl rfl
    | some d => exact .inr ⟨rfl, by simp [(calm.fresh id d here there).2.2.2]⟩
  | some c =>
    obtain ⟨d, there, -, -, -, -, stage⟩ := calm.kept id c here
    rw [there]
    rcases stage with same | ⟨early, early'⟩
    · exact .inl (by simp [same])
    · exact .inr ⟨by simp [early], by simp [early']⟩

theorem isCompleted (calm : Calm s t) (id : ComponentId) : t.isCompleted id = s.isCompleted id := by
  unfold Scene.isCompleted
  cases here : s.component? id with
  | none =>
    cases there : t.component? id with
    | none => rfl
    | some d => simpa using (calm.fresh id d here there).2.1
  | some c =>
    obtain ⟨d, there, -, -, completed, -⟩ := calm.kept id c here
    simp [there, completed]

theorem waiters (calm : Calm s t) (id : ComponentId) : t.waiters id = s.waiters id := by
  unfold Scene.waiters
  cases here : s.component? id with
  | none =>
    cases there : t.component? id with
    | none => rfl
    | some d => simpa using (calm.fresh id d here there).2.2.1
  | some c =>
    obtain ⟨d, there, -, -, -, waiters, -⟩ := calm.kept id c here
    simp [there, waiters]

theorem holds (calm : Calm s t) (id : ComponentId) : t.holds id = s.holds id := by
  unfold Scene.holds
  cases here : s.component? id with
  | none =>
    cases there : t.component? id with
    | none => rfl
    | some d => simp [(calm.fresh id d here there).1]
  | some c =>
    obtain ⟨d, there, -, barrier, -⟩ := calm.kept id c here
    simp [there, barrier]

theorem tidy (calm : Calm s t) : Tidy (fun _ => False) s t where
  node id c found := by
    obtain ⟨d, there, node, -⟩ := calm.kept id c found
    exact ⟨d, there, node⟩
  completed id done := by rwa [calm.isCompleted]
  listed id other listed := .inr (by rwa [calm.waiters])
  mild id _ := (calm.stage? id).imp_right .inl
  unapplied _ := False.elim

theorem slack {p : Point κ σ} (calm : Calm p.scene t) (id : ComponentId) :
    (p.change t).slack id = p.slack id := by
  rw [Point.slack_change, calm.holds, Scene.waits_congr calm.waiters, Point.slack]

end Calm

def Act.Calmly (m : Act κ α) : Prop := ∀ s, m.Within Calm (fun c => c.kind ≠ .release) s

namespace Act.Calmly

theorem of_touches {F : List Field} {C : List Call.Kind} {m : Act κ α} (touches : m.Touches F C)
    (out : (∀ f ∈ [Field.stage, .barrier, .completed, .waiters, .components], f ∉ F) ∧
      .release ∉ C) : m.Calmly := fun s =>
  (touches s).mono (fun _ _ alike => .of_alike alike out.1) fun _ inside same => out.2 (same ▸ inside)

theorem bind {m : Act κ β} {f : β → Act κ α} (first : m.Calmly) (second : ∀ b, (f b).Calmly) :
    (m >>= f).Calmly := fun s => (first s).bind fun b t => second b t

theorem pure (a : α) : (Pure.pure a : Act κ α).Calmly := fun _ => trivial

theorem scene : (scene : Act κ (Scene κ)).Calmly := fun _ => trivial

theorem update {f : Scene κ → Scene κ}
    (same : ∀ (s : Scene κ) id, (f s).component? id = s.component? id ) :
    (Act.update f).Calmly := fun s => ⟨.of_components (same s), trivial⟩

theorem edit (f : Document → Document) : (Act.edit f : Act κ Unit).Calmly :=
  update fun _ _ => rfl

theorem instantiate (x : NodeId) (d : Definition κ) (owner : Option ComponentId) :
    (Act.instantiate x d owner : Act κ _).Calmly := by
  refine fun s => ⟨.of_push s rfl rfl rfl rfl, ?_, ?_⟩
  · refine ⟨fun id c found => ?_, fun id c missing found => ?_⟩
    · rw [Scene.component?_modify]
      split
      · next here =>
        subst here
        rw [found]
        simp only [Scene.component?, Arena.get?_push, ↓reduceIte, Option.some.injEq] at found
        subst found
        exact ⟨_, rfl, rfl, rfl, rfl, rfl, .inr ⟨rfl, rfl⟩⟩
      · exact ⟨c, found, rfl, rfl, rfl, rfl, .inl rfl⟩
    · rw [Scene.component?_modify] at found
      split at found <;> rw [missing] at found <;> cases found
  · exact bind (of_touches (.tellParts _ _) (by decide)) (fun _ =>
      bind (of_touches (.runHook _ _ _) (by decide)) fun _ => pure _) _

theorem composes : Composes fun {_} (m : Act κ _) => m.Calmly where
  pure := pure
  scene := scene
  bind := bind

theorem createElement (tag : String) : (Act.createElement tag : Act κ _).Calmly :=
  composes.createElement (fun _ => edit _) instantiate tag

theorem expand (id : ComponentId) (c : Component κ) (light : List NodeId) :
    (Act.expand id c light).Calmly := by
  have text (text : String) : (Act.createText text : Act κ _).Calmly :=
    of_touches (.createText text) (by decide)
  have noted (id : ComponentId) (fault : Fault) : (Act.note (some id) fault : Act κ _).Calmly :=
    of_touches (.note _ _) (by decide)
  have grown := composes.growBelow (fun f _ => edit f) text createElement
  have templated := composes.growTemplate (fun _ => update fun _ _ => rfl) grown
  exact composes.expand (fun f _ => edit f) noted templated id c light

end Act.Calmly
end LiveTree
