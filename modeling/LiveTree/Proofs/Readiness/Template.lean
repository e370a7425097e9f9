import LiveTree.Proofs.Readiness.Acts

/-! The application of a template: from then on a component waits for all that lie below it. -/
namespace LiveTree
variable {κ σ : Type}

structure Adds (p q : Point κ σ) : Prop where
  node : ∀ id c, p.scene.component? id = some c →
    ∃ d, q.scene.component? id = some d ∧ d.node = c.node
  stage : ∀ id, q.scene.stage? id = p.scene.stage? id
  completed : ∀ id, q.scene.isCompleted id = p.scene.isCompleted id
  listed : ∀ id other, id ∈ p.scene.waiters other → id ∈ q.scene.waiters other
  slack : ∀ id, q.slack id = p.slack id
  held : ∀ id, History.held q.past id = History.held p.past id
  dropped : ∀ id, History.dropped q.past id = History.dropped p.past id
  expanded : ∀ id, History.expanded? q.past id = History.expanded? p.past id

namespace Adds
variable {p q r : Point κ σ}

theorem refl (p : Point κ σ) : Adds p p :=
  ⟨fun _ c found => ⟨c, found, rfl⟩, fun _ => rfl, fun _ => rfl, fun _ _ listed => listed,
    fun _ => rfl, fun _ => rfl, fun _ => rfl, fun _ => rfl⟩

theorem trans (first : Adds p q) (second : Adds q r) : Adds p r where
  node id c found := by
    obtain ⟨d, there, same⟩ := first.node id c found
    obtain ⟨e, later, same'⟩ := second.node id d there
    exact ⟨e, later, same'.trans same⟩
  stage id := (second.stage id).trans (first.stage id)
  completed id := (second.completed id).trans (first.completed id)
  listed id other before := second.listed id other (first.listed id other before)
  slack id := (second.slack id).trans (first.slack id)
  held id := (second.held id).trans (first.held id)
  dropped id := (second.dropped id).trans (first.dropped id)
  expanded id := (second.expanded id).trans (first.expanded id)

theorem steady (adds : Adds p q) : Steady p q where
  node := adds.node
  completed id done := (adds.completed id).trans done
  configured id _ here := (adds.stage id).trans here
  applied id _ here := by
    obtain ⟨stage, there, applied⟩ := here
    exact ⟨⟨stage, (adds.stage id).trans there, applied⟩, adds.expanded id⟩
  slack id := by rw [adds.slack]; omega

theorem isSome (adds : Adds p q) {id : ComponentId} (there : (p.scene.component? id).isSome = true) :
    (q.scene.component? id).isSome = true := by
  obtain ⟨c, found⟩ := Option.isSome_iff_exists.mp there
  obtain ⟨d, later, -⟩ := adds.node id c found
  rw [later]
  rfl

end Adds

namespace Scene

def addWaiter (s : Scene κ) (child id : ComponentId) : Scene κ :=
  s.modify child fun c => { c with waiters := c.waiters ++ [id] }

def addHold (s : Scene κ) (id : ComponentId) : Scene κ :=
  s.modify id fun c => { c with barrier := c.barrier.hold }

theorem alike_addWaiter (s : Scene κ) (child id : ComponentId) :
    s.Alike [.waiters] (s.addWaiter child id) :=
  .modify s child fun c => .put c .waiters _ (by decide)

theorem alike_addHold (s : Scene κ) (id : ComponentId) : s.Alike [.barrier] (s.addHold id) :=
  .modify s id fun c => .put c .barrier _ (by decide)

theorem waiters_addWaiter (s : Scene κ) (child id other : ComponentId) :
    (s.addWaiter child id).waiters other =
      if child = other ∧ (s.component? other).isSome then s.waiters other ++ [id]
      else s.waiters other := by
  unfold waiters addWaiter
  rw [component?_modify]
  by_cases same : child = other
  · rw [if_pos same]
    cases s.component? other <;> simp [same]
  · rw [if_neg same, if_neg fun both => same both.1]

theorem holds_addHold (s : Scene κ) (id other : ComponentId) : (s.addHold id).holds other =
    s.holds other + if id = other ∧ (s.component? other).isSome then 1 else 0 := by
  rw [addHold, holds_modify]
  by_cases same : id = other
  · rw [if_pos same, holds]
    cases s.component? other <;> simp [same, Barrier.hold]
  · rw [if_neg same, if_neg fun both => same both.1]
    rfl

end Scene

theorem Scene.componentAt?_spec {s : Scene κ} {x : NodeId} {id : ComponentId}
    (here : s.componentAt? x = some id) : ∃ c, s.component? id = some c ∧ c.node = x := by
  obtain ⟨i, found, rfl⟩ := Option.map_eq_some_iff.mp here
  obtain ⟨bound, same, -⟩ := Array.findIdx?_eq_some_iff_getElem.mp found
  exact ⟨_, Array.getElem?_eq_getElem bound, of_decide_eq_true same⟩

theorem Scene.component?_of_mem_componentsIn {s : Scene κ} {x : NodeId} {id : ComponentId}
    (inside : id ∈ s.componentsIn x) : ∃ c, s.component? id = some c := by
  obtain ⟨y, -, here⟩ := List.mem_filterMap.mp inside
  obtain ⟨c, found, -⟩ := componentAt?_spec here
  exact ⟨c, found⟩

/-- The new hold and the new waiter make up for each other. -/
theorem Point.slack_await (p : Point κ σ) {id child : ComponentId}
    (there : (p.scene.component? id).isSome = true) (here : (p.scene.component? child).isSome = true)
    (other : ComponentId) : ((p.change (p.scene.addWaiter child id)).change
      ((p.scene.addWaiter child id).addHold id)).slack other = p.slack other := by
  have first := p.scene.alike_addWaiter child id
  have second := (p.scene.addWaiter child id).alike_addHold id
  have still : ((p.scene.addWaiter child id).component? id).isSome = true := by
    obtain ⟨c, found⟩ := Option.isSome_iff_exists.mp there
    obtain ⟨d, found, -⟩ := first.node id c found
    rw [found]
    rfl
  have more := Scene.waits_change (s := p.scene) (t := p.scene.addWaiter child id) child
    (fun y apart => by rw [Scene.waiters_addWaiter, if_neg fun both => apart both.1.symm]) other
  rw [Scene.waiters_addWaiter, if_pos ⟨rfl, here⟩, List.count_append, List.count_singleton] at more
  rw [slack_change, dropped_change, held_change, Scene.waits_congr (second.waiters (by decide)),
    Scene.holds_addHold, first.holds (by decide), slack]
  by_cases same : id = other
  · subst same
    rw [if_pos ⟨rfl, still⟩]
    simp only [BEq.rfl, ↓reduceIte] at more
    omega
  · rw [if_neg fun both => same both.1]
    simp only [beq_iff_eq, same, ↓reduceIte] at more
    omega

namespace Act

theorem wp_await {p : Point κ σ} (id child : ComponentId)
    (there : (p.scene.component? id).isSome = true) : (Act.await id child).wp (Readying κ σ)
      (fun _ q => Adds p q ∧
        ((p.scene.component? child).isSome = true → id ∈ q.scene.waiters child)) p := by
  refine wp_withComponent (fun c found => ?_) fun out => ⟨.refl p, fun here => ?_⟩
  swap
  · rw [out] at here
    cases here
  rw [wp_ite]
  have waiters : p.scene.waiters child = c.waiters := by rw [Scene.waiters, found]; rfl
  split
  · have first := p.scene.alike_addWaiter child id
    have second := (p.scene.addWaiter child id).alike_addHold id
    have stage (o) : ((p.scene.addWaiter child id).addHold id).stage? o = p.scene.stage? o :=
      (second.stage? (by decide) o).trans (first.stage? (by decide) o)
    refine ⟨Readying.safe_of_stage fun o here => (first.stage? (by decide) o).symm.trans here,
      fun _ => ⟨Readying.safe_of_stage fun o here => (second.stage? (by decide) o).symm.trans here,
        fun _ => ⟨?_, fun _ => ?_⟩⟩⟩
    · refine {
        node := fun o c found => ?_
        stage := stage
        completed := fun o =>
          (second.isCompleted (by decide) o).trans (first.isCompleted (by decide) o)
        listed := fun o x listed => ?_
        slack := fun o => ?_
        held := fun o => (Point.held_change _ _ o).trans (Point.held_change _ _ o)
        dropped := fun o => (Point.dropped_change _ _ o).trans (Point.dropped_change _ _ o)
        expanded := fun o => ?_ }
      · obtain ⟨d, found, same⟩ := first.node o c found
        obtain ⟨e, found, same'⟩ := second.node o d found
        exact ⟨e, found, same'.trans same⟩
      · refine (second.waiters (by decide) x).symm ▸ ?_
        rw [Scene.waiters_addWaiter]
        split
        · exact List.mem_append_left _ listed
        · exact listed
      · exact p.slack_await there (by rw [found]; rfl) o
      · refine (Point.expanded?_change _ _ o fun here => ?_).trans (Point.expanded?_change _ _ o fun here => ?_)
        · exact (second.stage? (by decide) o).symm.trans here
        · exact (first.stage? (by decide) o).symm.trans here
    · refine (second.waiters (by decide) child).symm ▸ ?_
      rw [Scene.waiters_addWaiter, if_pos ⟨rfl, by rw [found]; rfl⟩]
      exact List.mem_append_right _ (List.mem_singleton.mpr rfl)
  · next listed =>
    refine ⟨.refl p, fun _ => ?_⟩
    rw [waiters]
    simpa using listed

/-- One component is made to wait for each of some others. -/
theorem wp_awaitEach {p : Point κ σ} (id : ComponentId) (nested : List ComponentId)
    (there : (p.scene.component? id).isSome = true)
    (inside : ∀ child ∈ nested, (p.scene.component? child).isSome = true) :
    (each nested (Act.await id)).wp (Readying κ σ)
      (fun _ q => Adds p q ∧ ∀ child ∈ nested, id ∈ q.scene.waiters child) p := by
  refine wp_each (fun rest q => Adds p q ∧
    (∀ child ∈ rest, child ∈ nested) ∧ ∀ child ∈ nested, child ∈ rest ∨ id ∈ q.scene.waiters child)
    ?_ ?_ nested ⟨.refl p, fun _ member => member, fun _ member => .inl member⟩
  · rintro child rest q ⟨adds, left, listed⟩
    refine wp_mono _ ?_ (wp_await id child (adds.isSome there))
    rintro _ r ⟨more, new⟩
    refine ⟨adds.trans more, fun o member => left o (List.mem_cons_of_mem _ member), fun o member => ?_⟩
    rcases listed o member with waiting | already
    · rcases List.mem_cons.mp waiting with rfl | later
      · exact .inr (new (adds.isSome (inside o (left o List.mem_cons_self))))
      · exact .inl later
    · exact .inr (more.listed id o already)
  · exact fun q ⟨adds, _, listed⟩ => ⟨adds, fun child member => (listed child member).resolve_left nofun⟩

end Act

structure OrderlyBut (id : ComponentId) (p : Point κ σ) : Prop where
  slack : ∀ other, 0 ≤ p.slack other
  fair : ∀ other, History.dropped p.past other ≤ History.held p.past other
  expanded : ∀ other, p.scene.Applied other → ∃ u, History.expanded? p.past other = some u
  waiting : ∀ other u, other ≠ id → History.expanded? p.past other = some u →
    ∀ x, u.Below other x → p.scene.isCompleted x = true ∨ other ∈ p.scene.waiters x

theorem OrderlyBut.orderly {id : ComponentId} {p q : Point κ σ} (but : OrderlyBut id p)
    (adds : Adds p q) (fresh : History.expanded? p.past id = some p.scene)
    (waits : ∀ other, p.scene.Below id other → p.scene.isCompleted other = true ∨
      id ∈ q.scene.waiters other) : Orderly q where
  slack other := by rw [adds.slack]; exact but.slack other
  fair other := by rw [adds.held, adds.dropped]; exact but.fair other
  expanded other here := by
    rw [adds.expanded]
    obtain ⟨stage, there, applied⟩ := here
    exact but.expanded other ⟨stage, (adds.stage other).symm.trans there, applied⟩
  waiting other u before x below := by
    rw [adds.expanded] at before
    rw [adds.completed]
    by_cases same : other = id
    · subst same
      cases before.symm.trans fresh
      exact waits x below
    · exact (but.waiting other u same before x below).imp_right (adds.listed other x)

namespace Act

/-- Whatever is not done below a component is waited for, before anything else happens. -/
theorem wp_awaitNested {p : Point κ σ} {id : ComponentId} {c : Component κ}
    (but : OrderlyBut id p) (fresh : History.expanded? p.past id = some p.scene)
    (found : p.scene.component? id = some c) :
    (Act.awaitNested id c.node).wp (Readying κ σ) (fun _ q => Orderly q ∧ Steady p q) p := by
  unfold Act.awaitNested
  simp only [wp_bind, wp_scene]
  have there : (p.scene.component? id).isSome = true := by rw [found]; rfl
  refine wp_mono _ ?_ (wp_awaitEach id _ there fun child member => ?_)
  · rintro _ q ⟨adds, listed⟩
    have orderly : Orderly q := but.orderly adds fresh fun other below => by
      obtain ⟨host, here, inside, apart⟩ := below
      cases found.symm.trans here
      obtain ⟨d, here⟩ := Scene.component?_of_mem_componentsIn inside
      cases done : d.completed with
      | true => exact .inl (by rw [Scene.isCompleted, here, Option.any_some, done])
      | false =>
        exact .inr (listed other (List.mem_filter.mpr ⟨inside, by simp [apart, here, done]⟩))
    exact wp_mono _ (fun _ r kept => ⟨kept.1, adds.steady.trans kept.2⟩)
      (Keeps.each lasting_true _ (fun child => Keeps.ask (c := .connect child)
        (show Call.Kind.connect ≠ .release by decide)) q orderly trivial)
  · have waiting := (List.mem_filter.mp member).2
    simp only [ne_eq, decide_not, Bool.and_eq_true] at waiting
    obtain ⟨d, here, -⟩ := (Option.any_eq_true ..).mp waiting.2
    rw [here]
    rfl

section Settle
variable {p : Point κ σ} {id : ComponentId} {c : Component κ} {F : List Field}
  {f : Component κ → Component κ}

theorem stage?_settle (p : Point κ σ) (id : ComponentId) (expanded : ∀ d, (f d).stage = .expanded) (other : ComponentId) :
    (p.scene.modify id f).stage? other =
      if id = other then (p.scene.stage? other).map fun _ => .expanded
      else p.scene.stage? other := by
  unfold Scene.stage?
  rw [Scene.component?_modify]
  split
  · rw [Option.map_map, Option.map_map]
    exact congrArg (Option.map · _) (funext fun d => expanded d)
  · rfl

theorem slack_settle (found : p.scene.component? id = some c)
    (alike : ∀ d : Component κ, d.Alike F (f d)) (held : ∀ d, (f d).barrier = d.barrier.hold)
    (out : ∀ g ∈ [Field.waiters, .components], g ∉ F) (other : ComponentId) :
    (p.change (p.scene.modify id f)).slack other = p.slack other + if other = id then 1 else 0 := by
  have waits := Scene.waits_congr ((Scene.Alike.modify p.scene id alike).waiters out) other
  rw [Point.slack_change, Scene.holds_modify, waits, Point.slack]
  by_cases same : id = other
  · subst same
    rw [if_pos rfl, if_pos rfl, found, Scene.holds, found]
    simp only [Option.map_some, Option.getD_some, held, Barrier.hold]
    omega
  · rw [if_neg same, if_neg (Ne.symm same)]
    omega

/-- A component whose template has just been applied holds itself, waits, and lets itself go. -/
theorem wp_settle (orderly : Orderly p) (found : p.scene.component? id = some c)
    (configured : p.scene.stage? id = some .configured)
    (alike : ∀ d : Component κ, d.Alike F (f d)) (expanded : ∀ d, (f d).stage = .expanded)
    (held : ∀ d, (f d).barrier = d.barrier.hold)
    (out : ∀ g ∈ [Field.completed, .waiters, .components], g ∉ F) :
    (Act.modify id f >>= fun _ => Act.awaitNested id c.node >>= fun _ => Act.ask (.release id)).wp
      (Readying κ σ) (fun _ q => Orderly q ∧ Advance (· = id) (fun _ => 0) p q) p := by
  have same : p.scene.Alike F (p.scene.modify id f) := .modify p.scene id alike
  have stage := stage?_settle p id expanded
  have slack := slack_settle found alike held fun g inside => out g (by grind)
  have here : (p.scene.modify id f).stage? id = some .expanded := by
    rw [stage, if_pos rfl, configured, Option.map_some]
  have fresh : History.expanded? (p.change (p.scene.modify id f)).past id =
      some (p.scene.modify id f) := by
    have new : (Step.change p.scene (p.scene.modify id f) : Step κ σ).expands? id =
        some (p.scene.modify id f) := if_pos ⟨by rw [configured]; decide, here⟩
    rw [Point.change, History.expanded?_append, new, Option.some_or]
  have old (o) (apart : o ≠ id) : History.expanded? (p.change (p.scene.modify id f)).past o =
      History.expanded? p.past o :=
    p.expanded?_change _ o fun later => by rwa [stage, if_neg apart.symm] at later
  have advance : Advance (· = id) (fun o => if o = id then -1 else 0) p
      (p.change (p.scene.modify id f)) :=
    { node := same.node
      completed := fun o done => by rwa [Point.scene_change, same.isCompleted (by grind)]
      configured := fun o apart there => by
        rwa [Point.scene_change, stage, if_neg (Ne.symm apart)]
      applied := by
        rintro o apart ⟨x, there, applied⟩
        exact ⟨⟨x, by rwa [Point.scene_change, stage, if_neg (Ne.symm apart)], applied⟩, old o apart⟩
      slack := fun o => by rw [slack]; split <;> omega }
  have but : OrderlyBut id (p.change (p.scene.modify id f)) :=
    { slack := fun o => by have := orderly.slack o; rw [slack]; split <;> omega
      fair := fun o => by rw [Point.held_change, Point.dropped_change]; exact orderly.fair o
      expanded := fun o applied => by
        by_cases own : o = id
        · rw [own]
          exact ⟨_, fresh⟩
        · obtain ⟨x, there, applied⟩ := applied
          rw [Point.scene_change, stage, if_neg (Ne.symm own)] at there
          rw [old o own]
          exact orderly.expanded o ⟨x, there, applied⟩
      waiting := fun o u apart before x below => by
        rw [old o apart] at before
        rw [Point.scene_change, same.isCompleted (by grind), same.waiters (by grind)]
        exact orderly.waiting o u before x below }
  refine (wp_modify_bind _ _ _).mpr ⟨Readying.safe_of_stage fun o ready => ?_, fun _ => ?_⟩
  · rw [stage] at ready
    split at ready
    · obtain ⟨_, _, wrong⟩ := Option.map_eq_some_iff.mp ready
      cases wrong
    · exact ready
  · have found' : (p.change (p.scene.modify id f)).scene.component? id = some (f c) := by
      rw [Point.scene_change, Scene.component?_modify, if_pos rfl, found, Option.map_some]
    have waited := wp_awaitNested but fresh found'
    rw [(alike c).node] at waited
    refine (wp_bind _ _).mpr (wp_mono _ ?_ waited)
    rintro _ q ⟨ordered, steady⟩
    have through := advance.trans (steady.mono (fun _ => False.elim) fun _ => Int.le_refl 0)
    refine ⟨⟨ordered, fun o _ => ?_⟩, fun _ r after => ⟨trivial, fun _ => ?_⟩⟩
    · have gained := through.slack o
      have before := orderly.slack o
      have slack := ordered.slack o
      simp only [Call.cost]
      grind
    · have quiet := Point.same_answered r (.release id) q.world ()
      refine ⟨quiet.orderly after.1, ?_⟩
      have rest := (after.2.trans quiet.steady).mono (F := (· = id)) (fun _ => False.elim)
        fun _ => Int.le_refl _
      refine (through.trans rest).relax fun o => ?_
      simp only [Call.cost]
      split <;> omega

end Settle

theorem wp_applyTemplate {p : Point κ σ} (orderly : Orderly p) (id : ComponentId) :
    (Act.applyTemplate id).wp (Readying κ σ)
      (fun _ q => Orderly q ∧ Advance (· = id) (fun _ => 0) p q) p := by
  refine wp_withComponent (fun c found => ?_) fun _ => ⟨orderly, .refl p⟩
  rw [wp_ite]
  split
  · next configured =>
    refine (wp_bind _ _).mpr (wp_scene.mpr ?_)
    refine (wp_bind _ _).mpr (wp_mono _ ?_ (Readying.wp_calmly (.expand id c _) orderly))
    rintro template q ⟨orderly, steady⟩
    refine (wp_bind _ _).mpr (wp_mono _ ?_ (Readying.wp_calmly (.of_touches (.layOut _ _) (by decide)) orderly))
    rintro ⟨layout, tree⟩ r ⟨orderly, more⟩
    have steady := steady.trans more
    dsimp -zeta only
    extract_lets settle
    have later (text) (x : Point κ σ) (orderly : Orderly x) (steady : Steady p x) :
        (settle text).wp (Readying κ σ)
          (fun _ q => Orderly q ∧ Advance (· = id) (fun _ => 0) p q) x := by
      obtain ⟨d, found', same⟩ := steady.node id c found
      have stage : p.scene.stage? id = some .configured := by
        rw [Scene.stage?, found, Option.map_some, configured]
      have settled := wp_settle orderly found' (steady.configured id not_false stage)
        (fun d => .applied d tree layout.refs layout.content text) (fun _ => rfl) (fun _ => rfl)
        (by decide)
      rw [same] at settled
      refine wp_mono _ (fun _ y kept => ⟨kept.1, ?_⟩) settled
      exact (Advance.trans (steady.mono (fun _ => False.elim) fun _ => Int.le_refl 0) kept.2).relax
        fun _ => by simp
    split
    · refine (wp_bind _ _).mpr (wp_mono _ ?_ (Readying.wp_calmly (.of_touches (.placeLight _ _ _) (by decide)) orderly))
      rintro text x ⟨orderly, more⟩
      exact later text x orderly (steady.trans more)
    · exact later "" r orderly steady
  · exact ⟨orderly, .refl p⟩

theorem wp_configure {p : Point κ σ} (orderly : Orderly p) (id : ComponentId) :
    (Act.configure id).wp (Readying κ σ)
      (fun _ q => Orderly q ∧ Advance (· = id) (fun _ => 0) p q) p := by
  refine wp_withComponent (fun c found => ?_) fun _ => ⟨orderly, .refl p⟩
  rw [wp_ite]
  split
  · refine (wp_bind _ _).mpr (wp_scene.mpr ?_)
    refine (wp_bind _ _).mpr (wp_mono _ ?_ (Readying.wp_calmly
      (.of_touches (.each _ fun _ => .configureAttribute _ _ _ _) (by decide)) orderly))
    rintro _ q ⟨orderly, steady⟩
    have alike : q.scene.Alike [.stage] (q.scene.modify id fun c => { c with stage := .configured }) :=
      (Touches.setStage id .configured q.scene).1
    have tidy : Tidy (· = id) q.scene (q.scene.modify id fun c => { c with stage := .configured }) :=
      { node := alike.node
        completed := fun o done => by rwa [alike.isCompleted (by decide)]
        listed := fun o x listed => .inr (by rwa [alike.waiters (by decide)])
        mild := fun o apart => .inl (by rw [Scene.stage?_setStage, if_neg (Ne.symm apart)])
        unapplied := fun o same ⟨x, there, applied⟩ => by
          rw [Scene.stage?_setStage, if_pos same.symm] at there
          obtain ⟨_, _, rfl⟩ := Option.map_eq_some_iff.mp there
          cases applied }
    have taken := Readying.takes_tidy (fun _ => 0) orderly tidy
      (fun o => by rw [alike.slack (by decide)]; omega)
      (fun o => by rw [alike.slack (by decide)]; exact orderly.slack o)
      (Readying.safe_of_stage fun o ready => by
        rw [Scene.stage?_setStage] at ready
        split at ready
        · obtain ⟨_, _, wrong⟩ := Option.map_eq_some_iff.mp ready
          cases wrong
        · exact ready)
    refine (wp_modify_bind _ _ _).mpr (taken.imp fun next => ?_)
    have rest : (do
        each c.schema.toList (Act.reflectDefault id c.node)
        Act.resolveContext id : Act κ Unit).Calmly :=
      .bind (.of_touches (.each _ fun _ => .reflectDefault _ _ _) (by decide)) fun _ =>
        .of_touches (.resolveContext id) (by decide)
    have ends := Readying.wp_calmly rest next.1
    refine wp_mono _ (fun _ r kept => ⟨kept.1, ?_⟩) ends
    have first := (steady.mono (fun _ => False.elim) fun _ => Int.le_refl 0).trans next.2
    exact (first.trans (kept.2.mono (fun _ => False.elim) fun _ => Int.le_refl 0)).relax fun _ => by simp
  · exact ⟨orderly, .refl p⟩

end Act

namespace Act.Keeps
variable {P : Point κ σ → Prop}

theorem connect (id : ComponentId) : (Act.connect id : Act κ _).Keeps P := by
  refine withComponent fun c => ?_
  split
  · next created =>
    refine fun p orderly here => ?_
    simp only [wp_bind, wp_scene, wp_ite]
    split
    · exact Readying.wp_calmly (.update fun _ _ => rfl) orderly
    · have early (o : ComponentId) (same : o = id) :
          p.scene.stage? o ≠ some .configured ∧ ¬p.scene.Applied o := by
        have stage : p.scene.stage? o = some .created := by
          rw [same, Scene.stage?, here.1, Option.map_some, created]
        constructor
        · rw [stage]
          decide
        · rintro ⟨x, there, applied⟩
          cases stage.symm.trans there
          cases applied
      refine wp_mono _ ?_ (wp_configure orderly id)
      rintro _ q ⟨ordered, advance⟩
      refine wp_mono _ ?_ (wp_applyTemplate ordered id)
      rintro _ r ⟨ends, more⟩
      exact ⟨ends, (advance.trans more).bind_free early⟩
  · next detached =>
    refine mono (attach id) fun p here => ?_
    exact ⟨.detached, by rw [Scene.stage?, here.1, Option.map_some, detached], rfl⟩
  · exact pure _

theorem appendChild (parent child : NodeId) : (Act.appendChild parent child : Act κ _).Keeps P :=
  mono (composes.appendChild (fun _ => detach _) connect parent child (of_calmly (.edit _)))
    fun _ _ => trivial

theorem removeChild (parent child : NodeId) : (Act.removeChild parent child : Act κ _).Keeps P :=
  mono (composes.removeChild (fun _ => detach _) (fun _ => of_calmly (.edit _)) parent child)
    fun _ _ => trivial

theorem finishLoading : (Act.finishLoading : Act κ _).Keeps P :=
  mono (composes.finishLoading connect (of_calmly (.update fun _ _ => rfl))
    (of_touches .resolveWaiting (by decide))) fun _ _ => trivial

theorem register (d : Definition κ) : (Act.register d).Keeps P :=
  mono (composes.register connect d (fun _ => of_touches (.note _ _) (by decide))
    (fun _ => of_calmly (.update fun _ _ => rfl)) (fun k => of_touches (.registered k) (by decide))
    fun _ _ _ => of_calmly (.instantiate _ _ _)) fun _ _ => trivial

end Act.Keeps
end LiveTree
