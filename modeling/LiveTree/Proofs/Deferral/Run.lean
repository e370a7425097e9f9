import LiveTree.Proofs.Deferral.Acts

/-! Runs keep the books on deferred callbacks: registration and extension of types, the requests of
consumer code, and scripts played from outside. -/
namespace LiveTree.Deferring
open Act
variable {κ σ α : Type} [DecidableEq κ] {id : ComponentId} {k : κ} {p q : Point κ σ}

theorem takes_define (accounted : Accounted id k p) {d : Definition κ} (spares : d.Spares k)
    {t : Scene κ} (types : t.definitions = p.scene.definitions.insert d.tag d)
    (components : t.components = p.scene.components) :
    (Deferring κ σ id k).Takes p.past (.change p.scene t) p (p.change t) := by
  have same (other) : t.component? other = p.scene.component? other := by
    rw [Scene.component?, components, Scene.component?]
  refine takes_change accounted ⟨?_, ?_⟩ ?_ ?_
  · intro key e found
    rw [types] at found
    by_cases here : key = d.tag
    · rw [here, Keyed.get?_insert_self] at found
      cases found
      exact spares
    · rw [Keyed.get?_insert_of_ne _ _ here] at found
      exact accounted.spares.types key e found
  · intro other c found
    rw [same] at found
    exact accounted.spares.components other c found
  · rw [Scene.isCompleted, same, Scene.isCompleted]
  · rw [Scene.queued, same, Scene.queued]

theorem register {d : Definition κ} (spares : d.Spares k) :
    (Act.register d).Obeys (Deferring κ σ id k) := by
  have composed (cs : List (Capability κ)) : (d.compose cs).Spares k :=
    spares.of_core (d.core_compose cs)
  refine Obeys.composes.register connect d ?_ ?_ ?_ fun x cs owner => instantiate x (composed cs) owner
  · exact fun _ => .of_touches watches (.note_none _) (by decide)
  · exact fun cs => .update fun p accounted => takes_define accounted (composed cs) rfl rfl
  · exact fun _ => .of_touches watches (.registered _) (by decide)

theorem addCapability (tag : String) (c : Capability κ) :
    (Act.addCapability tag c).Obeys (Deferring κ σ id k) := by
  intro p accounted
  refine (wp_bind _ _).mpr (wp_scene.mpr ?_)
  split
  · exact Obeys.pure _ p accounted
  next d added =>
  obtain ⟨old, found, extended⟩ := Option.bind_eq_some_iff.mp added
  obtain ⟨-, rfl⟩ := Definition.add?_eq_some extended
  have spares : (old.take c).Spares k :=
    (accounted.spares.types _ old found).of_core (old.core_take c)
  have adopting (ids : List ComponentId) : (do
      each ids fun other => modify other (·.adopt (old.take c) c)
      return true : Act κ Bool).Obeys (Deferring κ σ id k) := by
    refine .bind (Obeys.composes.each ids fun other => .update fun q accounted => ?_) fun _ => .pure _
    have alike := Scene.Alike.modify q.scene other fun i => .adopt i (old.take c) c
    exact takes_alike accounted (accounted.spares.modify fun _ _ => spares) alike (by decide)
  have defined := takes_define accounted spares (t := { p.scene with
    definitions := p.scene.definitions.insert (old.take c).tag (old.take c) }) rfl rfl
  refine (wp_bind _ _).mpr (defined.imp fun kept => ?_)
  exact (adopting _).after kept.1 kept.2

theorem entrusts_eq_false {r : Request κ} (other : r ≠ .whenReady id k) (s : Scene κ) :
    (Step.request r s : Step κ σ).entrusts id k = false := by
  unfold Step.entrusts
  split
  · next whose l _ same =>
    cases same
    have apart : ¬(whose = id ∧ l = k) := fun both => other (both.1 ▸ both.2 ▸ rfl)
    grind
  · rfl

theorem due_request (id : ComponentId) (k : κ) (p : Point κ σ) (r : Request κ) :
    (p.request r).due id k =
      p.due id k + if (Step.request r p.scene : Step κ σ).entrusts id k then 1 else 0 := by
  have given := History.entrusted_append id k p.past (.request r p.scene)
  have done : (p.request r).past.invoked id k = p.past.invoked id k :=
    History.invoked_append id k p.past _
  rw [Point.due, done, Point.request, given, Point.due]
  change _ - _ - ((p.scene.queued id k : Nat) : Int) = _
  push_cast
  split <;> omega

/-- A request that does not give the callback changes nothing by being made. -/
theorem accounted_request (accounted : Accounted id k p) {r : Request κ}
    (other : r ≠ .whenReady id k) :
    Accounted id k (p.request r) ∧ Owing id k 0 p (p.request r) := by
  have due : (p.request r).due id k = p.due id k := by
    rw [due_request, entrusts_eq_false other]
    exact Int.add_zero _
  have done : (p.request r).past.invoked id k = p.past.invoked id k :=
    History.invoked_append id k p.past _
  refine ⟨⟨accounted.spares, ?_, ?_⟩, ?_, fun cleared => cleared, fun finished => finished⟩
  · rw [due]
    exact accounted.early
  · rw [done]
    exact accounted.late
  · rw [due, Int.add_zero]

theorem whenReady {other : ComponentId} {l : κ} (apart : ¬(l = k ∧ other = id)) :
    (Act.whenReady other l).Obeys (Deferring κ σ id k) := by
  refine .withComponent fun p c accounted found => ?_
  rw [wp_ite]
  split
  · exact hooked other _ apart p accounted
  by_cases same : other = id
  · subst same
    have alike : p.scene.Alike [.whenReady] (p.scene.modify other fun c =>
        { c with whenReady := c.whenReady ++ [l] }) :=
      .modify p.scene other fun c => .put c .whenReady _ (by decide)
    refine takes_change accounted (alike.spares (by decide) accounted.spares)
      (alike.isCompleted (by decide) other) ?_
    rw [Scene.queued, Scene.component?_modify, if_pos rfl, found, Scene.queued, found]
    simp only [Option.map_some, Option.getD_some, List.count_append]
    rw [List.count_singleton]
    grind
  · exact takes_modify accounted same fun _ => rfl

/-- A callback that is given before the component is completed and put into its queue. -/
theorem accounted_enqueue (accounted : Accounted id k p) {c : Component κ}
    (found : p.scene.component? id = some c) (early : c.completed = false) :
    Accounted id k ((p.request (.whenReady id k)).change
        (p.scene.modify id fun c => { c with whenReady := c.whenReady ++ [k] })) ∧
      Owing id k 0 p ((p.request (.whenReady id k)).change
        (p.scene.modify id fun c => { c with whenReady := c.whenReady ++ [k] })) := by
  have alike : p.scene.Alike [.whenReady]
      (p.scene.modify id fun c => { c with whenReady := c.whenReady ++ [k] }) :=
    .modify p.scene id fun c => .put c .whenReady _ (by decide)
  have before : p.scene.isCompleted id = false := by
    rw [Scene.isCompleted, found]
    exact early
  have still := (alike.isCompleted (by decide) id).trans before
  have more : (p.scene.modify id fun c => { c with whenReady := c.whenReady ++ [k] }).queued id k =
      p.scene.queued id k + 1 := by
    rw [Scene.queued, Scene.component?_modify, if_pos rfl, found, Scene.queued, found]
    simp [List.count_append]
  have given : (p.request (.whenReady id k)).due id k = p.due id k + 1 := by
    rw [due_request]
    simp [Step.entrusts, found]
  have same := due_change id k (p.request (.whenReady id k))
    (p.scene.modify id fun c => { c with whenReady := c.whenReady ++ [k] })
  rw [given, more, Point.scene_request] at same
  have none_more := (History.invoked_append id k (p.request (.whenReady id k)).past (.change p.scene
    (p.scene.modify id fun c => { c with whenReady := c.whenReady ++ [k] }))).trans
      (History.invoked_append id k p.past (.request (.whenReady id k) p.scene))
  refine ⟨⟨alike.spares (by decide) accounted.spares, fun _ => ?_, fun late => ?_⟩, ?_, ?_, ?_⟩
  · have none_due := accounted.early before
    omega
  · have finished := accounted.late (lt_of_lt_of_eq late none_more)
    exact absurd finished (Bool.eq_false_iff.mp before)
  · omega
  · intro _ finished
    exact absurd finished (Bool.eq_false_iff.mp still)
  · intro finished
    exact absurd finished (Bool.eq_false_iff.mp before)

/-- A callback that is given either runs at once or is queued. -/
theorem wp_whenReady (accounted : Accounted id k p) :
    (Act.whenReady id k).wp (Deferring κ σ id k).contract
      (fun _ q => Accounted id k q ∧ Owing id k 0 p q) (p.request (.whenReady id k)) := by
  have due := due_request id k p (.whenReady id k)
  cases there : p.scene.component? id with
  | none =>
    have done := History.invoked_append id k p.past (.request (.whenReady id k) p.scene)
    rw [show (Step.request (.whenReady id k) p.scene : Step κ σ).entrusts id k = false by
      simp [Step.entrusts, there]] at due
    refine wp_withComponent_none there ⟨⟨accounted.spares, fun early => ?_, fun late => ?_⟩, due,
      fun cleared => cleared, fun finished => finished⟩
    · exact due.trans ((Int.add_zero _).trans (accounted.early early))
    · exact accounted.late (lt_of_lt_of_eq late done)
  | some c =>
    refine wp_withComponent (fun d found => ?_) fun missing => (by cases there.symm.trans missing)
    cases there.symm.trans found
    rw [show (Step.request (.whenReady id k) p.scene : Step κ σ).entrusts id k = true by
      simp [Step.entrusts, there]] at due
    rw [wp_ite]
    split
    · next completed =>
      have finished : p.scene.isCompleted id = true := by
        rw [Scene.isCompleted, there]
        exact completed
      have asked : Accounted id k (p.request (.whenReady id k)) :=
        ⟨accounted.spares, fun early => absurd finished (Bool.eq_false_iff.mp early), fun _ => finished⟩
      have owing : Owing id k 1 p (p.request (.whenReady id k)) :=
        ⟨due, fun cleared => cleared, fun finished => finished⟩
      refine wp_mono _ ?_ (wp_invoke id k asked finished)
      rintro _ q ⟨later, more⟩
      exact ⟨later, owing.trans more⟩
    · next early =>
      exact ⟨trivial, fun _ => accounted_enqueue accounted there (Bool.not_eq_true _ ▸ early)⟩

theorem act {r : Request κ} (other : r ≠ .whenReady id k)
    (spares : ∀ d, r = .register d → d.Spares k) : r.act.Obeys (Deferring κ σ id k) := by
  cases r with
  | register d => exact register (spares d rfl)
  | addCapability tag c => exact addCapability tag c
  | createElement tag => exact createElement tag
  | appendChild parent child =>
    exact Obeys.composes.appendChild detach connect parent child
      (edit _ fun d => d.reworks_appendChild parent child)
  | removeChild parent child =>
    have edited (d : Document) : (Act.edit fun _ => d : Act κ Unit).Obeys (Deferring κ σ id k) :=
      .update fun p accounted => takes_change accounted ⟨accounted.spares.1, accounted.spares.2⟩ rfl rfl
    exact Obeys.composes.removeChild detach edited parent child
  | finishLoading =>
    have loaded (s : Scene κ) : s.Alike [.loading, .pending] { s with loading := false, pending := [] } :=
      (Scene.Alike.put s .loading false (by decide)).trans (.put _ .pending [] (by decide))
    exact Obeys.composes.finishLoading connect
      (.of_touches watches (C := []) (.update loaded) (by decide))
      (.of_touches watches .resolveWaiting (by decide))
  | whenReady whose l =>
    exact whenReady fun both => other (both.1 ▸ both.2 ▸ rfl)
  | _ =>
    refine .of_touches watches (.request _) ?_
    dsimp only [Touches.requested, Touches.calling]
    decide

theorem request (r : Request κ) (p : Point κ σ) (accounted : Accounted id k p) :
    (Deferring κ σ id k).contract.Takes p.past (.request r p.scene)
      (r.act.wp (Deferring κ σ id k).contract
        (fun _ q => Accounted id k q ∧ Owing id k 0 p q) (p.request r)) := by
  refine ⟨trivial, fun given => ?_⟩
  by_cases same : r = .whenReady id k
  · subst same
    exact wp_whenReady accounted
  · have spares (d : Definition κ) (registers : r = .register d) : d.Spares k := by
      subst registers
      exact given
    obtain ⟨asked, owing⟩ := accounted_request accounted same
    exact (act same spares).after (G := Deferring κ σ id k) asked owing

theorem call (c : Call κ) : c.Obeys (Deferring κ σ id k) := by
  cases c with
  | write other property v origin => exact .of_touches watches (.write _ _ _ _) (by decide)
  | connect other => exact connect other
  | release other => exact release other
  | service s other arguments => exact .of_touches watches (.service _ _ _) (by decide)
  | deliver x e => exact .of_touches watches (.deliver _ _) (by decide)
  | callback k o => trivial
  | apply f arguments => trivial

theorem keep (p : Point κ σ) (store : σ) (accounted : Accounted id k p) :
    Accounted id k (p.keep store) ∧ Owing id k 0 p (p.keep store) :=
  ⟨⟨accounted.spares, accounted.early, accounted.late⟩,
    (Int.add_zero _).symm, fun cleared => cleared, fun finished => finished⟩

theorem accounted_ofConfig (config : Config) (journal : Option Journal) (store : σ) :
    Accounted id k (⟨[], .ofConfig config journal, store⟩ : Point κ σ) where
  spares := ⟨nofun, fun _ _ found => by cases found⟩
  early _ := rfl
  late some := absurd some (Nat.lt_irrefl 0)

end LiveTree.Deferring
