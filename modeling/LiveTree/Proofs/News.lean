import LiveTree.Proofs.Guards
import LiveTree.Proofs.News.Chain
import LiveTree.Proofs.Typing

/-! Change events leave no gap. Over any stretch of a run during which a component and its owner are
ready, the events of a property that notifies are those of its writes, one for each that was answered
with yes, and put together they lead from the value at the start to the value at the end. -/
namespace LiveTree
variable {κ σ α : Type}

/-- The configuration stays what it was. -/
theorem config_of_step (env : Environment κ σ) {fuel : Nat} {m : Script κ σ α} {w : World κ σ}
    {x : Step κ σ} (step : x ∈ (env.record fuel m w).steps) {t : Scene κ} (met : t ∈ x.scenes) :
    t.config = w.scene.config :=
  env.record_keeps (I := fun t => t.config = w.scene.config)
    (fun _ _ _ alike here => alike.config.trans here) rfl step met

theorem History.scene_met (h : History κ σ) (s : Scene κ) :
    h.scene s = s ∨ ∃ x ∈ h, h.scene s ∈ x.scenes := by
  rcases List.eq_nil_or_concat h with rfl | ⟨rest, last, rfl⟩
  · exact .inl rfl
  · rw [List.concat_eq_append, scene_snoc]
    refine .inr ⟨last, by simp, ?_⟩
    cases last <;> simp [Step.scene, Step.scenes]

/-- A declared property has its slot wherever one takes up the history of a run. -/
theorem held_of_declares (env : Environment κ σ) {w : World κ σ} (reached : env.Reachable w)
    {fuel : Nat} {m : Script κ σ α} {front rest : History κ σ}
    (split : (env.record fuel m w).steps = front ++ rest) {id : ComponentId} {p : Property}
    (declared : (front.scene w.scene).Declares id p) :
    ∃ x, (front.scene w.scene).held? id p.name = some x := by
  obtain ⟨c, there, own⟩ := declared
  have met := (front.scene_met w.scene).imp_right fun ⟨x, step, met⟩ =>
    (⟨x, by rw [split]; exact List.mem_append_left _ step, met⟩ :
      ∃ x ∈ (env.record fuel m w).steps, front.scene w.scene ∈ x.scenes)
  have fits := (reached.typed fuel m met).fits id c there
  have named : p.name ∈ Keyed.names c.slots :=
    fits.names.mem_iff.mpr (Schema.mem_names.mpr ⟨p, own⟩)
  obtain ⟨slot, held⟩ := Option.isSome_iff_exists.mp ((Keyed.isSome_get? _ _).mpr named)
  exact ⟨_, by rw [Scene.held?, Scene.slot?, there, Option.bind_some, held, Option.map_some]⟩

/-- Wherever one takes up the history of a run, what was told from then on leads up to the value
that the property has. -/
theorem upToDate_of_record (env : Environment κ σ) {w : World κ σ} (reached : env.Reachable w)
    {fuel : Nat} {m : Script κ σ α} {front h back : History κ σ} {id : ComponentId} {name : String}
    (there : ∃ x, (front.scene w.scene).held? id name = some x)
    (split : (env.record fuel m w).steps = h ++ back) : Chaining.UpToDate front w.scene id name h := by
  have start : Chaining.Between front w.scene id name ⟨[], w⟩ := by
    refine ⟨rfl, ?_, fun begun => ?_, fun later same => ?_⟩
    · rintro ⟨slot, found, busy⟩
      obtain ⟨c, here, held⟩ := Option.bind_eq_some_iff.mp found
      have idle := (reached.idle.components id c here).slots name slot held
      exact nomatch idle.symm.trans busy
    · rwa [List.prefix_nil.mp begun] at there
    · obtain ⟨rfl, rfl⟩ := List.append_eq_nil_iff.mp same.symm
      exact ⟨_, rfl, fun _ => rfl⟩
  have kept := Environment.record_fulfils (Chaining.meets there env) fuel m (p := ⟨[], w⟩)
    (Chaining.wp_script there m (.inl start)) (Along.iff_splits.mpr fun _ _ _ _ => trivial)
  rcases List.eq_nil_or_concat h with rfl | ⟨rest, last, rfl⟩
  · exact Chaining.Met.upToDate (.inl start)
  · rw [List.concat_eq_append] at split ⊢
    exact Along.iff_splits.mp kept.1 rest last back (by simpa using split)

/-- What a write to a property that notifies dispatched by itself is the news of its change, if the
component is settled at its end. -/
theorem dispatched_of_step (env : Environment κ σ) {w : World κ σ}
    (told : w.scene.config.changeEvents = true) {fuel : Nat} {m : Script κ σ α} {id : ComponentId}
    {name : String} {v : Value} {origin : Origin} {before after : World κ σ} {a : Except Fault Bool}
    (step : .answer (.write id name v origin) before a after ∈ (env.record fuel m w).steps)
    (settled : after.scene.isSettled id = true) {c : Component κ} {p : Property}
    (there : before.scene.component? id = some c) (declared : c.schema.get? name = some p)
    (notify : p.notify = true) :
    ∃ n, let own := env.outline n (Act.write id name v origin) before
      own.result = some (a, after) ∧ own.steps.Sublist (env.record fuel m w).steps ∧
        own.steps.dispatched =
          (Step.news id name (.answer (.write id name v origin) before a after)).map fun n =>
            (c.node, .changed p.attributeName c.node n.1 n.2) := by
  obtain rfl : p.name = name := Schema.name_of_get? declared
  obtain ⟨n, answered, inside⟩ := env.encloses_record fuel m w _ _ _ _ step
  cases n with
  | zero => cases answered
  | succ n =>
    have ended : (env.outline n (Act.write id p.name v origin) before).result = some (a, after) :=
      (env.result_outline n _ before).trans answered
    have events : before.scene.config.changeEvents = true := by
      rw [config_of_step env step List.mem_cons_self, told]
    exact ⟨n, ended, (env.outline_sublist n _ before).trans inside,
      env.dispatched_of_write ended there declared notify events settled⟩

/-- Over a stretch of a run during which a component and its owner are ready, what each write to a
property that notifies dispatches by itself is the news of its change: one event if it is answered
with yes, and none otherwise. The news of the stretch link up: the first change starts from the value
at the start of the stretch, each further one from the value of the one before it, and the last one
ends with the value at the end, unless the stretch starts or ends amidst a write. -/
theorem news_of_stretch (env : Environment κ σ) {w : World κ σ} (reached : env.Reachable w)
    (told : w.scene.config.changeEvents = true) {fuel : Nat} {m : Script κ σ α}
    {front stretch back : History κ σ}
    (split : (env.record fuel m w).steps = front ++ stretch ++ back) {id : ComponentId}
    {p : Property} (declared : (front.scene w.scene).Declares id p)
    (settled : ∀ x ∈ stretch, x.scene.isSettled id = true) :
    (∀ v origin before a after,
      .answer (.write id p.name v origin) before a after ∈ stretch → ∀ c q,
      before.scene.component? id = some c → c.schema.get? p.name = some q → q.notify = true →
      ∃ n, let own := env.outline n (Act.write id p.name v origin) before
        own.result = some (a, after) ∧ own.steps.Sublist (front ++ stretch ++ back) ∧
          own.steps.dispatched =
            (Step.news id p.name (.answer (.write id p.name v origin) before a after)).map fun n =>
              (c.node, .changed q.attributeName c.node n.1 n.2)) ∧
    ∃ x y, Linked x (stretch.news id p.name) y ∧
      (¬front.Writing w.scene id p.name → (front.scene w.scene).property id p.name = x) ∧
      (¬History.Writing (front ++ stretch) w.scene id p.name →
        (History.scene (front ++ stretch) w.scene).property id p.name = y) := by
  constructor
  · intro v origin before a after step c q there own notify
    rw [← split]
    exact dispatched_of_step env told (by simp [split, step]) (settled _ step) there own notify
  · have there := held_of_declares env reached (by rw [split, List.append_assoc]) declared
    obtain ⟨y, chained, ends⟩ := upToDate_of_record env reached there split
    obtain ⟨x, linked, starts⟩ := chained stretch rfl
    exact ⟨x, y, linked, starts, ends⟩

def relaying : Environment Unit Unit where
  script _ o := match o with
    | .change id "name" _ v => do
      let _ ← Script.request (.set id "name" (.string "again") true)
      let _ ← Script.request (.set id "mood" v false)
      return .ok .undefined
    | _ => return .ok .undefined
  apply _ _ store := (.undefined, store)

def settling : Script Unit Unit Unit := do
  let _ ← Script.request (.register (Declaration.define {
    tag := "x-cat"
    properties := [{ Property.ofKind "name" .string with notify := true },
      { Property.ofKind "mood" .string with notify := true }]
    hooks := { changed := some () } }))
  let x ← Script.request (.createElement "x-cat")
  Script.request (.appendChild Document.root x)

def telling : Script Unit Unit Unit := do
  let _ ← Script.request (.set ⟨0⟩ "name" (.string "Ada") true)
  let _ ← Script.request (.set ⟨0⟩ "name" (.string "Ada") true)
  let _ ← Script.request (.set ⟨0⟩ "name" (.string "Bob") true)

theorem news_of_stretch_relaying : ∃ w p, relaying.Reachable w ∧ w.scene.Declares ⟨0⟩ p ∧
    let h := (relaying.record 30 telling w).steps
    (h.news ⟨0⟩ p.name).map (fun n => (n.1.display, n.2.display)) = [("", "Ada"), ("Ada", "Bob")] ∧
      ∃ x y, Linked x (h.news ⟨0⟩ p.name) y ∧ w.scene.property ⟨0⟩ p.name = x := by
  have answered : (relaying.play 30 settling ⟨.ofConfig {} none, ()⟩).map (fun r =>
      let h := (relaying.record 30 telling r.2).steps
      (((r.2.scene.component? ⟨0⟩).bind fun c => c.schema.get? "name").isSome,
        r.2.scene.config.changeEvents, h.all fun x => x.scene.isSettled ⟨0⟩,
        (h.news ⟨0⟩ "name").map fun n => (n.1.display, n.2.display))) =
      some (true, true, true, [("", "Ada"), ("Ada", "Bob")]) := by decide +kernel
  obtain ⟨⟨_, w⟩, played, same⟩ := Option.map_eq_some_iff.mp answered
  obtain ⟨there, same⟩ := Prod.mk.inj same
  obtain ⟨told, same⟩ := Prod.mk.inj same
  obtain ⟨settled, news⟩ := Prod.mk.inj same
  obtain ⟨p, found⟩ := Option.isSome_iff_exists.mp there
  obtain ⟨c, here, declared⟩ := Option.bind_eq_some_iff.mp found
  have named : p.name = "name" := Schema.name_of_get? declared
  have reached : relaying.Reachable w :=
    (Environment.Reachable.start _ none ()).play settling played
  have declares : w.scene.Declares ⟨0⟩ p := ⟨c, here, by rw [named]; exact declared⟩
  have split : (relaying.record 30 telling w).steps =
      [] ++ (relaying.record 30 telling w).steps ++ [] := by simp
  obtain ⟨-, x, y, linked, starts, -⟩ :=
    news_of_stretch relaying reached told split declares (List.all_eq_true.mp settled)
  refine ⟨w, p, reached, declares, by rw [named]; exact news, x, y, linked, starts ?_⟩
  rintro (⟨slot, held, busy⟩ | ⟨_, _, none, -⟩)
  · obtain ⟨d, there, held⟩ := Option.bind_eq_some_iff.mp held
    have idle := (reached.idle.components _ d there).slots _ slot held
    exact nomatch idle.symm.trans busy
  · cases none

end LiveTree
