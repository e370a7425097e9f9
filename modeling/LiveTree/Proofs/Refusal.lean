import LiveTree.Proofs.Atomicity
import LiveTree.Proofs.Contract.Outline
import LiveTree.Proofs.Listening.Bindings
import LiveTree.Proofs.Typing

/-! Writes that come to nothing. A write is refused before its value is committed or not at all.
Until then it marks its slot, asks the property's validator and writes lines to the journal; the mark
is taken back, so that nothing is left of a refused write but the lines. -/
namespace LiveTree
variable {κ σ α β : Type}

namespace Scene

def Logs (s t : Scene κ) : Prop :=
  ∃ lines : List (Level × String), t = lines.foldl (fun u line => u.write line.1 line.2) s

namespace Logs
variable {s t u : Scene κ}

theorem refl (s : Scene κ) : s.Logs s := ⟨[], rfl⟩

theorem trans (first : s.Logs t) (second : t.Logs u) : s.Logs u := by
  obtain ⟨lines, rfl⟩ := first
  obtain ⟨more, rfl⟩ := second
  exact ⟨lines ++ more, List.foldl_append.symm⟩

theorem write (s : Scene κ) (level : Level) (text : String) : s.Logs (s.write level text) :=
  ⟨[(level, text)], rfl⟩

/-- A change of a component has nothing to do with the journal. -/
theorem modify (logs : s.Logs t) (id : ComponentId) (f : Component κ → Component κ) :
    (s.modify id f).Logs (t.modify id f) := by
  obtain ⟨lines, rfl⟩ := logs
  refine ⟨lines, ?_⟩
  induction lines generalizing s with
  | nil => rfl
  | cons line rest ih => exact ih (s := s.write line.1 line.2)

end Logs

def setBusy (s : Scene κ) (id : ComponentId) (name : String) (busy : Bool) : Scene κ :=
  s.modify id fun c => c.modifySlot name fun slot => { slot with busy := busy }

/-- A slot that was idle is as it was once it has been marked and freed. -/
theorem setBusy_setBusy {s : Scene κ} {id : ComponentId} {name : String}
    (distinct : ∀ c, s.component? id = some c → (Keyed.names c.slots).Nodup)
    (idle : ∀ slot, s.slot? id name = some slot → slot.busy = false) :
    (s.setBusy id name true).setBusy id name false = s := by
  rw [setBusy, setBusy, modify_modify]
  refine modify_of_same fun c there => ?_
  rw [Function.comp, Component.modifySlot, Component.modifySlot, Keyed.modify_modify]
  refine congrArg (fun slots => { c with slots := slots }) ?_
  refine Keyed.modify_of_same (distinct c there) fun slot held => ?_
  have free : slot.busy = false := idle slot (by rw [slot?, there]; exact held)
  rw [Function.comp, ← free]

end Scene

namespace Act
variable {answer : (c : Call κ) → World κ σ → Option (c.Answer × World κ σ)} {w w' : World κ σ}
  {a : α}

theorem run_bind_eq_some {m : Act κ β} {f : β → Act κ α}
    (ran : (m >>= f).run answer w = some (a, w')) :
    ∃ b v, m.run answer w = some (b, v) ∧ (f b).run answer v = some (a, w') := by
  obtain ⟨r, first, second⟩ := Option.bind_eq_some_iff.mp ((run_bind answer m f w).symm.trans ran)
  exact ⟨r.1, r.2, first, second⟩

theorem run_call_eq_some {c : Call κ} {next : c.Answer → Act κ α}
    (ran : (call c next).run answer w = some (a, w')) :
    ∃ b v, answer c w = some (b, v) ∧ (next b).run answer v = some (a, w') := by
  rw [run] at ran
  split at ran
  · next b v answered => exact ⟨b, v, answered, ran⟩
  · cases ran

theorem run_ask_eq_some {c : Call κ} {b : c.Answer} (ran : (ask c).run answer w = some (b, w')) :
    answer c w = some (b, w') := by
  obtain ⟨_, v, answered, ended⟩ := run_call_eq_some ran
  cases ended
  exact answered

theorem run_withComponent_eq_some {id : ComponentId} {default : α} {f : Component κ → Act κ α}
    (ran : (withComponent id default f).run answer w = some (a, w')) :
    (∃ c, w.scene.component? id = some c ∧ (f c).run answer w = some (a, w')) ∨
      w.scene.component? id = none ∧ a = default ∧ w' = w := by
  unfold withComponent at ran
  simp only [run] at ran
  split at ran
  · next c found => exact .inl ⟨c, found, ran⟩
  · next missing =>
    cases ran
    exact .inr ⟨missing, rfl, rfl⟩

end Act

/-- A function sees nothing of the tree and leaves it alone. -/
theorem Environment.scene_of_apply {env : Environment κ σ} {fuel : Nat} {c : Call κ}
    (kind : c.kind = .apply) {w : World κ σ} {r : c.Answer × World κ σ}
    (answered : env.answer fuel c w = some r) : r.2.scene = w.scene := by
  cases fuel with
  | zero => cases answered
  | succ fuel =>
    cases c with
    | apply f arguments =>
      cases answered
      rfl
    | callback k o => cases o <;> cases kind
    | _ => cases kind

def Act.Logging (m : Act κ α) : Prop := ∀ s, m.Within Scene.Logs (fun c => c.kind = .apply) s

namespace Act.Logging

theorem composes : Composes fun {_} (m : Act κ _) => m.Logging where
  pure _ _ := trivial
  scene _ := trivial
  bind first second s := (first s).bind fun b t => second b t

theorem write {f : Scene κ → Scene κ} (logs : ∀ s : Scene κ, s.Logs (f s)) :
    (Act.update f).Logging := fun s => ⟨logs s, trivial⟩

theorem localize (id : ComponentId) (key : String) (arguments : List (String × String)) :
    (Act.localize id key arguments : Act κ _).Logging := by
  refine composes.sceneBind fun s => ?_
  split
  · exact composes.pure _
  · split
    · refine composes.bind (fun _ => ⟨rfl, fun _ _ => trivial⟩) fun v => ?_
      split <;> exact composes.pure _
    · exact composes.pure _

theorem report (id : Option ComponentId) (fault : Fault) :
    (Act.report id fault : Act κ _).Logging := by
  unfold Act.report
  extract_lets told
  have later (text) : (told text).Logging := by
    refine composes.sceneBind fun s => composes.ite ?_ (composes.pure _)
    exact composes.bind (write fun s => .write s _ _) fun _ => composes.pure _
  split
  · exact composes.bind (localize _ _ _) later
  · exact composes.sceneBind fun s => composes.bind (composes.pure _) later

theorem refuse (id : ComponentId) (fault : Fault) : (Act.refuse id fault : Act κ _).Logging :=
  composes.bind (report _ _) fun _ => composes.pure _

theorem noteFailure (id : ComponentId) (callback : String) (failure : Failure) :
    (Act.noteFailure id callback failure : Act κ _).Logging :=
  write fun s => .write s _ _

/-- What such an act comes to wherever it is played. -/
theorem run {m : Act κ α} (logging : m.Logging) {env : Environment κ σ} {fuel : Nat}
    {w w' : World κ σ} {a : α} (ran : m.run (env.answer fuel) w = some (a, w')) :
    w.scene.Logs w'.scene := by
  have within := logging w.scene
  clear logging
  induction m generalizing w with
  | done b =>
    cases ran
    exact .refl _
  | read next ih => exact ih _ ran within
  | put s next ih => exact within.1.trans (ih ran within.2)
  | call c next ih =>
    obtain ⟨kind, rest⟩ := within
    obtain ⟨b, v, answered, ran⟩ := Act.run_call_eq_some ran
    have same : v.scene = w.scene := Environment.scene_of_apply kind answered
    have later := ih b ran (rest b _)
    rwa [same] at later

end Act.Logging

/-- The fault that the checks of a property find with a value, and the world in which they find it:
a value that is not allowed at once, one of the wrong kind once the validator has been asked. -/
inductive Environment.Finds (env : Environment κ σ) (fuel : Nat) (id : ComponentId) (p : Property)
    (v : Value) (w : World κ σ) : Fault → World κ σ → Prop
  | notAllowed {fault : Fault} : p.checkAllowed v = .error fault →
    env.Finds fuel id p v w fault w
  | wrongKind {fault : Fault} {x : Value} {u : World κ σ} : p.checkAllowed v = .ok () →
    (Act.validated id p (w.scene.property id p.name) v).run (env.answer fuel) w = some (x, u) →
    (w.scene.property id p.name).same x = false → p.checkKind x = .error fault →
    env.Finds fuel id p v w fault u

inductive Environment.Declines (env : Environment κ σ) (fuel : Nat) (id : ComponentId)
    (p : Property) (v : Value) (origin : Origin) (w : World κ σ) :
    Except Fault Bool → World κ σ → Prop
  | readOnly : p.readOnly = true → origin ≠ .internal →
    env.Declines fuel id p v origin w (.ok false) w
  | refused {fault : Fault} {u u' : World κ σ} {r : Except Fault Bool} :
    env.Finds fuel id p v w fault u →
    (Act.refuse id fault).run (env.answer fuel) u = some (r, u') →
    env.Declines fuel id p v origin w r u'
  | unchanged {x : Value} {u : World κ σ} :
    (Act.validated id p (w.scene.property id p.name) v).run (env.answer fuel) w = some (x, u) →
    (w.scene.property id p.name).same x = true ∨ u.scene.slot? id p.name = none →
    env.Declines fuel id p v origin w (.ok false) u

section Runs
variable {env : Environment κ σ} {fuel : Nat} {id : ComponentId} {p : Property} {v : Value}
  {origin : Origin} {w w' : World κ σ} {r : Except Fault Bool}

/-- From the commit on a write cannot fail. -/
theorem Act.run_commit {old x : Value}
    (ran : (Act.commit id p old x origin).run (env.answer fuel) w = some (r, w')) :
    r = .ok true ∨ r = .ok false ∧ w' = w ∧ w.scene.slot? id p.name = none := by
  rcases run_withComponent_eq_some ran with ⟨c, found, ran⟩ | ⟨missing, rfl, rfl⟩
  · split at ran
    · next bare =>
      cases ran
      exact .inr ⟨rfl, rfl, by rw [Scene.slot?, found]; exact bare⟩
    · obtain ⟨-, u, -, rest⟩ := run_bind_eq_some ran
      obtain ⟨-, u', -, ended⟩ := run_bind_eq_some rest
      cases ended
      exact .inl rfl
  · exact .inr ⟨rfl, rfl, by rw [Scene.slot?, missing]; rfl⟩

/-- What is refused is refused before the commit. -/
theorem Environment.declines_of_attempt
    (ran : (Act.attempt id p v origin).run (env.answer fuel) w = some (r, w'))
    (refused : r ≠ .ok true) : env.Declines fuel id p v origin w r w' := by
  unfold Act.attempt at ran
  split at ran
  · next barred =>
    cases ran
    exact .readOnly barred.1 barred.2
  · split at ran
    · next checked => exact .refused (.notAllowed checked) ran
    · next checked =>
      obtain ⟨x, u, validated, rest⟩ := Act.run_bind_eq_some
        (m := Act.validated id p (w.scene.property id p.name) v) ran
      split at rest
      · next same =>
        cases rest
        exact .unchanged validated (.inl same)
      · next fresh =>
        split at rest
        · next wrong =>
          exact .refused (.wrongKind checked validated (Bool.eq_false_iff.mpr fresh) wrong) rest
        · rcases Act.run_commit rest with rfl | ⟨rfl, rfl, gone⟩
          · exact absurd rfl refused
          · exact .unchanged validated (.inr gone)

/-- A write is discarded at once, or it marks an idle slot of a declared property, makes its attempt
and frees the slot. -/
theorem Act.run_write {name : String}
    (ran : (Act.write id name v origin).run (env.answer fuel) w = some (r, w')) :
    (r = .ok false ∧ w' = w) ∨ ∃ p u, p.name = name ∧ w.scene.Declares id p ∧
      (∀ slot, w.scene.slot? id name = some slot → slot.busy = false) ∧
      (Act.attempt id p v origin).run (env.answer fuel) ⟨w.scene.setBusy id name true, w.store⟩ =
        some (r, u) ∧
      w' = ⟨u.scene.setBusy id name false, u.store⟩ := by
  rcases run_withComponent_eq_some ran with ⟨c, found, ran⟩ | ⟨-, rfl, rfl⟩
  · split at ran
    · next p slot declared held =>
      split at ran
      · cases ran
        exact .inl ⟨rfl, rfl⟩
      · next idle =>
        have name : p.name = name := Schema.name_of_get? declared
        obtain ⟨_, marked, mark, rest⟩ := run_bind_eq_some ran
        obtain ⟨r', u, attempted, rest⟩ := run_bind_eq_some rest
        obtain ⟨_, freed, free, ended⟩ := run_bind_eq_some rest
        cases mark
        cases free
        cases ended
        refine .inr ⟨p, u, name, ⟨c, found, by rw [name]; exact declared⟩, ?_, attempted, rfl⟩
        intro other there
        rw [Scene.slot?, found] at there
        cases held.symm.trans there
        exact Bool.eq_false_iff.mpr idle
    · cases ran
      exact .inl ⟨rfl, rfl⟩
  · exact .inl ⟨rfl, rfl⟩

end Runs

def Environment.Harmless (env : Environment κ σ) (id : ComponentId) (method : String)
    (w : World κ σ) : Prop :=
  ∀ fuel arguments r w', (Act.invoke id method arguments).run (env.answer fuel) w = some (r, w') →
    w.scene.Logs w'.scene

section Harmless
variable {env : Environment κ σ} {fuel : Nat} {id : ComponentId} {p : Property} {v : Value}
  {w u : World κ σ} (harmless : ∀ method, p.validator = some method → env.Harmless id method w)
include harmless

theorem Environment.logs_of_validated {old x : Value}
    (ran : (Act.validated id p old v).run (env.answer fuel) w = some (x, u)) :
    w.scene.Logs u.scene := by
  unfold Act.validated at ran
  split at ran
  · cases ran
    exact .refl _
  · next method validator =>
    obtain ⟨result, t, invoked, rest⟩ := Act.run_bind_eq_some ran
    have logs := harmless method validator fuel _ result t invoked
    split at rest
    · cases rest
      exact logs
    · next failure =>
      obtain ⟨_, t', noted, ended⟩ := Act.run_bind_eq_some rest
      cases ended
      exact logs.trans ((Act.Logging.noteFailure id method failure).run noted)

theorem Environment.Finds.logs {fault : Fault} (finds : env.Finds fuel id p v w fault u) :
    w.scene.Logs u.scene := by
  cases finds with
  | notAllowed _ => exact .refl _
  | wrongKind _ validated _ _ => exact env.logs_of_validated harmless validated

theorem Environment.Declines.logs {origin : Origin} {r : Except Fault Bool}
    (declines : env.Declines fuel id p v origin w r u) : w.scene.Logs u.scene := by
  cases declines with
  | readOnly _ _ => exact .refl _
  | refused finds ran => exact (finds.logs harmless).trans ((Act.Logging.refuse id _).run ran)
  | unchanged validated _ => exact env.logs_of_validated harmless validated

end Harmless

/-- Nothing is left of a write that is refused or finds nothing to change, whoever makes it and
wherever in a run, except for lines in the journal. Only the validator of the property is consumer
code that runs meanwhile, and it is taken to leave the tree alone. -/
theorem logs_of_refused (env : Environment κ σ) {w : World κ σ} (reached : env.Reachable w)
    (fuel : Nat) (m : Script κ σ α) {id : ComponentId} {name : String} {v : Value} {origin : Origin}
    {before after : World κ σ} {r : Except Fault Bool}
    (step : .answer (.write id name v origin) before r after ∈ (env.record fuel m w).steps)
    (refused : r ≠ .ok true)
    (harmless : ∀ p method, before.scene.Declares id p → p.name = name →
      p.validator = some method →
      env.Harmless id method ⟨before.scene.setBusy id name true, before.store⟩) :
    before.scene.Logs after.scene := by
  have typed : before.scene.Typed := reached.typed fuel m (.inr ⟨_, step, List.mem_cons_self ..⟩)
  obtain ⟨fuel', answered, -⟩ := env.encloses_record fuel m w _ _ _ _ step
  cases fuel' with
  | zero => cases answered
  | succ fuel' =>
    rcases Act.run_write answered with ⟨-, rfl⟩ | ⟨p, u, rfl, declared, idle, attempted, rfl⟩
    · exact .refl _
    · have declines := Environment.declines_of_attempt attempted refused
      have logs := declines.logs fun method validator => harmless p method declared rfl validator
      have freed := logs.modify id fun c =>
        c.modifySlot p.name fun slot => { slot with busy := false }
      have back : (before.scene.setBusy id p.name true).setBusy id p.name false = before.scene :=
        Scene.setBusy_setBusy (fun c there => (typed.fits id c there).distinct) idle
      rw [← back]
      exact freed

/-- A method of a component that does nothing but give a result. -/
theorem Environment.harmless_of_custom {env : Environment κ σ} {w : World κ σ} {id : ComponentId}
    {method : String} {k : κ}
    (there : ((w.scene.component? id).bind fun c => c.definition.method? method) = some (.custom k))
    (calm : ∀ o, ∃ result, env.script k o = .done result) : env.Harmless id method w := by
  intro fuel arguments r w' ran
  obtain ⟨s, v, looked, called⟩ := Act.run_bind_eq_some ran
  cases looked
  rw [there] at called
  have answered := Act.run_ask_eq_some called
  cases fuel with
  | zero => cases answered
  | succ fuel =>
    obtain ⟨result, script⟩ := calm (.method id arguments)
    rw [answer, script] at answered
    cases answered
    exact .refl _

def spelling : Environment Unit Unit where
  script _ _ := return .ok (.string "yes")
  apply _ _ store := (.undefined, store)

def lighting : Script Unit Unit Unit := do
  Script.request (.setDefaults [])
  let _ ← Script.request (.register (Declaration.define {
    tag := "x-lamp"
    properties := [{ Property.ofKind "lit" .boolean with validator := some "check" }]
    methods := [("check", ())] }))
  let _ ← Script.request (.createElement "x-lamp")
  let _ ← Script.request (.set ⟨0⟩ "lit" (.bool true) true)

def Step.isRefusedLight : Step Unit Unit → Bool
  | .answer (.write id name _ _) before (.error _) _ =>
    let marked := before.scene.setBusy ⟨0⟩ "lit" true
    id == ⟨0⟩ && name == "lit" &&
    ((before.scene.component? ⟨0⟩).bind fun c => (c.schema.get? "lit").bind Property.validator) ==
      some "check" &&
    (((marked.component? ⟨0⟩).bind fun c => c.definition.method? "check") matches some (.custom ()))
  | _ => false

theorem logs_of_refused_lighting : ∃ before after v origin fault,
    .answer (.write ⟨0⟩ "lit" v origin) before (.error fault) after ∈
      (spelling.record 20 lighting ⟨.ofConfig { faults := .escalate } (some {}), ()⟩).steps ∧
    before.scene.Logs after.scene := by
  have answered : (spelling.record 20 lighting
      ⟨.ofConfig { faults := .escalate } (some {}), ()⟩).steps.any Step.isRefusedLight = true := by
    decide +kernel
  obtain ⟨x, step, light⟩ := List.any_eq_true.mp answered
  unfold Step.isRefusedLight at light
  split at light
  · next id name v origin before fault after =>
    simp only [Bool.and_eq_true, beq_iff_eq] at light
    obtain ⟨⟨⟨rfl, rfl⟩, checked⟩, found⟩ := light
    refine ⟨before, after, v, origin, fault, step, ?_⟩
    refine logs_of_refused spelling (.start _ _ ()) 20 lighting step nofun ?_
    intro p method ⟨c, there, declared⟩ named validator
    rw [there, Option.bind_some, ← named, declared, Option.bind_some, validator] at checked
    cases checked
    split at found
    · next custom => exact Environment.harmless_of_custom custom fun _ => ⟨_, rfl⟩
    · cases found
  · cases light

end LiveTree
