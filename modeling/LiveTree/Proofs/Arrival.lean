import LiveTree.Proofs.Atomicity

/-! What arrives. A write of a value that its property takes as it is ends with that value in the slot,
or with one that is the same, whatever is done meanwhile. So a component that is fed by a field of a
context has the field's value once it was pushed. It need not have it for long: a component that is
writing back to the context does not hear of what else is written there. -/
namespace LiveTree
variable {κ σ : Type}

structure Property.Takes (p : Property) (v : Value) (origin : Origin) : Prop where
  writable : p.readOnly = true → origin = .internal
  allowed : p.isAllowed v = true
  plain : p.validator = none
  fits : p.kind.accepts p.nullable v = true

def Scene.Has (s : Scene κ) (id : ComponentId) (name : String) (v : Value) : Prop :=
  ∃ u, s.held? id name = some (u, false) ∧ (u = v ∨ u.same v = true)

theorem Scene.Has.property {s : Scene κ} {id : ComponentId} {name : String} {v : Value}
    (has : s.Has id name v) : s.property id name = v ∨ (s.property id name).same v = true := by
  obtain ⟨u, held, same⟩ := has
  rwa [property_of_held? held]

section
variable {env : Environment κ σ} {fuel : Nat} {id : ComponentId} {p : Property} {v : Value}
  {origin : Origin}

theorem wp_attempt_taken {q : Point κ σ} {old : Value} (takes : p.Takes v origin)
    (held : q.scene.held? id p.name = some (old, true)) :
    (Act.attempt id p v origin).wp (During env fuel id p.name) (fun _ r =>
      ∃ u, r.scene.held? id p.name = some (u, true) ∧ (u = v ∨ u.same v = true)) q := by
  have writable : ¬(p.readOnly = true ∧ origin ≠ .internal) := fun both => both.2 (takes.writable both.1)
  unfold Act.attempt
  rw [if_neg writable, Property.checkAllowed, if_pos takes.allowed]
  simp only [Act.wp_bind, Act.wp_scene, Scene.property_of_held? held, Act.validated, takes.plain,
    Act.wp_pure, Act.wp_ite]
  split
  · next same => exact ⟨old, held, .inr same⟩
  · rw [Property.checkKind, if_pos takes.fits]
    exact Act.wp_mono _ (fun _ r ended => ⟨v, ended.2, .inl rfl⟩) (wp_commit origin held)

/-- A write to an idle slot that the property takes arrives. -/
theorem write_arrives {name : String} {w w' : World κ σ} {c : Component κ} {slot : Slot}
    {r : Except Fault Bool} (there : w.scene.component? id = some c)
    (declared : c.schema.get? name = some p) (held : Keyed.get? c.slots name = some slot)
    (idle : slot.busy = false) (takes : p.Takes v origin)
    (answered : env.answer fuel (.write id name v origin) w = some (r, w')) :
    w'.scene.Has id name v := by
  obtain rfl : p.name = name := Schema.name_of_get? declared
  cases fuel with
  | zero => cases answered
  | succ fuel =>
    have pre : (Act.write id p.name v origin).wp (During env fuel id p.name)
        (fun _ q => q.scene.Has id p.name v) ⟨[], w⟩ := by
      refine wp_write there declared held idle fun q _ busy => ?_
      refine Act.wp_mono _ (fun _ r ended => ?_) (wp_attempt_taken takes busy)
      obtain ⟨u, held, same⟩ := ended
      exact ⟨u, Scene.freed held, same⟩
    obtain ⟨-, ends⟩ := Environment.call_fulfils (Guarded.meets env id p.name) fuel
      (.write id p.name v origin) pre (Along.iff_splits.mpr fun _ _ _ _ => trivial)
    exact ends r w' ((env.result_trace _ _ _).trans answered)

theorem Act.run_pushFeed {f : Feed} {context : ContextId} {w : World κ σ}
    (answer : (c : Call κ) → World κ σ → Option (c.Answer × World κ σ))
    (given : (f.apply (w.scene.contextField context f.path)).isUndefined = false) :
    (Act.pushFeed id context f).run answer w =
      (answer (.write id f.property (f.apply (w.scene.contextField context f.path)) .context) w).map
        fun r => ((), r.2) := by
  simp only [pushFeed, scene, Bind.bind, Act.bind, run, given, Bool.not_false, ↓reduceIte, ask]
  cases answer (.write id f.property (f.apply (w.scene.contextField context f.path)) .context) w <;> rfl

/-- A component that was pushed a field of a context has the value that the field feeds it. -/
theorem feed_arrives {f : Feed} {context : ContextId} {w w' : World κ σ} {c : Component κ}
    {slot : Slot} (there : w.scene.component? id = some c)
    (declared : c.schema.get? f.property = some p)
    (held : Keyed.get? c.slots f.property = some slot) (idle : slot.busy = false)
    (given : (f.apply (w.scene.contextField context f.path)).isUndefined = false)
    (takes : p.Takes (f.apply (w.scene.contextField context f.path)) .context)
    (ran : (Act.pushFeed id context f).run (env.answer fuel) w = some ((), w')) :
    let v := f.apply (w.scene.contextField context f.path)
    w'.scene.property id f.property = v ∨ (w'.scene.property id f.property).same v = true := by
  rw [Act.run_pushFeed _ given] at ran
  obtain ⟨⟨r, _⟩, answered, same⟩ := Option.map_eq_some_iff.mp ran
  cases same
  exact (write_arrives there declared held idle takes answered).property

end

def named : World Empty Unit where
  scene := {
    components := ⟨#[.new (Declaration.define { tag := "x-a", properties := [.ofKind "name" .string] }) ⟨1⟩ none]⟩
    contexts := ⟨#[{ fields := [("name", .string "Ada")] }]⟩ }
  store := ()

theorem feed_arrives_named : ∃ w',
    (Act.pushFeed ⟨0⟩ ⟨0⟩ ⟨"name", "name", false, .oneWay⟩).run (silent.answer 5) named = some ((), w') ∧
      (w'.scene.property ⟨0⟩ "name" = .string "Ada" ∨
        (w'.scene.property ⟨0⟩ "name").same (.string "Ada") = true) := by
  have answered : (named.scene.component? ⟨0⟩).bind (fun c => (c.schema.get? "name").bind fun p =>
      (Keyed.get? c.slots "name").bind fun slot =>
        ((Act.pushFeed ⟨0⟩ ⟨0⟩ ⟨"name", "name", false, .oneWay⟩).run (silent.answer 5) named).map fun _ =>
          decide (slot.busy = false ∧ p.readOnly = false ∧ p.isAllowed (.string "Ada") = true ∧
            p.validator = none ∧ p.kind.accepts p.nullable (.string "Ada") = true)) = some true := by
    decide +kernel
  obtain ⟨c, there, answered⟩ := Option.bind_eq_some_iff.mp answered
  obtain ⟨p, declared, answered⟩ := Option.bind_eq_some_iff.mp answered
  obtain ⟨slot, held, answered⟩ := Option.bind_eq_some_iff.mp answered
  obtain ⟨⟨_, w'⟩, ran, same⟩ := Option.map_eq_some_iff.mp answered
  obtain ⟨idle, writable, allowed, plain, fits⟩ := of_decide_eq_true same
  have takes : p.Takes (.string "Ada") .context :=
    ⟨fun readOnly => absurd readOnly (Bool.eq_false_iff.mp writable), allowed, plain, fits⟩
  exact ⟨w', ran, feed_arrives there declared held idle rfl takes ran⟩

end LiveTree
