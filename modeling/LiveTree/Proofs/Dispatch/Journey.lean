import LiveTree.Proofs.Contract.Preserving
import LiveTree.Proofs.Contract.Outline
import LiveTree.Proofs.Listening.Books

/-! The way of an event. At each node it comes to, the listeners of that time have their turns one
after the other, each in the world that the one before it left; then the event goes on to the node
that is the parent by then. What is done on the way makes up the history of the delivery. -/
namespace LiveTree
variable {κ σ α : Type}

structure Turn (κ σ : Type) where
  id : ListenerId
  before : World κ σ
  steps : History κ σ
  after : World κ σ

structure Visit (κ σ : Type) where
  node : NodeId
  arrival : World κ σ
  turns : List (Turn κ σ)
  departure : World κ σ

def Visit.steps (visit : Visit κ σ) : History κ σ := visit.turns.flatMap Turn.steps

def Visit.ids (visit : Visit κ σ) : List ListenerId := visit.turns.map Turn.id

namespace Environment

inductive Round (env : Environment κ σ) (e : Event) :
    List ListenerId → World κ σ → List (Turn κ σ) → World κ σ → Prop
  | done {w} : Round env e [] w [] w
  | heard {id ids w l fuel steps u turns v} (there : w.scene.listener? id = some l)
    (ran : (Act.hear l e).trace (env.trace fuel) w = ⟨steps, some ((), u)⟩)
    (rest : Round env e ids u turns v) : Round env e (id :: ids) w (⟨id, w, steps, u⟩ :: turns) v
  | removed {id ids w turns v} (gone : w.scene.listener? id = none)
    (rest : Round env e ids w turns v) : Round env e (id :: ids) w (⟨id, w, [], w⟩ :: turns) v

inductive Journey (env : Environment κ σ) (e : Event) :
    NodeId → World κ σ → List (Visit κ σ) → History κ σ → World κ σ → Prop
  | last {x w turns v}
    (round : env.Round { e with current := x } (w.scene.document.listeners x e.kind) w turns v)
    (top : e.bubbles = true → v.scene.document.parent? x = none) :
    Journey env e x w [⟨x, w, turns, v⟩] (turns.flatMap Turn.steps) v
  | on {x w turns v p route steps u}
    (round : env.Round { e with current := x } (w.scene.document.listeners x e.kind) w turns v)
    (bubbles : e.bubbles = true) (above : v.scene.document.parent? x = some p)
    (rest : Journey env e p v route steps u) :
    Journey env e x w (⟨x, w, turns, v⟩ :: route)
      (turns.flatMap Turn.steps ++ (steps ++ [.answer (.deliver p { e with current := x }) v () u])) u

end Environment

def Act.turn (e : Event) (id : ListenerId) : Act κ Unit := do
  let s ← scene
  match (s.listeners.get? id.index).join with
  | some l => hear l e
  | none => return ()

def Act.climb (x : NodeId) (e : Event) : Act κ Unit := do
  let s ← scene
  if e.bubbles then
    match s.document.parent? x with
    | some parent => ask (.deliver parent e)
    | none => return ()

section Runs
variable {env : Environment κ σ} {fuel : Nat} {e : Event} {w v : World κ σ} {steps : History κ σ}

theorem Act.trace_turn_of_there {id : ListenerId} {l : Listener κ}
    (there : w.scene.listener? id = some l) :
    (Act.turn e id).trace (env.trace fuel) w = (Act.hear l e).trace (env.trace fuel) w := by
  change (match (w.scene.listeners.get? id.index).join with
    | some l => Act.hear l e
    | none => pure ()).trace _ w = _
  rw [show (w.scene.listeners.get? id.index).join = some l from there]

theorem Act.trace_turn_of_gone {id : ListenerId} (gone : w.scene.listener? id = none) :
    (Act.turn e id : Act κ Unit).trace (env.trace fuel) w = ⟨[], some ((), w)⟩ := by
  change (match (w.scene.listeners.get? id.index).join with
    | some l => Act.hear l e
    | none => pure ()).trace _ w = _
  rw [show (w.scene.listeners.get? id.index).join = none from gone]
  rfl

theorem Environment.Round.of_each {ids : List ListenerId}
    (ran : (Act.each ids (Act.turn e)).trace (env.trace fuel) w = ⟨steps, some ((), v)⟩) :
    ∃ turns, env.Round e ids w turns v ∧ steps = turns.flatMap Turn.steps := by
  induction ids generalizing w steps with
  | nil =>
    cases ran
    exact ⟨[], .done, rfl⟩
  | cons id ids ih =>
    obtain ⟨_, u, first, rest, turned, later, rfl⟩ :=
      Trace.of_andThen ((Act.trace_bind _ (Act.turn e id) _ w).symm.trans ran)
    obtain ⟨turns, round, rfl⟩ := ih later
    cases here : w.scene.listener? id with
    | some l =>
      rw [Act.trace_turn_of_there here] at turned
      exact ⟨_ :: turns, .heard here turned round, rfl⟩
    | none =>
      rw [Act.trace_turn_of_gone here] at turned
      cases turned
      exact ⟨_ :: turns, .removed here round, rfl⟩

/-- At which node an event was before makes no difference. -/
theorem Environment.Journey.of_current {x y : NodeId} {route : List (Visit κ σ)}
    (journey : env.Journey { e with current := y } x w route steps v) :
    env.Journey e x w route steps v := by
  induction journey with
  | last round top => exact .last round top
  | on round bubbles above _ ih => exact .on round bubbles above ih

theorem Environment.Journey.of_trace {x : NodeId}
    (ran : env.trace fuel (.deliver x e) w = ⟨steps, some ((), v)⟩) :
    ∃ route, env.Journey e x w route steps v := by
  induction fuel generalizing x e w steps with
  | zero => cases ran
  | succ fuel ih =>
    obtain ⟨_, u, first, rest, turned, climbed, rfl⟩ := Trace.of_andThen <|
      (Act.trace_bind _ (Act.each _ (Act.turn { e with current := x })) _ w).symm.trans ran
    obtain ⟨turns, round, rfl⟩ := Environment.Round.of_each turned
    change (Act.climb x { e with current := x }).trace (env.trace fuel) u = _ at climbed
    rw [Act.climb, Act.trace_bind, Trace.andThen_of_some rfl] at climbed
    split at climbed
    · next bubbles =>
      split at climbed
      · next p above =>
        obtain ⟨_, v', inner, last, answered, ended, rfl⟩ := Trace.of_andThen climbed
        cases ended
        obtain ⟨route, journey⟩ := ih answered
        exact ⟨_, .on round bubbles above journey.of_current⟩
      · next top =>
        cases climbed
        refine ⟨[⟨x, w, turns, v⟩], ?_⟩
        change env.Journey e x w _ (_ ++ []) v
        rw [List.append_nil]
        exact .last round fun _ => top
    · next still =>
      cases climbed
      refine ⟨[⟨x, w, turns, v⟩], ?_⟩
      change env.Journey e x w _ (_ ++ []) v
      rw [List.append_nil]
      exact .last round fun bubbles => absurd bubbles still

end Runs
end LiveTree
