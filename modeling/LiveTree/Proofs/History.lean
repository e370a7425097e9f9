import LiveTree.Script

/-! Histories: the steps of a run in the order they were taken. `Act.run` gives only the world in
which a run ends; a trace has what happened on the way as well, also of a run that was cut off for
want of fuel. `Environment.result_trace` says that both tell the same story. -/
namespace LiveTree

/-- A change of the scene, a request of consumer code with the scene it found, or a call with its
answer and the worlds before and after. -/
inductive Step (κ σ : Type)
  | change (before after : Scene κ)
  | request (r : Request κ) (s : Scene κ)
  | answer (c : Call κ) (before : World κ σ) (a : c.Answer) (after : World κ σ)

abbrev History (κ σ : Type) := List (Step κ σ)

structure Trace (κ σ α : Type) where
  steps : History κ σ
  result : Option (α × World κ σ)

namespace Trace
variable {κ σ α β : Type}

def cut : Trace κ σ α := ⟨[], none⟩

def after (past : History κ σ) (t : Trace κ σ α) : Trace κ σ α := ⟨past ++ t.steps, t.result⟩

def andThen (t : Trace κ σ α) (next : α → World κ σ → Trace κ σ β) : Trace κ σ β :=
  match t.result with
  | some (a, w) => (next a w).after t.steps
  | none => ⟨t.steps, none⟩

theorem result_andThen (t : Trace κ σ α) (next : α → World κ σ → Trace κ σ β) :
    (t.andThen next).result = t.result.bind fun r => (next r.1 r.2).result := by
  unfold andThen
  split <;> next h => rw [h]; rfl

end Trace

def Act.trace {κ σ α : Type} (answer : (c : Call κ) → World κ σ → Trace κ σ c.Answer) :
    Act κ α → World κ σ → Trace κ σ α
  | done a, w => ⟨[], some (a, w)⟩
  | read next, w => (next w.scene).trace answer w
  | put s next, w => (next.trace answer { w with scene := s }).after [.change w.scene s]
  | call c next, w =>
    (answer c w).andThen fun a v => ((next a).trace answer v).after [.answer c w a v]

def Script.trace {κ σ α : Type} (answer : (c : Call κ) → World κ σ → Trace κ σ c.Answer) :
    Script κ σ α → World κ σ → Trace κ σ α
  | done a, w => ⟨[], some (a, w)⟩
  | look next, w => (next w.scene w.store).trace answer w
  | keep store next, w => next.trace answer { w with store := store }
  | ask r next, w =>
    ((r.act.trace answer w).andThen fun a v => (next a).trace answer v).after
      [.request r w.scene]

theorem Act.result_trace {κ σ α : Type} (answer : (c : Call κ) → World κ σ → Trace κ σ c.Answer)
    (m : Act κ α) (w : World κ σ) :
    (m.trace answer w).result = m.run (fun c w => (answer c w).result) w := by
  induction m generalizing w with
  | done a => rfl
  | read next ih => exact ih _ _
  | put s next ih => exact ih _
  | call c next ih =>
    simp only [trace, Trace.result_andThen, run]
    cases h : (answer c w).result with
    | none => rfl
    | some r => exact ih _ _

theorem Script.result_trace {κ σ α : Type}
    (answer : (c : Call κ) → World κ σ → Trace κ σ c.Answer) (m : Script κ σ α) (w : World κ σ) :
    (m.trace answer w).result = m.run (fun c w => (answer c w).result) w := by
  induction m generalizing w with
  | done a => rfl
  | look next ih => exact ih _ _ _
  | keep store next ih => exact ih _
  | ask r next ih =>
    simp only [trace, Trace.after, Trace.result_andThen, Act.result_trace, run]
    cases h : r.act.run (fun c w => (answer c w).result) w with
    | none => rfl
    | some x => exact ih _ _

namespace Environment
variable {κ σ α : Type}

def trace (env : Environment κ σ) :
    (fuel : Nat) → (c : Call κ) → World κ σ → Trace κ σ c.Answer
  | 0, _, _ => .cut
  | fuel + 1, c, w =>
    match c with
    | .write id property v origin => (Act.write id property v origin).trace (env.trace fuel) w
    | .connect id => (Act.connect id).trace (env.trace fuel) w
    | .release id => (Act.release id).trace (env.trace fuel) w
    | .service s id arguments => (Act.service s id arguments).trace (env.trace fuel) w
    | .deliver x e => (Act.deliver x e).trace (env.trace fuel) w
    | .callback k o => (env.script k o).trace (env.trace fuel) w
    | .apply f arguments =>
      let (v, store) := env.apply f arguments w.store
      ⟨[], some (v, { w with store := store })⟩

def record (env : Environment κ σ) (fuel : Nat) (m : Script κ σ α) (w : World κ σ) :
    Trace κ σ α :=
  m.trace (env.trace fuel) w

theorem result_trace (env : Environment κ σ) (fuel : Nat) (c : Call κ) (w : World κ σ) :
    (env.trace fuel c w).result = env.answer fuel c w := by
  induction fuel generalizing c w with
  | zero => rfl
  | succ fuel ih =>
    have same : (fun c w => (env.trace fuel c w).result) = env.answer fuel :=
      funext fun c => funext fun w => ih c w
    cases c with
    | callback k o => exact (Script.result_trace _ _ _).trans (by rw [same]; rfl)
    | apply f arguments => rfl
    | _ => exact (Act.result_trace _ _ _).trans (by rw [same]; rfl)

theorem result_record (env : Environment κ σ) (fuel : Nat) (m : Script κ σ α) (w : World κ σ) :
    (env.record fuel m w).result = env.play fuel m w := by
  have same : (fun c w => (env.trace fuel c w).result) = env.answer fuel :=
    funext fun c => funext fun w => env.result_trace fuel c w
  rw [record, Script.result_trace, same, play]

end Environment

/-- An environment without consumer code. -/
def silent : Environment Empty Unit where
  script k _ := nomatch k
  apply _ _ store := (.undefined, store)

end LiveTree
