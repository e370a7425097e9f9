import LiveTree.Proofs.Contract

/-! Outlines: what an act does by itself. The history of a run has the steps of all calls that were
made on the way; in the outline of an act a call is one step. A call that was answered in a run has
its outline in the history of that run. -/
namespace LiveTree
variable {κ σ α : Type} {env : Environment κ σ}

def Environment.outline (env : Environment κ σ) (fuel : Nat) (m : Act κ α) (w : World κ σ) :
    Trace κ σ α :=
  m.trace (fun c w => ⟨[], env.answer fuel c w⟩) w

theorem Environment.result_outline (env : Environment κ σ) (fuel : Nat) (m : Act κ α)
    (w : World κ σ) : (env.outline fuel m w).result = m.run (env.answer fuel) w :=
  m.result_trace _ w

namespace Trace
variable {β : Type} {t : Trace κ σ α} {next : α → World κ σ → Trace κ σ β}

theorem andThen_of_none (cut : t.result = none) : t.andThen next = ⟨t.steps, none⟩ := by
  rw [andThen, cut]

theorem andThen_of_some {a : α} {w : World κ σ} (ended : t.result = some (a, w)) :
    t.andThen next = (next a w).after t.steps := by
  rw [andThen, ended]

/-- Where both parts have come to an end, each has its share of the steps. -/
theorem of_andThen {b : β} {v : World κ σ} {steps : History κ σ}
    (ended : t.andThen next = ⟨steps, some (b, v)⟩) : ∃ a w first rest,
      t = ⟨first, some (a, w)⟩ ∧ next a w = ⟨rest, some (b, v)⟩ ∧ steps = first ++ rest := by
  obtain ⟨first, result⟩ := t
  cases result with
  | none =>
    rw [andThen_of_none rfl] at ended
    cases ended
  | some r =>
    obtain ⟨a, w⟩ := r
    rw [andThen_of_some rfl, after] at ended
    cases later : next a w with
    | mk rest last =>
      rw [later] at ended
      cases ended
      exact ⟨a, w, first, rest, rfl, later, rfl⟩

theorem after_andThen (h : History κ σ) : (t.after h).andThen next = (t.andThen next).after h := by
  cases ended : t.result with
  | none => rw [andThen_of_none ended, andThen_of_none (t := t.after h) ended]; rfl
  | some r =>
    rw [andThen_of_some ended, andThen_of_some (t := t.after h) ended]
    simp only [after, List.append_assoc]

theorem andThen_andThen {γ : Type} {more : β → World κ σ → Trace κ σ γ} :
    (t.andThen next).andThen more = t.andThen fun a w => (next a w).andThen more := by
  cases ended : t.result with
  | none => rw [andThen_of_none ended, andThen_of_none ended, andThen_of_none rfl]
  | some r => rw [andThen_of_some ended, andThen_of_some ended, after_andThen]

end Trace

theorem Act.trace_bind {β : Type} (answer : (c : Call κ) → World κ σ → Trace κ σ c.Answer)
    (m : Act κ β) (f : β → Act κ α) (w : World κ σ) :
    (m >>= f).trace answer w = (m.trace answer w).andThen fun b v => (f b).trace answer v := by
  change (m.bind f).trace answer w = _
  induction m generalizing w with
  | done b =>
    rw [trace, Trace.andThen_of_some rfl]
    rfl
  | read next ih => exact ih _ _
  | put s next ih =>
    rw [bind, trace, ih, trace, Trace.after_andThen]
  | call c next ih =>
    simp only [bind, trace, ih, Trace.andThen_andThen, Trace.after_andThen]

theorem Environment.outline_sublist (env : Environment κ σ) (fuel : Nat) (m : Act κ α)
    (w : World κ σ) :
    (env.outline fuel m w).steps.Sublist (m.trace (env.trace fuel) w).steps := by
  induction m generalizing w with
  | done a => exact .refl _
  | read next ih => exact ih _ _
  | put s next ih => exact (ih _).cons_cons _
  | call c next ih =>
    have same := env.result_trace fuel c w
    simp only [outline, Act.trace] at ih ⊢
    cases answered : env.answer fuel c w with
    | none =>
      rw [answered] at same
      rw [Trace.andThen_of_none rfl]
      exact List.nil_sublist _
    | some r =>
      rw [answered] at same
      rw [Trace.andThen_of_some rfl, Trace.andThen_of_some same]
      exact ((ih r.1 r.2).cons_cons _).trans (List.sublist_append_right _ _)

def Environment.Encloses (env : Environment κ σ) (h : History κ σ) : Prop :=
  ∀ c before a after, .answer c before a after ∈ h → ∃ fuel,
    env.answer fuel c before = some (a, after) ∧ (env.trace fuel c before).steps.Sublist h

namespace Environment.Encloses
variable {h k : History κ σ}

theorem nil : env.Encloses [] := fun _ _ _ _ step => absurd step List.not_mem_nil

theorem append (first : env.Encloses h) (second : env.Encloses k) : env.Encloses (h ++ k) := by
  intro c before a after step
  rcases List.mem_append.mp step with early | late
  · obtain ⟨fuel, answered, inside⟩ := first c before a after early
    exact ⟨fuel, answered, inside.trans (List.sublist_append_left _ _)⟩
  · obtain ⟨fuel, answered, inside⟩ := second c before a after late
    exact ⟨fuel, answered, inside.trans (List.sublist_append_right _ _)⟩

theorem change (s t : Scene κ) : env.Encloses [.change s t] := by
  intro c before a after step
  cases List.mem_singleton.mp step

theorem request (r : Request κ) (s : Scene κ) : env.Encloses [.request r s] := by
  intro c before a after step
  cases List.mem_singleton.mp step

/-- An answer comes after the steps of its call. -/
theorem answer {fuel : Nat} {c : Call κ} {w v : World κ σ} {a : c.Answer}
    (answered : env.answer fuel c w = some (a, v)) (calls : env.Encloses (env.trace fuel c w).steps) :
    env.Encloses ((env.trace fuel c w).steps ++ [.answer c w a v]) := by
  intro d before b after step
  rcases List.mem_append.mp step with early | late
  · obtain ⟨fuel', answered', inside⟩ := calls d before b after early
    exact ⟨fuel', answered', inside.trans (List.sublist_append_left _ _)⟩
  · cases List.mem_singleton.mp late
    exact ⟨fuel, answered, List.sublist_append_left _ _⟩

theorem andThen {β : Type} {t : Trace κ σ α} {next : α → World κ σ → Trace κ σ β}
    (first : env.Encloses t.steps) (second : ∀ a w, env.Encloses (next a w).steps) :
    env.Encloses (t.andThen next).steps := by
  cases ended : t.result with
  | none => rwa [Trace.andThen_of_none ended]
  | some r =>
    rw [Trace.andThen_of_some ended]
    exact first.append (second r.1 r.2)

variable {fuel : Nat} (calls : ∀ c w, env.Encloses (env.trace fuel c w).steps)
include calls

theorem act (m : Act κ α) (w : World κ σ) : env.Encloses (m.trace (env.trace fuel) w).steps := by
  induction m generalizing w with
  | done a => exact nil
  | read next ih => exact ih _ _
  | put s next ih => exact (change _ _).append (ih _)
  | call c next ih =>
    have same := env.result_trace fuel c w
    rw [Act.trace]
    cases answered : env.answer fuel c w with
    | none =>
      rw [Trace.andThen_of_none (same.trans answered)]
      exact calls c w
    | some r =>
      rw [Trace.andThen_of_some (same.trans answered)]
      simp only [Trace.after]
      rw [← List.append_assoc]
      exact (answer answered (calls c w)).append (ih _ _)

theorem script (m : Script κ σ α) (w : World κ σ) :
    env.Encloses (m.trace (env.trace fuel) w).steps := by
  induction m generalizing w with
  | done a => exact nil
  | look next ih => exact ih _ _ _
  | keep store next ih => exact ih _
  | ask r next ih => exact (request _ _).append (andThen (act calls _ _) fun a v => ih a v)

end Environment.Encloses

theorem Environment.encloses_trace (env : Environment κ σ) (fuel : Nat) (c : Call κ)
    (w : World κ σ) : env.Encloses (env.trace fuel c w).steps := by
  induction fuel generalizing c w with
  | zero => exact .nil
  | succ fuel ih =>
    cases c with
    | callback k o => exact .script ih _ _
    | apply f arguments => exact .nil
    | _ => exact .act ih _ _

theorem Environment.encloses_record (env : Environment κ σ) (fuel : Nat) (m : Script κ σ α)
    (w : World κ σ) : env.Encloses (env.record fuel m w).steps :=
  .script (env.encloses_trace fuel) m w

end LiveTree
