import LiveTree.Proofs.Contract.Outline

/-! What comes right after a request. In the history of a run a request is followed by what its act
does, before consumer code goes on; and if the run comes to an end, so did the act. -/
namespace LiveTree
variable {κ σ α β : Type} {env : Environment κ σ}

def Act.Opens (env : Environment κ σ) (m : Act κ α) (s : Scene κ) (steps : History κ σ)
    (ended : Prop) : Prop :=
  ∃ fuel store, (m.trace (env.trace fuel) ⟨s, store⟩).steps <+: steps ∧
    (ended → (m.trace (env.trace fuel) ⟨s, store⟩).result.isSome = true)

theorem Act.Opens.imp {m : Act κ α} {s : Scene κ} {steps steps' : History κ σ} {ended ended' : Prop}
    (opens : m.Opens env s steps ended) (longer : steps <+: steps') (earlier : ended' → ended) :
    m.Opens env s steps' ended' := by
  obtain ⟨fuel, store, first, finished⟩ := opens
  exact ⟨fuel, store, first.trans longer, fun late => finished (earlier late)⟩

namespace Trace
variable {t : Trace κ σ α}

def Opened (env : Environment κ σ) (t : Trace κ σ α) : Prop :=
  ∀ front r s back, t.steps = front ++ .request r s :: back →
    r.act.Opens env s back (t.result.isSome = true)

theorem opened_nil {r : Option (α × World κ σ)} : Opened env ⟨[], r⟩ := by
  intro front r s back split
  cases (List.append_eq_nil_iff.mp split.symm).2

theorem Opened.after {x : Step κ σ} (opened : t.Opened env)
    (first : ∀ r s, x = .request r s → r.act.Opens env s t.steps (t.result.isSome = true)) :
    (t.after [x]).Opened env := by
  intro front r s back split
  cases front with
  | nil =>
    obtain ⟨same, rfl⟩ := List.cons.inj split
    exact first r s same
  | cons y front => exact opened front r s back (List.cons.inj split).2

/-- Changes and answers have nothing to open. -/
theorem Opened.afterChange (opened : t.Opened env) (u v : Scene κ) :
    (t.after [.change u v]).Opened env := by
  apply opened.after
  intro _ _ same
  cases same

theorem Opened.afterAnswer (opened : t.Opened env) (c : Call κ) (w v : World κ σ) (a : c.Answer) :
    (t.after [.answer c w a v]).Opened env := by
  apply opened.after
  intro _ _ same
  cases same

theorem Opened.andThen {next : α → World κ σ → Trace κ σ β} (first : t.Opened env)
    (second : ∀ a w, (next a w).Opened env) : (t.andThen next).Opened env := by
  cases ended : t.result with
  | none =>
    rw [andThen_of_none ended]
    intro front r s back split
    exact (first front r s back split).imp (List.prefix_refl back) nofun
  | some x =>
    rw [andThen_of_some ended]
    intro front r s back split
    have finished : t.result.isSome = true := by rw [ended]; rfl
    rcases List.append_eq_append_iff.mp split with ⟨early, -, late⟩ | ⟨rest, early, late⟩
    · exact second x.1 x.2 early r s back late
    · cases rest with
      | nil => exact second x.1 x.2 [] r s back late.symm
      | cons y rest =>
        obtain ⟨rfl, rfl⟩ := List.cons.inj late
        exact (first front r s rest early).imp (List.prefix_append _ _) fun _ => finished

end Trace

/-- What was done before a trace goes on comes first in it. -/
theorem Act.opens_andThen {m : Act κ α} {fuel : Nat} {w : World κ σ}
    {next : α → World κ σ → Trace κ σ β} :
    m.Opens env w.scene ((m.trace (env.trace fuel) w).andThen next).steps
      (((m.trace (env.trace fuel) w).andThen next).result.isSome = true) := by
  refine ⟨fuel, w.store, ?_⟩
  cases ended : (m.trace (env.trace fuel) w).result with
  | none =>
    rw [Trace.andThen_of_none ended]
    exact ⟨List.prefix_refl _, nofun⟩
  | some x =>
    rw [Trace.andThen_of_some ended]
    exact ⟨List.prefix_append _ _, fun _ => rfl⟩

section Opened
variable {fuel : Nat} (calls : ∀ c w, (env.trace fuel c w).Opened env)
include calls

theorem Act.opened (m : Act κ α) (w : World κ σ) : (m.trace (env.trace fuel) w).Opened env := by
  induction m generalizing w with
  | done a => exact Trace.opened_nil
  | read next ih => exact ih _ _
  | put s next ih => exact (ih _).afterChange _ _
  | call c next ih => exact (calls c w).andThen fun a v => (ih a v).afterAnswer _ _ _ _

theorem Script.opened (m : Script κ σ α) (w : World κ σ) :
    (m.trace (env.trace fuel) w).Opened env := by
  induction m generalizing w with
  | done a => exact Trace.opened_nil
  | look next ih => exact ih _ _ _
  | keep store next ih => exact ih _
  | ask r next ih =>
    refine ((Act.opened calls r.act w).andThen fun a v => ih a v).after ?_
    intro _ _ same
    cases same
    exact Act.opens_andThen

end Opened

theorem Environment.opened_trace (env : Environment κ σ) (fuel : Nat) (c : Call κ) (w : World κ σ) :
    (env.trace fuel c w).Opened env := by
  induction fuel generalizing c w with
  | zero => exact Trace.opened_nil
  | succ fuel ih =>
    cases c with
    | callback k o => exact Script.opened ih _ _
    | apply f arguments => exact Trace.opened_nil
    | _ => exact Act.opened ih _ _

theorem Environment.opened_record (env : Environment κ σ) (fuel : Nat) (m : Script κ σ α)
    (w : World κ σ) : (env.record fuel m w).Opened env :=
  Script.opened (env.opened_trace fuel) m w

end LiveTree
