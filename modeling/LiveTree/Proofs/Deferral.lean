import LiveTree.Proofs.Contract.Opening
import LiveTree.Proofs.Deferral.Registration
import LiveTree.Proofs.Deferral.Run

/-! Deferred callbacks run once, whatever consumer code does while it is being called: those that
wait for a component when it is completed, those that wait for a tag when it is registered, and
those that have nothing to wait for at once. -/
namespace LiveTree
variable {κ σ α : Type}

/-- A request for a component that is completed already is a run of the callback. -/
theorem Act.trace_whenReady {answer : (c : Call κ) → World κ σ → Trace κ σ c.Answer} {s : Scene κ}
    {id : ComponentId} (completed : s.isCompleted id = true) (k : κ) (store : σ) :
    (whenReady id k).trace answer ⟨s, store⟩ =
      (guarded id "when_ready" k (.hook id)).trace answer ⟨s, store⟩ := by
  unfold Scene.isCompleted at completed
  cases found : s.component? id with
  | none =>
    rw [found] at completed
    cases completed
  | some c =>
    rw [found] at completed
    have finished : c.completed = true := completed
    unfold whenReady withComponent
    simp only [trace, found, finished, if_true]

/-- Where a guarded callback was run to its end, its answer is the first thing after what it did. -/
theorem Act.steps_guarded {answer : (c : Call κ) → World κ σ → Trace κ σ c.Answer} {w : World κ σ}
    {id : ComponentId} {name : String} {k : κ} {o : Occasion}
    (ended : ((guarded id name k o).trace answer w).result.isSome = true) :
    ∃ a v rest, ((guarded id name k o).trace answer w).steps =
      (answer (.callback k o) w).steps ++ .answer (.callback k o) w a v :: rest := by
  obtain ⟨⟨b, u⟩, result⟩ := Option.isSome_iff_exists.mp ended
  cases whole : (guarded id name k o).trace answer w with
  | mk steps last =>
    rw [whole] at result
    cases result
    obtain ⟨r, x, first, rest, called, -, rfl⟩ :=
      Trace.of_andThen ((Act.trace_bind answer (callback k o) _ w).symm.trans whole)
    obtain ⟨a, v, before, after, made, answered, rfl⟩ := Trace.of_andThen called
    have one : [Step.answer (.callback k o) w a v] = after := congrArg Trace.steps answered
    subst one
    rw [made]
    exact ⟨a, v, rest, by rw [List.append_assoc, List.singleton_append]⟩

variable [DecidableEq κ]

structure History.Readied (env : Environment κ σ) (h : History κ σ) (id : ComponentId) (k : κ)
    (last : Scene κ) : Prop where
  once : h.invoked id k = if last.isCompleted id then h.entrusted id k else 0
  late : ∀ before a after, .answer (.callback k (.hook id)) before a after ∈ h →
    before.scene.isCompleted id = true
  inTime : ∀ (front : History κ σ) c before a after back, h = front ++ .answer c before a after :: back →
    before.scene.isCompleted id = false → after.scene.isCompleted id = true →
      front.invoked id k = front.entrusted id k
  /-- A request that comes when the component is completed is followed by a run of the callback. -/
  atOnce : ∀ front s back, h = front ++ .request (.whenReady id k) s :: back →
    s.isCompleted id = true → ∃ fuel store a after rest,
      back = (env.trace fuel (.callback k (.hook id)) ⟨s, store⟩).steps ++
        .answer (.callback k (.hook id)) ⟨s, store⟩ a after :: rest

structure History.Announced (h : History κ σ) (k : κ) (last : Scene κ) : Prop where
  once : h.told k = h.awaited k last
  late : ∀ (front : History κ σ) before a after back,
    h = front ++ .answer (.callback k .registered) before a after :: back →
      front.Answers k before.scene

section Runs
variable {env : Environment κ σ} {fuel : Nat} {m : Script κ σ α} {config : Config}
  {journal : Option Journal} {store : σ} {h : History κ σ} {a : α} {w : World κ σ}
  (ran : env.record fuel m ⟨.ofConfig config journal, store⟩ = ⟨h, some (a, w)⟩)
include ran

theorem readied_of_record (id : ComponentId) (k : κ)
    (spares : ∀ d s, .request (.register d) s ∈ h → d.Spares k) :
    History.Readied env h id k w.scene := by
  have kept := Regime.record_fulfils (G := Deferring κ σ id k) Deferring.keep Deferring.request
    Deferring.call env fuel m (Deferring.accounted_ofConfig config journal store)
  have opened := env.opened_record fuel m ⟨.ofConfig config journal, store⟩
  rw [ran] at kept opened
  have fine : Along (Deferring κ σ id k).given [] h := by
    refine Along.iff_splits.mpr fun front x back split => ?_
    cases x with
    | request r s =>
      cases r with
      | register d => exact spares d s (by rw [split]; simp)
      | _ => trivial
    | _ => trivial
  obtain ⟨safe, ends⟩ := kept fine
  obtain ⟨accounted, owing⟩ := ends a w rfl
  have splits := Along.iff_splits.mp safe
  have due : (h.entrusted id k : Int) - h.invoked id k - w.scene.queued id k = 0 := owing.due
  refine ⟨?_, ?_, ?_, ?_⟩
  · split
    · next completed =>
      have cleared : w.scene.queued id k = 0 := owing.cleared (fun opened => by cases opened) completed
      omega
    · next open_ =>
      exact Nat.eq_zero_of_not_pos fun some => open_ (accounted.late some)
  · intro before b after member
    obtain ⟨front, back, split⟩ := List.append_of_mem member
    exact (splits front _ back split).1 rfl
  · intro front c before b after back split
    exact (splits front _ back split).2
  · intro front s back split completed
    obtain ⟨fuel, store, first, ended⟩ := opened front _ s back split
    have ended := ended rfl
    change (((Act.whenReady id k).trace (env.trace fuel) ⟨s, store⟩).steps <+: back) at first
    change ((Act.whenReady id k).trace (env.trace fuel) ⟨s, store⟩).result.isSome = true at ended
    rw [Act.trace_whenReady completed] at first ended
    obtain ⟨b, v, rest, steps⟩ := Act.steps_guarded ended
    obtain ⟨more, rfl⟩ := first
    refine ⟨fuel, store, b, v, rest ++ more, ?_⟩
    rw [steps, List.append_assoc, List.cons_append]

theorem announced_of_record (k : κ) : History.Announced h k w.scene := by
  have kept := Regime.record_fulfils (G := Registering κ σ k) Registering.keep Registering.request
    Registering.call env fuel m (Registering.enlisted_ofConfig config journal store)
  rw [ran] at kept
  obtain ⟨safe, ends⟩ := kept (Along.iff_splits.mpr fun _ _ _ _ => trivial)
  obtain ⟨-, promised⟩ := ends a w rfl
  refine ⟨?_, fun front before b after back split => ?_⟩
  · have overdue : (h.awaited k w.scene : Int) - h.told k = 0 := promised.overdue
    omega
  · exact Along.iff_splits.mp safe front _ back split rfl

end Runs

/-- In a run that comes to its end, a callback that was given to wait for a component runs as often
as it was given if the component has been completed, and not at all if it has not: at once if the
component was completed already, else in the course of its completion and after it was marked. One
that was given to wait for tags runs as often as it was given for tags that have been registered,
after the type is there. The first goes for callbacks that no type has for a hook. -/
theorem deferred_once (env : Environment κ σ) (fuel : Nat) (m : Script κ σ α) (config : Config)
    (journal : Option Journal) (store : σ) (h : History κ σ) (a : α) (w : World κ σ)
    (steps : (env.record fuel m ⟨.ofConfig config journal, store⟩).steps = h)
    (played : env.play fuel m ⟨.ofConfig config journal, store⟩ = some (a, w)) :
    (∀ id k, (∀ d s, .request (.register d) s ∈ h → d.Spares k) →
      History.Readied env h id k w.scene) ∧ ∀ k, History.Announced h k w.scene := by
  have ran : env.record fuel m ⟨.ofConfig config journal, store⟩ = ⟨h, some (a, w)⟩ := by
    rw [← steps, ← played, ← env.result_record]
  exact ⟨readied_of_record ran, announced_of_record ran⟩

def counting : Environment Unit Nat where
  script _ _ := do
    Script.modifyStore (· + 1)
    return .ok .undefined
  apply _ _ store := (.undefined, store)

def deferring : Script Unit Nat Unit := do
  Script.request (.whenRegistered "x-item" ())
  let _ ← Script.request (.register (Declaration.define { tag := "x-item" }))
  let x ← Script.request (.createElement "x-item")
  Script.request (.whenReady ⟨0⟩ ())
  Script.request (.appendChild Document.root x)
  Script.request (.whenReady ⟨0⟩ ())

def Step.plain : Step κ σ → Bool
  | .request (.register d) _ => Hooks.fields.all fun pick => (pick d.hooks).isNone
  | _ => true

set_option maxRecDepth 100000 in
theorem deferred_once_counting : ∃ h a w,
    (counting.record 20 deferring ⟨.ofConfig {} none, 0⟩).steps = h ∧
      counting.play 20 deferring ⟨.ofConfig {} none, 0⟩ = some (a, w) ∧
      (∀ d s, .request (.register d) s ∈ h → d.Spares ()) ∧
      h.invoked ⟨0⟩ () = 2 ∧ h.told () = 1 ∧ w.store = 3 := by
  have ended : (counting.play 20 deferring ⟨.ofConfig {} none, 0⟩).any fun r => r.2.store = 3 &&
      r.2.scene.isCompleted ⟨0⟩ && History.awaited () r.2.scene
        (counting.record 20 deferring ⟨.ofConfig {} none, 0⟩).steps = 1 := by decide +kernel
  have given : History.entrusted ⟨0⟩ ()
      (counting.record 20 deferring ⟨.ofConfig {} none, 0⟩).steps = 2 := by decide +kernel
  have plain : (counting.record 20 deferring ⟨.ofConfig {} none, 0⟩).steps.all Step.plain := by
    decide +kernel
  obtain ⟨⟨a, w⟩, played, facts⟩ := (Option.any_eq_true _ _).mp ended
  obtain ⟨h, steps⟩ : ∃ h, (counting.record 20 deferring ⟨.ofConfig {} none, 0⟩).steps = h :=
    ⟨_, rfl⟩
  rw [steps] at given plain
  simp only [steps, Bool.and_eq_true, decide_eq_true_eq] at facts
  obtain ⟨⟨store, completed⟩, awaited⟩ := facts
  have spares (d : Definition Unit) (s : Scene Unit) (member : .request (.register d) s ∈ h) :
      d.Spares () := by
    intro pick listed hook
    have none_set := List.all_eq_true.mp (List.all_eq_true.mp plain _ member) pick listed
    rw [hook] at none_set
    cases none_set
  obtain ⟨ready, announced⟩ := deferred_once counting 20 deferring {} none 0 h a w steps played
  refine ⟨h, a, w, steps, played, spares, ?_, ?_, store⟩
  · rw [(ready ⟨0⟩ () spares).once, if_pos completed, given]
  · rw [(announced ()).once, awaited]

end LiveTree
