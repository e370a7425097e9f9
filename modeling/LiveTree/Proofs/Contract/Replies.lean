import LiveTree.Proofs.History

/-! Replies: what the requests of a run were answered with. A history tells of a request when it is
made; its answer is known to the script that made it and to nobody else. Here both are put together,
for the requests of a script that is played from outside and for those of all consumer code that runs
on the way. -/
namespace LiveTree
variable {κ σ α : Type}

structure Reply (κ σ : Type) where
  request : Request κ
  before : World κ σ
  answer : request.Answer
  after : World κ σ

/-- The replies to the requests that are made while an act is played, given the answers to its calls
and the replies while these are answered. -/
def Act.replies (answer : (c : Call κ) → World κ σ → Option (c.Answer × World κ σ))
    (inner : Call κ → World κ σ → List (Reply κ σ)) : Act κ α → World κ σ → List (Reply κ σ)
  | done _, _ => []
  | read next, w => (next w.scene).replies answer inner w
  | put s next, w => next.replies answer inner { w with scene := s }
  | call c next, w => inner c w ++
    match answer c w with
    | some (a, w) => (next a).replies answer inner w
    | none => []

def Script.replies (answer : (c : Call κ) → World κ σ → Option (c.Answer × World κ σ))
    (inner : Call κ → World κ σ → List (Reply κ σ)) : Script κ σ α → World κ σ → List (Reply κ σ)
  | done _, _ => []
  | look next, w => (next w.scene w.store).replies answer inner w
  | keep store next, w => next.replies answer inner { w with store := store }
  | ask r next, w => r.act.replies answer inner w ++
    match r.act.run answer w with
    | some (a, v) => ⟨r, w, a, v⟩ :: (next a).replies answer inner v
    | none => []

namespace Environment

def repliesWithin (env : Environment κ σ) : (fuel : Nat) → Call κ → World κ σ → List (Reply κ σ)
  | 0, _, _ => []
  | fuel + 1, c, w =>
    match c with
    | .write id name v origin =>
      (Act.write id name v origin).replies (env.answer fuel) (env.repliesWithin fuel) w
    | .connect id => (Act.connect id).replies (env.answer fuel) (env.repliesWithin fuel) w
    | .release id => (Act.release id).replies (env.answer fuel) (env.repliesWithin fuel) w
    | .service s id arguments =>
      (Act.service s id arguments).replies (env.answer fuel) (env.repliesWithin fuel) w
    | .deliver x e => (Act.deliver x e).replies (env.answer fuel) (env.repliesWithin fuel) w
    | .callback k o => (env.script k o).replies (env.answer fuel) (env.repliesWithin fuel) w
    | .apply .. => []

def replies (env : Environment κ σ) (fuel : Nat) (m : Script κ σ α) (w : World κ σ) :
    List (Reply κ σ) :=
  m.replies (env.answer fuel) (env.repliesWithin fuel) w

end Environment

def Reply.Given (env : Environment κ σ) (x : Reply κ σ) : Prop :=
  ∃ fuel, x.request.act.run (env.answer fuel) x.before = some (x.answer, x.after)

section Given
variable {env : Environment κ σ} {fuel : Nat}
  (calls : ∀ c w, ∀ x ∈ env.repliesWithin fuel c w, x.Given env)
include calls

theorem Act.given_of_replies (m : Act κ α) (w : World κ σ) :
    ∀ x ∈ m.replies (env.answer fuel) (env.repliesWithin fuel) w, x.Given env := by
  induction m generalizing w with
  | done a => exact fun _ member => absurd member List.not_mem_nil
  | read next ih => exact ih _ _
  | put s next ih => exact ih _
  | call c next ih =>
    intro x member
    rw [replies] at member
    rcases List.mem_append.mp member with inner | later
    · exact calls c w x inner
    · split at later
      · exact ih _ _ x later
      · cases later

theorem Script.given_of_replies (m : Script κ σ α) (w : World κ σ) :
    ∀ x ∈ m.replies (env.answer fuel) (env.repliesWithin fuel) w, x.Given env := by
  induction m generalizing w with
  | done a => exact fun _ member => absurd member List.not_mem_nil
  | look next ih => exact ih _ _ _
  | keep store next ih => exact ih _
  | ask r next ih =>
    intro x member
    rw [replies] at member
    rcases List.mem_append.mp member with inner | later
    · exact Act.given_of_replies calls r.act w x inner
    · split at later
      · next a v ran =>
        rcases List.mem_cons.mp later with rfl | later
        · exact ⟨fuel, ran⟩
        · exact ih a v x later
      · cases later

end Given

theorem Environment.given_of_repliesWithin (env : Environment κ σ) (fuel : Nat) (c : Call κ)
    (w : World κ σ) : ∀ x ∈ env.repliesWithin fuel c w, x.Given env := by
  induction fuel generalizing c w with
  | zero => exact fun _ member => absurd member List.not_mem_nil
  | succ fuel ih =>
    cases c with
    | callback k o => exact Script.given_of_replies ih _ w
    | apply f arguments => exact fun _ member => absurd member List.not_mem_nil
    | _ => exact Act.given_of_replies ih _ w

theorem Environment.given_of_replies {env : Environment κ σ} {fuel : Nat} {m : Script κ σ α}
    {w : World κ σ} {x : Reply κ σ} (member : x ∈ env.replies fuel m w) : x.Given env :=
  Script.given_of_replies (env.given_of_repliesWithin fuel) m w x member

def History.AnsweredBy (h : History κ σ) (xs : List (Reply κ σ)) : Prop :=
  ∀ r s, .request r s ∈ h → ∃ x ∈ xs, x.request = r ∧ x.before.scene = s

namespace History.AnsweredBy
variable {h k : History κ σ} {xs ys : List (Reply κ σ)}

theorem nil : History.AnsweredBy ([] : History κ σ) [] := fun _ _ member =>
  absurd member List.not_mem_nil

theorem append (first : h.AnsweredBy xs) (second : k.AnsweredBy ys) :
    History.AnsweredBy (h ++ k) (xs ++ ys) := by
  intro r s member
  rcases List.mem_append.mp member with early | late
  · obtain ⟨x, inside, same⟩ := first r s early
    exact ⟨x, List.mem_append_left _ inside, same⟩
  · obtain ⟨x, inside, same⟩ := second r s late
    exact ⟨x, List.mem_append_right _ inside, same⟩

/-- Steps that are no requests need no reply. -/
theorem cons {x : Step κ σ} (answered : h.AnsweredBy xs) (other : ∀ r s, .request r s ≠ x) :
    History.AnsweredBy (x :: h) xs := by
  intro r s member
  rcases List.mem_cons.mp member with here | member
  · exact absurd here (other r s)
  · exact answered r s member

theorem change (answered : h.AnsweredBy xs) (s t : Scene κ) :
    History.AnsweredBy (.change s t :: h) xs := answered.cons fun _ _ same => by cases same

theorem answer (answered : h.AnsweredBy xs) (c : Call κ) (before : World κ σ) (a : c.Answer)
    (after : World κ σ) : History.AnsweredBy (.answer c before a after :: h) xs :=
  answered.cons fun _ _ same => by cases same

end History.AnsweredBy

section Answered
variable {env : Environment κ σ} {fuel : Nat}
  (calls : ∀ c w, (env.answer fuel c w).isSome = true →
    History.AnsweredBy (env.trace fuel c w).steps (env.repliesWithin fuel c w))
include calls

theorem Act.answered_by_replies (m : Act κ α) (w : World κ σ)
    (ended : (m.run (env.answer fuel) w).isSome = true) :
    History.AnsweredBy (m.trace (env.trace fuel) w).steps
      (m.replies (env.answer fuel) (env.repliesWithin fuel) w) := by
  induction m generalizing w with
  | done a => exact .nil
  | read next ih => exact ih _ _ ended
  | put s next ih =>
    rw [trace, replies]
    exact (ih _ ended).change _ _
  | call c next ih =>
    rw [run] at ended
    rw [trace, replies]
    cases answered : env.answer fuel c w with
    | none =>
      rw [answered] at ended
      cases ended
    | some r =>
      rw [answered] at ended
      rw [Trace.andThen, env.result_trace, answered]
      refine (calls c w (by rw [answered]; rfl)).append ?_
      exact (ih r.1 r.2 ended).answer _ _ _ _

theorem Script.answered_by_replies (m : Script κ σ α) (w : World κ σ)
    (ended : (m.run (env.answer fuel) w).isSome = true) :
    History.AnsweredBy (m.trace (env.trace fuel) w).steps
      (m.replies (env.answer fuel) (env.repliesWithin fuel) w) := by
  induction m generalizing w with
  | done a => exact .nil
  | look next ih => exact ih _ _ _ ended
  | keep store next ih => exact ih _ ended
  | ask r next ih =>
    have same := Act.result_trace (env.trace fuel) r.act w
    simp only [env.result_trace] at same
    rw [run] at ended
    rw [trace, replies]
    cases ran : r.act.run (env.answer fuel) w with
    | none =>
      rw [ran] at ended
      cases ended
    | some a =>
      rw [ran] at ended
      rw [Trace.andThen, same, ran]
      have inner := Act.answered_by_replies calls r.act w (by rw [ran]; rfl)
      have later := ih a.1 a.2 ended
      intro q s member
      rcases List.mem_cons.mp member with here | member
      · cases here
        exact ⟨⟨r, w, a.1, a.2⟩, List.mem_append_right _ List.mem_cons_self, rfl, rfl⟩
      · refine inner.append (fun q s there => ?_) q s member
        obtain ⟨x, inside, given⟩ := later q s there
        exact ⟨x, List.mem_cons_of_mem _ inside, given⟩

end Answered

theorem Environment.answered_by_repliesWithin (env : Environment κ σ) (fuel : Nat) (c : Call κ)
    (w : World κ σ) (ended : (env.answer fuel c w).isSome = true) :
    History.AnsweredBy (env.trace fuel c w).steps (env.repliesWithin fuel c w) := by
  induction fuel generalizing c w with
  | zero => cases ended
  | succ fuel ih =>
    cases c with
    | callback k o => exact Script.answered_by_replies ih _ w ended
    | apply f arguments => exact .nil
    | _ => exact Act.answered_by_replies ih _ w ended

/-- In a run that has come to its end nobody is left without an answer. -/
theorem Environment.replies_complete (env : Environment κ σ) {fuel : Nat} {m : Script κ σ α}
    {w : World κ σ} (ended : (env.play fuel m w).isSome = true) :
    History.AnsweredBy (env.record fuel m w).steps (env.replies fuel m w) :=
  Script.answered_by_replies (env.answered_by_repliesWithin fuel) m w ended

def placing : Script Empty Unit Unit := do
  let x ← Script.request (.createElement "p")
  Script.request (.appendChild Document.root x)

theorem replies_complete_placing :
    (silent.replies 5 placing ⟨.ofConfig {} none, ()⟩).length = 2 ∧
      (silent.play 5 placing ⟨.ofConfig {} none, ()⟩).isSome = true ∧
      History.AnsweredBy (silent.record 5 placing ⟨.ofConfig {} none, ()⟩).steps
        (silent.replies 5 placing ⟨.ofConfig {} none, ()⟩) := by
  have ended : (silent.play 5 placing ⟨.ofConfig {} none, ()⟩).isSome = true := by decide +kernel
  exact ⟨by decide +kernel, ended, silent.replies_complete ended⟩

end LiveTree
