import LiveTree.Proofs.Contract.Rules

/-! Runs that end. Contracts say what holds of a run if it ends; here calls are answered for certain,
and so an act or a script that makes only such calls comes to its end. Beside it the number of writes
is counted that are under way at once. -/
namespace LiveTree
variable {κ σ α : Type}

section Fuel
variable {answer answer' : (c : Call κ) → World κ σ → Option (c.Answer × World κ σ)}

theorem Act.run_mono (more : ∀ c w x, answer c w = some x → answer' c w = some x) (m : Act κ α)
    {w : World κ σ} {x : α × World κ σ} (ran : m.run answer w = some x) :
    m.run answer' w = some x := by
  induction m generalizing w with
  | done a => exact ran
  | read next ih => exact ih _ ran
  | put s next ih => exact ih ran
  | call c next ih =>
    simp only [run] at ran ⊢
    cases answered : answer c w with
    | none => simp [answered] at ran
    | some r =>
      rw [more c w r answered]
      rw [answered] at ran
      exact ih r.1 ran

theorem Script.run_mono (more : ∀ c w x, answer c w = some x → answer' c w = some x)
    (m : Script κ σ α) {w : World κ σ} {x : α × World κ σ} (ran : m.run answer w = some x) :
    m.run answer' w = some x := by
  induction m generalizing w with
  | done a => exact ran
  | look next ih => exact ih _ _ ran
  | keep store next ih => exact ih ran
  | ask r next ih =>
    simp only [run] at ran ⊢
    cases asked : r.act.run answer w with
    | none => simp [asked] at ran
    | some y =>
      rw [r.act.run_mono more asked]
      rw [asked] at ran
      exact ih y.1 ran

end Fuel

theorem Environment.answer_succ (env : Environment κ σ) (fuel : Nat) (c : Call κ) {w : World κ σ}
    {x : c.Answer × World κ σ} (answered : env.answer fuel c w = some x) :
    env.answer (fuel + 1) c w = some x := by
  induction fuel generalizing c w with
  | zero => cases answered
  | succ fuel ih =>
    have more (c : Call κ) (w : World κ σ) x (here : env.answer fuel c w = some x) :
        env.answer (fuel + 1) c w = some x := ih c here
    cases c with
    | callback k o => exact Script.run_mono more _ answered
    | apply f arguments => exact answered
    | _ => exact Act.run_mono more _ answered

/-- More fuel does not change an answer. -/
theorem Environment.answer_mono (env : Environment κ σ) {fuel more : Nat} (le : fuel ≤ more)
    (c : Call κ) {w : World κ σ} {x : c.Answer × World κ σ}
    (answered : env.answer fuel c w = some x) : env.answer more c w = some x := by
  induction le with
  | refl => exact answered
  | step _ ih => exact env.answer_succ _ c ih

def Scene.admits (s : Scene κ) (id : ComponentId) (name : String) : Bool :=
  (s.component? id).any fun c =>
    (c.schema.get? name).isSome && (Keyed.get? c.slots name).any (!·.busy)

def Act.nesting (answer : (c : Call κ) → World κ σ → Option (c.Answer × World κ σ))
    (inner : Call κ → World κ σ → Nat) : Act κ α → World κ σ → Nat
  | done _, _ => 0
  | read next, w => (next w.scene).nesting answer inner w
  | put s next, w => next.nesting answer inner { w with scene := s }
  | call c next, w => max (inner c w) <|
    match answer c w with
    | some (a, w) => (next a).nesting answer inner w
    | none => 0

def Script.nesting (answer : (c : Call κ) → World κ σ → Option (c.Answer × World κ σ))
    (inner : Call κ → World κ σ → Nat) : Script κ σ α → World κ σ → Nat
  | done _, _ => 0
  | look next, w => (next w.scene w.store).nesting answer inner w
  | keep store next, w => next.nesting answer inner { w with store := store }
  | ask r next, w => max (r.act.nesting answer inner w) <|
    match r.act.run answer w with
    | some (a, w) => (next a).nesting answer inner w
    | none => 0

/-- The largest number of writes that are under way at once while a call is answered, itself
included, those that are discarded not. -/
def Environment.nesting (env : Environment κ σ) : (fuel : Nat) → Call κ → World κ σ → Nat
  | 0, _, _ => 0
  | fuel + 1, c, w =>
    match c with
    | .write id name v origin => (if w.scene.admits id name then 1 else 0) +
      (Act.write id name v origin).nesting (env.answer fuel) (env.nesting fuel) w
    | .connect id => (Act.connect id).nesting (env.answer fuel) (env.nesting fuel) w
    | .release id => (Act.release id).nesting (env.answer fuel) (env.nesting fuel) w
    | .service s id arguments =>
      (Act.service s id arguments).nesting (env.answer fuel) (env.nesting fuel) w
    | .deliver x e => (Act.deliver x e).nesting (env.answer fuel) (env.nesting fuel) w
    | .callback k o => (env.script k o).nesting (env.answer fuel) (env.nesting fuel) w
    | .apply .. => 0

namespace Contract
variable {K : Contract κ σ} {n : Nat} {total : Prop}

/-- What is known of the answers to the calls that a contract admits: they keep it, they are given if
it holds that all are, and at most so many writes are under way meanwhile. -/
structure Served (K : Contract κ σ)
    (answer : (c : Call κ) → World κ σ → Option (c.Answer × World κ σ))
    (inner : Call κ → World κ σ → Nat) (n : Nat) (total : Prop) : Prop where
  kept : ∀ c p a w, K.before c p → answer c p.world = some (a, w) → K.after c p a ⟨p.past, w⟩
  ends : total → ∀ c p, K.before c p → (answer c p.world).isSome = true
  bound : ∀ c p, K.before c p → inner c p.world ≤ n

structure Serves (Q : α → Point κ σ → Prop) (r : Option (α × World κ σ)) (depth n : Nat)
    (total : Prop) : Prop where
  kept : ∀ a w, r = some (a, w) → ∃ past, Q a ⟨past, w⟩
  ends : total → r.isSome = true
  bound : depth ≤ n

theorem Serves.imp {Q Q' : α → Point κ σ → Prop} {r : Option (α × World κ σ)} {depth : Nat}
    {total' : Prop} (serves : Serves Q r depth n total) (weaker : ∀ a q, Q a q → Q' a q)
    (enough : total' → total) : Serves Q' r depth n total' where
  kept a w same := by
    obtain ⟨past, here⟩ := serves.kept a w same
    exact ⟨past, weaker a _ here⟩
  ends all := serves.ends (enough all)
  bound := serves.bound

def unwatched (K : Contract κ σ) : Contract κ σ := { K with safe := fun _ _ => True }

theorem Served.unwatched {answer : (c : Call κ) → World κ σ → Option (c.Answer × World κ σ)}
    {inner : Call κ → World κ σ → Nat} (served : K.Served answer inner n total) :
    K.unwatched.Served answer inner n total := ⟨served.kept, served.ends, served.bound⟩

end Contract

section Serving
variable {K : Contract κ σ} {n : Nat} {total : Prop}
  {answer : (c : Call κ) → World κ σ → Option (c.Answer × World κ σ)}
  {inner : Call κ → World κ σ → Nat} {Q : α → Point κ σ → Prop}

theorem Act.wp_unwatched (m : Act κ α) {p : Point κ σ} (pre : m.wp K Q p) :
    m.wp K.unwatched Q p := by
  induction m generalizing p with
  | done a => exact pre
  | read next ih => exact ih _ pre
  | put s next ih => exact ⟨trivial, fun given => ih (pre.2 given)⟩
  | call c next ih =>
    exact ⟨pre.1, fun a q after => ⟨trivial, fun given => ih a ((pre.2 a q after).2 given)⟩⟩

variable (served : K.Served answer inner n total) (given : ∀ past x, K.given past x)
include served given

theorem Act.serves (m : Act κ α) {p : Point κ σ} (pre : m.wp K Q p) :
    Contract.Serves Q (m.run answer p.world) (m.nesting answer inner p.world) n total := by
  induction m generalizing p with
  | done a =>
    refine ⟨?_, fun _ => rfl, Nat.zero_le n⟩
    intro b w same
    cases same
    exact ⟨p.past, pre⟩
  | read next ih => exact ih _ pre
  | put s next ih => exact ih (pre.2 (given _ _))
  | call c next ih =>
    obtain ⟨ready, rest⟩ := pre
    have here := served.bound c p ready
    simp only [run, Act.nesting]
    cases answered : answer c p.world with
    | none =>
      refine ⟨fun _ _ same => (by cases same), ?_, by simpa using here⟩
      intro all
      have some := served.ends all c p ready
      rw [answered] at some
      cases some
    | some r =>
      obtain ⟨a, w⟩ := r
      have after := served.kept c p a w ready answered
      obtain ⟨kept, ends, later⟩ := ih a ((rest a ⟨p.past, w⟩ after).2 (given _ _))
      exact ⟨kept, ends, Nat.max_le.mpr ⟨here, later⟩⟩

theorem Script.serves (m : Script κ σ α) {p : Point κ σ} (pre : m.wp K Q p) :
    Contract.Serves Q (m.run answer p.world) (m.nesting answer inner p.world) n total := by
  induction m generalizing p with
  | done a =>
    refine ⟨?_, fun _ => rfl, Nat.zero_le n⟩
    intro b w same
    cases same
    exact ⟨p.past, pre⟩
  | look next ih => exact ih _ _ pre
  | keep store next ih => exact ih (p := p.keep store) pre
  | ask r next ih =>
    have asked : Contract.Serves _ (r.act.run answer p.world)
        (r.act.nesting answer inner p.world) n total :=
      Act.serves served given (p := p.request r) r.act (pre.2 (given _ _))
    obtain ⟨kept, ends, here⟩ := asked
    simp only [run, Script.nesting]
    cases ran : r.act.run answer p.world with
    | none =>
      refine ⟨fun _ _ same => (by cases same), ?_, by simpa using here⟩
      intro all
      have some := ends all
      rw [ran] at some
      cases some
    | some x =>
      obtain ⟨a, w⟩ := x
      obtain ⟨past, rest⟩ := kept a w ran
      obtain ⟨kept', ends', later⟩ := ih a rest
      exact ⟨kept', ends', Nat.max_le.mpr ⟨here, later⟩⟩

end Serving
end LiveTree
