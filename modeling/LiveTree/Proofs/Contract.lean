import LiveTree.Proofs.History

/-! Contracts: what a call may rely on and what it gives back, and what has to hold of every step
of a run. `Act.wp` computes from a contract what an act needs to end in a given condition. If the
body of each call meets the contract, so does every run (`Environment.meets`): consumer code may
come back to the tree as deep as it likes, the induction is on the fuel and done here once. -/
namespace LiveTree

/-- A run under way: the steps taken so far, and the world they led to. -/
structure Point (κ σ : Type) where
  past : History κ σ
  world : World κ σ

namespace Point
variable {κ σ : Type}

def scene (p : Point κ σ) : Scene κ := p.world.scene

def change (p : Point κ σ) (s : Scene κ) : Point κ σ :=
  ⟨p.past ++ [.change p.scene s], { p.world with scene := s }⟩

def request (p : Point κ σ) (r : Request κ) : Point κ σ := ⟨p.past ++ [.request r p.scene], p.world⟩

def keep (p : Point κ σ) (store : σ) : Point κ σ := ⟨p.past, { p.world with store := store }⟩

def answered (p : Point κ σ) (c : Call κ) (before : World κ σ) (a : c.Answer) : Point κ σ :=
  ⟨p.past ++ [.answer c before a p.world], p.world⟩

def ahead (p : Point κ σ) (steps : History κ σ) (w : World κ σ) : Point κ σ := ⟨p.past ++ steps, w⟩

@[simp] theorem scene_change (p : Point κ σ) (s : Scene κ) : (p.change s).scene = s := rfl

@[simp] theorem scene_request (p : Point κ σ) (r : Request κ) : (p.request r).scene = p.scene := rfl

@[simp] theorem scene_keep (p : Point κ σ) (store : σ) : (p.keep store).scene = p.scene := rfl

@[simp] theorem scene_answered (p : Point κ σ) (c : Call κ) (w : World κ σ) (a : c.Answer) :
    (p.answered c w a).scene = p.scene := rfl

end Point

def Along {κ σ : Type} (P : History κ σ → Step κ σ → Prop) (past : History κ σ) :
    History κ σ → Prop
  | [] => True
  | x :: rest => P past x ∧ Along P (past ++ [x]) rest

instance Along.decidable {κ σ : Type} {P : History κ σ → Step κ σ → Prop}
    [∀ past x, Decidable (P past x)] (past : History κ σ) :
    (h : History κ σ) → Decidable (Along P past h)
  | [] => isTrue trivial
  | x :: rest =>
    have := Along.decidable (P := P) (past ++ [x]) rest
    inferInstanceAs (Decidable (P past x ∧ Along P (past ++ [x]) rest))

namespace Along
variable {κ σ : Type} {P : History κ σ → Step κ σ → Prop} {past h k : History κ σ} {x : Step κ σ}

theorem append : Along P past (h ++ k) ↔ Along P past h ∧ Along P (past ++ h) k := by
  induction h generalizing past with
  | nil => simp [Along]
  | cons x rest ih => simp only [List.cons_append, Along, ih, and_assoc, List.append_assoc,
      List.nil_append]

theorem at_step (along : Along P past (h ++ x :: k)) : P (past ++ h) x := (append.mp along).2.1

theorem iff_splits :
    Along P past h ↔ ∀ front x back, h = front ++ x :: back → P (past ++ front) x := by
  refine ⟨fun along front x back same => at_step (same ▸ along), fun each => ?_⟩
  induction h generalizing past with
  | nil => trivial
  | cons x rest ih =>
    refine ⟨by simpa using each [] x rest rfl, ih fun front y back same => ?_⟩
    simpa using each (x :: front) y back (by rw [same]; rfl)

/-- What each step has to do with all that lie before it, any two steps have to do with each other. -/
theorem pairwise {R : Step κ σ → Step κ σ → Prop} (along : Along (fun past x => ∀ y ∈ past, R y x) past h) :
    h.Pairwise R := by
  induction h generalizing past with
  | nil => exact .nil
  | cons x rest ih =>
    refine List.pairwise_cons.mpr ⟨fun y inside => ?_, ih along.2⟩
    obtain ⟨front, back, rfl⟩ := List.append_of_mem inside
    exact at_step along.2 x (by simp)

end Along

structure Contract (κ σ : Type) where
  /-- What is taken for granted of the steps of a run. -/
  given : History κ σ → Step κ σ → Prop
  /-- What is to be shown of them. -/
  safe : History κ σ → Step κ σ → Prop
  before : Call κ → Point κ σ → Prop
  after : (c : Call κ) → Point κ σ → c.Answer → Point κ σ → Prop

namespace Contract
variable {κ σ : Type}

def Takes (K : Contract κ σ) (past : History κ σ) (x : Step κ σ) (Q : Prop) : Prop :=
  K.safe past x ∧ (K.given past x → Q)

theorem Takes.imp {K : Contract κ σ} {past : History κ σ} {x : Step κ σ} {Q R : Prop}
    (taken : K.Takes past x Q) (weaker : Q → R) : K.Takes past x R :=
  ⟨taken.1, fun fine => weaker (taken.2 fine)⟩

def Fulfils {α : Type} (K : Contract κ σ) (p : Point κ σ) (t : Trace κ σ α)
    (Q : α → Point κ σ → Prop) : Prop :=
  Along K.given p.past t.steps →
    Along K.safe p.past t.steps ∧ ∀ a w, t.result = some (a, w) → Q a (p.ahead t.steps w)

variable {α β : Type} {K : Contract κ σ} {p : Point κ σ}

theorem fulfils_done {Q : α → Point κ σ → Prop} {a : α} (here : Q a p) :
    K.Fulfils p ⟨[], some (a, p.world)⟩ Q := by
  refine fun _ => ⟨trivial, fun b w same => ?_⟩
  cases same
  simpa [Point.ahead] using here

theorem fulfils_after {t : Trace κ σ α} {Q : α → Point κ σ → Prop} {x : Step κ σ} {w : World κ σ}
    (taken : K.Takes p.past x (K.Fulfils ⟨p.past ++ [x], w⟩ t Q)) :
    K.Fulfils p (t.after [x]) Q := by
  intro fine
  obtain ⟨safe, rest⟩ := taken
  obtain ⟨steps, ends⟩ := rest fine.1 fine.2
  refine ⟨⟨safe, steps⟩, fun a v same => ?_⟩
  simpa [Point.ahead, Trace.after] using ends a v same

theorem fulfils_andThen {t : Trace κ σ α} {next : α → World κ σ → Trace κ σ β}
    {R : α → Point κ σ → Prop} {Q : β → Point κ σ → Prop} (first : K.Fulfils p t R)
    (second : ∀ a q, R a q → K.Fulfils q (next a q.world) Q) : K.Fulfils p (t.andThen next) Q := by
  intro fine
  unfold Trace.andThen at fine ⊢
  cases ended : t.result with
  | none =>
    simp only [ended] at fine ⊢
    exact ⟨(first fine).1, nofun⟩
  | some r =>
    obtain ⟨a, w⟩ := r
    simp only [ended, Trace.after] at fine ⊢
    obtain ⟨early, late⟩ := Along.append.mp fine
    obtain ⟨safe, reached⟩ := first early
    obtain ⟨more, ends⟩ := second a _ (reached a w ended) late
    refine ⟨Along.append.mpr ⟨safe, more⟩, fun b v same => ?_⟩
    simpa [Point.ahead] using ends b v same

def answering (K : Contract κ σ) (answer : (c : Call κ) → World κ σ → Option (c.Answer × World κ σ)) :
    Contract κ σ :=
  { K with after := fun c p a q => K.after c p a q ∧ answer c p.world = some (a, q.world) }

theorem fulfils_answering {t : Trace κ σ α} {Q : α → Point κ σ → Prop} (kept : K.Fulfils p t Q) :
    K.Fulfils p t fun a q => Q a q ∧ t.result = some (a, q.world) := fun fine =>
  ⟨(kept fine).1, fun a w ended => ⟨(kept fine).2 a w ended, ended⟩⟩

end Contract

/-- What has to hold at a point for an act to keep a contract and end in `Q`. -/
def Act.wp {κ σ α : Type} (K : Contract κ σ) :
    Act κ α → (α → Point κ σ → Prop) → Point κ σ → Prop
  | done a, Q, p => Q a p
  | read next, Q, p => (next p.scene).wp K Q p
  | put s next, Q, p => K.Takes p.past (.change p.scene s) (next.wp K Q (p.change s))
  | call c next, Q, p => K.before c p ∧ ∀ a q, K.after c p a q →
    K.Takes q.past (.answer c p.world a q.world) ((next a).wp K Q (q.answered c p.world a))

def Script.wp {κ σ α : Type} (K : Contract κ σ) :
    Script κ σ α → (α → Point κ σ → Prop) → Point κ σ → Prop
  | done a, Q, p => Q a p
  | look next, Q, p => (next p.scene p.world.store).wp K Q p
  | keep store next, Q, p => next.wp K Q (p.keep store)
  | ask r next, Q, p => K.Takes p.past (.request r p.scene)
    (r.act.wp K (fun a q => (next a).wp K Q q) (p.request r))

def Environment.wp {κ σ : Type} (env : Environment κ σ) (K : Contract κ σ) :
    (c : Call κ) → (c.Answer → Point κ σ → Prop) → Point κ σ → Prop
  | .write id property v origin, Q, p => (Act.write id property v origin).wp K Q p
  | .connect id, Q, p => (Act.connect id).wp K Q p
  | .release id, Q, p => (Act.release id).wp K Q p
  | .service s id arguments, Q, p => (Act.service s id arguments).wp K Q p
  | .deliver x e, Q, p => (Act.deliver x e).wp K Q p
  | .callback k o, Q, p => (env.script k o).wp K Q p
  | .apply f arguments, Q, p =>
    let r := env.apply f arguments p.world.store
    Q r.1 (p.keep r.2)

/-- Every call that may be made keeps the contract. -/
def Environment.Meets {κ σ : Type} (env : Environment κ σ) (K : Contract κ σ) : Prop :=
  ∀ c p, K.before c p → env.wp K c (K.after c p) p

section Soundness
variable {κ σ α : Type} {K : Contract κ σ}

theorem Act.fulfils {answer : (c : Call κ) → World κ σ → Trace κ σ c.Answer}
    (calls : ∀ c p, K.before c p → K.Fulfils p (answer c p.world) (K.after c p))
    (m : Act κ α) {Q : α → Point κ σ → Prop} {p : Point κ σ} (pre : m.wp K Q p) :
    K.Fulfils p (m.trace answer p.world) Q := by
  induction m generalizing p with
  | done a => exact Contract.fulfils_done pre
  | read next ih => exact ih _ pre
  | put s next ih => exact Contract.fulfils_after (pre.imp ih)
  | call c next ih =>
    exact Contract.fulfils_andThen (calls c p pre.1) fun a q reached =>
      Contract.fulfils_after ((pre.2 a q reached).imp (ih a))

theorem Script.fulfils {answer : (c : Call κ) → World κ σ → Trace κ σ c.Answer}
    (calls : ∀ c p, K.before c p → K.Fulfils p (answer c p.world) (K.after c p))
    (m : Script κ σ α) {Q : α → Point κ σ → Prop} {p : Point κ σ} (pre : m.wp K Q p) :
    K.Fulfils p (m.trace answer p.world) Q := by
  induction m generalizing p with
  | done a => exact Contract.fulfils_done pre
  | look next ih => exact ih _ _ pre
  | keep store next ih => exact ih (p := p.keep store) pre
  | ask r next ih =>
    exact Contract.fulfils_after (pre.imp fun act =>
      Contract.fulfils_andThen (Act.fulfils calls r.act act) fun a q rest => ih a rest)

/-- If the bodies of calls keep a contract, the runs of calls do. -/
theorem Environment.meets {env : Environment κ σ} (sound : env.Meets K) (fuel : Nat) (c : Call κ)
    (p : Point κ σ) (pre : K.before c p) : K.Fulfils p (env.trace fuel c p.world) (K.after c p) := by
  induction fuel generalizing c p with
  | zero => exact fun _ => ⟨trivial, nofun⟩
  | succ fuel ih =>
    have body := sound c p pre
    cases c with
    | callback k o => exact Script.fulfils ih _ body
    | apply f arguments =>
      exact Contract.fulfils_done (Q := K.after (.apply f arguments) p)
        (p := p.keep (env.apply f arguments p.world.store).2) body
    | _ => exact Act.fulfils ih _ body

/-- A call of which more is known than its contract says, and the answers to its own calls with it. -/
theorem Environment.call_fulfils {env : Environment κ σ} (sound : env.Meets K) (fuel : Nat)
    (c : Call κ) {Q : c.Answer → Point κ σ → Prop} {p : Point κ σ}
    (pre : env.wp (K.answering (env.answer fuel)) c Q p) :
    K.Fulfils p (env.trace (fuel + 1) c p.world) Q := by
  have calls (c : Call κ) (p : Point κ σ) (ready : K.before c p) :
      (K.answering (env.answer fuel)).Fulfils p (env.trace fuel c p.world)
        ((K.answering (env.answer fuel)).after c p) := by
    have told := Contract.fulfils_answering (env.meets sound fuel c p ready)
    rwa [env.result_trace] at told
  cases c with
  | callback k o => exact Script.fulfils (K := K.answering (env.answer fuel)) calls _ pre
  | apply f arguments =>
    exact Contract.fulfils_done (p := p.keep (env.apply f arguments p.world.store).2) pre
  | _ => exact Act.fulfils (K := K.answering (env.answer fuel)) calls _ pre

theorem Environment.record_fulfils {env : Environment κ σ} (sound : env.Meets K) (fuel : Nat)
    (m : Script κ σ α) {Q : α → Point κ σ → Prop} {p : Point κ σ} (pre : m.wp K Q p) :
    K.Fulfils p (env.record fuel m p.world) Q :=
  Script.fulfils (env.meets sound fuel) m pre

end Soundness
end LiveTree
