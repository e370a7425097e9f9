import LiveTree.Proofs.Reachable

/-! Invariants of scenes that hold at every step of every run. What an act needs to know of former
scenes, such as that a type is registered or a property declared, goes along a preorder. Which calls
an act may make can be limited as well. -/
namespace LiveTree
variable {κ σ α β : Type} {I : Scene κ → Prop} {R : Scene κ → Scene κ → Prop} {A : Call κ → Prop}
  {s : Scene κ}

def Step.scenes : Step κ σ → List (Scene κ)
  | .change before after => [before, after]
  | .request _ s => [s]
  | .answer _ before _ after => [before.scene, after.scene]

def Upholding (σ : Type) (I : Scene κ → Prop) (R : Scene κ → Scene κ → Prop) (A : Call κ → Prop) :
    Contract κ σ where
  given _ _ := True
  safe _ x := ∀ t ∈ x.scenes, I t
  before c p := I p.scene ∧ A c
  after _ p _ q := I q.scene ∧ R p.scene q.scene

def Act.Upholds (I : Scene κ → Prop) (R : Scene κ → Scene κ → Prop) (A : Call κ → Prop)
    (s : Scene κ) (m : Act κ α) : Prop :=
  ∀ (σ : Type) (p : Point κ σ), I p.scene → R s p.scene →
    m.wp (Upholding σ I R A) (fun _ q => I q.scene ∧ R s q.scene) p

namespace Upholding
variable {p : Point κ σ}

theorem safe_change {past : History κ σ} {s t : Scene κ} (before : I s) (after : I t) :
    (Upholding σ I R A).safe past (.change s t) := by
  intro u met
  rcases List.mem_pair.mp met with rfl | rfl
  · exact before
  · exact after

theorem takes_change {t : Scene κ} {Q : Prop} (before : I p.scene) (after : I t) (rest : Q) :
    (Upholding σ I R A).Takes p.past (.change p.scene t) Q :=
  ⟨safe_change before after, fun _ => rest⟩

theorem takes_answer {q : Point κ σ} {c : Call κ} {a : c.Answer} {Q : Prop} (before : I p.scene)
    (after : I q.scene) (rest : Q) :
    (Upholding σ I R A).Takes q.past (.answer c p.world a q.world) Q := by
  refine ⟨?_, fun _ => rest⟩
  intro u met
  rcases List.mem_pair.mp met with rfl | rfl
  · exact before
  · exact after

theorem takes_request {r : Request κ} {Q : Prop} (here : I p.scene) (rest : Q) :
    (Upholding σ I R A).Takes p.past (.request r p.scene) Q := by
  refine ⟨?_, fun _ => rest⟩
  intro u met
  rw [List.mem_singleton.mp met]
  exact here

end Upholding

namespace Act.Upholds

theorem pure (a : α) : (Pure.pure a : Act κ α).Upholds I R A s := fun _ _ holds since => ⟨holds, since⟩

theorem bind {m : Act κ β} {f : β → Act κ α} (first : m.Upholds I R A s)
    (second : ∀ b, (f b).Upholds I R A s) : (m >>= f).Upholds I R A s := by
  intro σ p holds since
  apply (wp_bind _ _).mpr
  apply wp_mono _ _ (first σ p holds since)
  intro b q kept
  exact second b σ q kept.1 kept.2

theorem ite {c : Prop} [Decidable c] {m n : Act κ α} (yes : c → m.Upholds I R A s)
    (no : ¬c → n.Upholds I R A s) : (if c then m else n).Upholds I R A s := by
  split
  · next holds => exact yes holds
  · next fails => exact no fails

theorem eachOf {f : β → Act κ Unit} (items : List β) (body : ∀ b ∈ items, (f b).Upholds I R A s) :
    (Act.each items f).Upholds I R A s := by
  induction items with
  | nil => exact pure ()
  | cons b rest ih =>
    exact bind (body b List.mem_cons_self) fun _ => ih fun c inside => body c (List.mem_cons_of_mem _ inside)

theorem each {f : β → Act κ Unit} (items : List β) (body : ∀ b, (f b).Upholds I R A s) :
    (Act.each items f).Upholds I R A s := eachOf items fun b _ => body b

theorem composes : Composes fun {_} (m : Act κ _) => m.Upholds I R A s where
  pure := pure
  scene _ _ holds since := ⟨holds, since⟩
  bind := bind

variable [IsPreorder (Scene κ) R]

/-- What an act does that goes by the scene it finds, next to what was known before. -/
theorem after {m : Act κ α} {p : Point κ σ} (upholds : m.Upholds I R A p.scene) (holds : I p.scene)
    (since : R s p.scene) : m.wp (Upholding σ I R A) (fun _ q => I q.scene ∧ R s q.scene) p := by
  apply wp_mono m _ (upholds σ p holds (Std.Refl.refl _))
  intro _ q kept
  exact ⟨kept.1, IsTrans.trans _ _ _ since kept.2⟩

theorem ask (c : Call κ) (allowed : A c) : (Act.ask c).Upholds I R A s := by
  intro σ p holds since
  refine ⟨⟨holds, allowed⟩, ?_⟩
  intro a q after
  have later : R s q.scene := IsTrans.trans _ _ _ since after.2
  exact Upholding.takes_answer holds after.1 ⟨after.1, later⟩

theorem update {f : Scene κ → Scene κ}
    (change : ∀ t, I t → R s t → I (f t) ∧ R t (f t)) : (Act.update f).Upholds I R A s := by
  intro σ p holds since
  obtain ⟨next, step⟩ := change p.scene holds since
  have later : R s (f p.scene) := IsTrans.trans _ _ _ since step
  exact Upholding.takes_change holds next ⟨next, later⟩

theorem of_within {E : Scene κ → Scene κ → Prop} {C : Call κ → Prop} {m : Act κ α}
    (changes : ∀ t u, I t → E t u → I u ∧ R t u) (calls : ∀ c, C c → A c)
    (within : ∀ t, m.Within E C t) : m.Upholds I R A s := by
  intro σ p holds since
  refine wp_of_within (I := fun q => I q.scene ∧ R s q.scene) ?_ ?_ ⟨holds, since⟩ (within p.scene)
  · intro q t kept here
    obtain ⟨next, step⟩ := changes _ t kept.1 here
    have later : R s t := IsTrans.trans _ _ _ kept.2 step
    exact Upholding.takes_change kept.1 next ⟨next, later⟩
  · intro c q kept kind
    refine ⟨⟨kept.1, calls c kind⟩, ?_⟩
    intro a r after
    have later : R s r.scene := IsTrans.trans _ _ _ kept.2 after.2
    exact Upholding.takes_answer kept.1 after.1 ⟨after.1, later⟩

/-- What is known of the scene that an act looks at is known of a former scene from then on. -/
theorem sceneBind {f : Scene κ → Act κ α} (body : ∀ t, I t → R s t → (f t).Upholds I R A t) :
    (Act.scene >>= f).Upholds I R A s := by
  intro σ p holds since
  exact after (m := f p.scene) (body p.scene holds since) holds since

theorem withComponent {id : ComponentId} {a : α} {f : Component κ → Act κ α}
    (body : ∀ t c, I t → R s t → t.component? id = some c → (f c).Upholds I R A t) :
    (withComponent id a f).Upholds I R A s := by
  refine sceneBind fun t holds since => ?_
  split
  · next c found => exact body t c holds since found
  · exact pure a

end Act.Upholds

def Call.Upholds (I : Scene κ → Prop) (R : Scene κ → Scene κ → Prop) (A : Call κ → Prop)
    (s : Scene κ) : Call κ → Prop
  | .write id property v origin => (Act.write id property v origin).Upholds I R A s
  | .connect id => (Act.connect id).Upholds I R A s
  | .release id => (Act.release id).Upholds I R A s
  | .service x id arguments => (Act.service x id arguments).Upholds I R A s
  | .deliver x e => (Act.deliver x e).Upholds I R A s
  | .callback .. | .apply .. => True

section Runs
variable [IsPreorder (Scene κ) R]
  (requests : ∀ (r : Request κ) s, r.act.Upholds I R (fun _ => True) s)
include requests

theorem Script.wp_upholding (m : Script κ σ α) {p : Point κ σ} (holds : I p.scene) :
    m.wp (Upholding σ I R fun _ => True) (fun _ q => I q.scene ∧ R p.scene q.scene) p := by
  apply wp_of_requests (I := fun q => I q.scene ∧ R p.scene q.scene)
  · intro q store kept
    exact kept
  · intro r q kept
    exact Upholding.takes_request kept.1 (requests r p.scene σ (q.request r) kept.1 kept.2)
  · exact ⟨holds, Std.Refl.refl _⟩

theorem Upholding.meets (calls : ∀ (c : Call κ) s, c.Upholds I R (fun _ => True) s) (env : Environment κ σ) :
    env.Meets (Upholding σ I R fun _ => True) := by
  rintro c p ⟨holds, -⟩
  have here : R p.scene p.scene := Std.Refl.refl _
  cases c with
  | write id name v origin => exact calls (.write id name v origin) p.scene σ p holds here
  | connect id => exact calls (.connect id) p.scene σ p holds here
  | release id => exact calls (.release id) p.scene σ p holds here
  | service x id arguments => exact calls (.service x id arguments) p.scene σ p holds here
  | deliver x e => exact calls (.deliver x e) p.scene σ p holds here
  | callback k o => exact Script.wp_upholding requests _ holds
  | apply f arguments => exact ⟨holds, here⟩

variable (calls : ∀ (c : Call κ) s, c.Upholds I R (fun _ => True) s) (env : Environment κ σ)
include calls

theorem Environment.play_upholds {w w' : World κ σ} (holds : I w.scene) {fuel : Nat}
    {m : Script κ σ α} {a : α} (played : env.play fuel m w = some (a, w')) :
    I w'.scene ∧ R w.scene w'.scene := by
  have kept := Environment.record_fulfils (Upholding.meets requests calls env) fuel m
    (p := ⟨[], w⟩) (Script.wp_upholding requests _ holds)
  have ended : (env.record fuel m w).result = some (a, w') := by rw [env.result_record, played]
  exact (kept (Along.iff_splits.mpr fun _ _ _ _ => trivial)).2 a w' ended

theorem Environment.Reachable.upholds (start : ∀ config journal, I (.ofConfig config journal))
    {w : World κ σ} (reached : env.Reachable w) : I w.scene := by
  induction reached with
  | start config journal store => exact start config journal
  | keep store _ ih => exact ih
  | request r _ asked ih => exact (env.play_upholds requests calls ih asked).1

/-- The invariant holds of whatever scene is met on the way, also in the midst of operations. -/
theorem Environment.record_upholds {w : World κ σ} (holds : I w.scene) (fuel : Nat)
    (m : Script κ σ α) {x : Step κ σ} (step : x ∈ (env.record fuel m w).steps) {t : Scene κ}
    (met : t ∈ x.scenes) : I t := by
  have kept := Environment.record_fulfils (Upholding.meets requests calls env) fuel m
    (p := ⟨[], w⟩) (Script.wp_upholding requests m holds)
  obtain ⟨front, back, same⟩ := List.append_of_mem step
  have safe := (kept (Along.iff_splits.mpr fun _ _ _ _ => trivial)).1
  exact Along.iff_splits.mp safe front x back same t met

/-- It holds between operations, and of the scenes in the midst of one. -/
theorem Environment.Reachable.upholds_met (start : ∀ config journal, I (.ofConfig config journal))
    {w : World κ σ} (reached : env.Reachable w) (fuel : Nat) (m : Script κ σ α) {s : Scene κ}
    (met : s = w.scene ∨ ∃ x ∈ (env.record fuel m w).steps, s ∈ x.scenes) : I s := by
  have holds := reached.upholds requests calls env start
  rcases met with rfl | ⟨x, step, met⟩
  · exact holds
  · exact env.record_upholds requests calls holds fuel m step met

end Runs

/-- What goes over between any two scenes that agree on all but some fields goes over from the start
of a run to every scene that is met. -/
theorem Environment.record_keeps {w : World κ σ} (keeps : ∀ F s t, s.Alike F t → I s → I t)
    (env : Environment κ σ) (holds : I w.scene) {fuel : Nat} {m : Script κ σ α} {x : Step κ σ}
    (step : x ∈ (env.record fuel m w).steps) {t : Scene κ} (met : t ∈ x.scenes) : I t := by
  have : IsPreorder (Scene κ) fun _ _ => True :=
    { refl := fun _ => trivial, trans := fun _ _ _ _ _ => trivial }
  have upholds {α : Type} {F : List Field} {C : List Call.Kind} {m : Act κ α} (s : Scene κ)
      (touches : m.Touches F C) : m.Upholds I (fun _ _ => True) (fun _ => True) s :=
    .of_within (fun _ _ here alike => ⟨keeps F _ _ alike here, trivial⟩)
      (fun _ _ => trivial) touches
  refine env.record_upholds (fun r s => upholds s (.request r)) (fun c s => ?_) holds fuel m
    step met
  cases c with
  | write id name v origin => exact upholds s (.write id name v origin)
  | connect id => exact upholds s (.connect id)
  | release id => exact upholds s (.release id)
  | service x id arguments => exact upholds s (.service x id arguments)
  | deliver x e => exact upholds s (.deliver x e)
  | callback k o => trivial
  | apply f arguments => trivial

end LiveTree
