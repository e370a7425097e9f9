import LiveTree.Proofs.Contract.Invariant

/-! Conditions on the points of a run. An invariant looks at one scene at a time; a condition on
points may look back at the steps that led there. If changes, requests and answers keep it, so does
every run. With it one relation between scenes goes over from single changes to whole runs. -/
namespace LiveTree
variable {κ σ α : Type}

def Preserving (given safe : History κ σ → Step κ σ → Prop) (I : Point κ σ → Prop) :
    Contract κ σ where
  given := given
  safe := safe
  before _ p := I p
  after _ _ _ q := I q

namespace Preserving
variable {given safe : History κ σ → Step κ σ → Prop} {I : Point κ σ → Prop}
  (change : ∀ F q t, I q → q.scene.Alike F t →
    (Preserving given safe I).Takes q.past (.change q.scene t) (I (q.change t)))
  (answer : ∀ (c : Call κ) p a q, I p → I q →
    (Preserving given safe I).Takes q.past (.answer c p.world a q.world) (I (q.answered c p.world a)))
include change answer

theorem wp_act {F : List Field} {C : List Call.Kind} {m : Act κ α} (touches : m.Touches F C)
    {p : Point κ σ} (start : I p) : m.wp (Preserving given safe I) (fun _ q => I q) p :=
  Act.wp_of_within (fun q t here alike => change F q t here alike)
    (fun c q here _ => ⟨here, fun a r later => answer c q a r here later⟩) start (touches p.scene)

variable (keep : ∀ q store, I q → I (q.keep store))
  (request : ∀ (r : Request κ) q, I q → (Preserving given safe I).Takes q.past (.request r q.scene)
    (r.act.wp (Preserving given safe I) (fun _ s => I s) (q.request r)))
include keep request

theorem meets (env : Environment κ σ) : env.Meets (Preserving given safe I) := by
  intro c p here
  cases c with
  | write id name v origin => exact wp_act change answer (.write id name v origin) here
  | connect id => exact wp_act change answer (.connect id) here
  | release id => exact wp_act change answer (.release id) here
  | service s id arguments => exact wp_act change answer (.service s id arguments) here
  | deliver x e => exact wp_act change answer (.deliver x e) here
  | callback k o => exact Script.wp_of_requests keep request _ here
  | apply f arguments => exact keep p _ here

theorem record_fulfils (env : Environment κ σ) (fuel : Nat) (m : Script κ σ α) {p : Point κ σ}
    (start : I p) : (Preserving given safe I).Fulfils p (env.record fuel m p.world) fun _ q => I q :=
  Environment.record_fulfils (meets change answer keep request env) fuel m
    (Script.wp_of_requests keep request m start)

theorem act_fulfils (env : Environment κ σ) (fuel : Nat) {F : List Field} {C : List Call.Kind}
    {m : Act κ α} (touches : m.Touches F C) {p : Point κ σ} (start : I p) :
    (Preserving given safe I).Fulfils p (m.trace (env.trace fuel) p.world) fun _ q => I q :=
  Act.fulfils (Environment.meets (meets change answer keep request env) fuel) m
    (wp_act change answer touches start)

end Preserving

def Step.Keeps (R : Scene κ → Scene κ → Prop) : Step κ σ → Prop
  | .change s t => R s t
  | _ => True

instance Step.Keeps.decidable {R : Scene κ → Scene κ → Prop} [∀ s t, Decidable (R s t)] :
    (x : Step κ σ) → Decidable (x.Keeps R)
  | .change s t => inferInstanceAs (Decidable (R s t))
  | .request .. | .answer .. => isTrue trivial

/-- What goes along with every footprint holds of every change in the course of a call. -/
theorem Environment.trace_keeps {R : Scene κ → Scene κ → Prop} [IsPreorder (Scene κ) R]
    (follows : ∀ F s t, s.Alike F t → R s t) (env : Environment κ σ) (fuel : Nat) (c : Call κ)
    (w : World κ σ) : ∀ x ∈ (env.trace fuel c w).steps, x.Keeps R := by
  have both (F : List Field) (s t : Scene κ) (alike : s.Alike F t) : R s t ∧ R s t :=
    ⟨follows F s t alike, follows F s t alike⟩
  intro x step
  cases x with
  | change s t =>
    exact env.trace_changes (Call.leads_of_alike both)
      (fun r => (Act.Touches.request r).leads both) step
  | request r s => trivial
  | answer c before a after => trivial

/-- The contract under which every scene that is met is related to a first one, provided that every
change leads to a related scene. -/
def Ordering (σ : Type) (R : Scene κ → Scene κ → Prop) (s : Scene κ) : Contract κ σ :=
  Preserving (fun _ x => x.Keeps R) (fun _ x => x.Keeps R → ∀ t ∈ x.scenes, R s t)
    fun p => R s p.scene

namespace Ordering
variable {R : Scene κ → Scene κ → Prop} [IsPreorder (Scene κ) R] {s : Scene κ}

theorem change (F : List Field) (q : Point κ σ) (t : Scene κ) (since : R s q.scene)
    (_ : q.scene.Alike F t) :
    (Ordering σ R s).Takes q.past (.change q.scene t) (R s (q.change t).scene) := by
  refine ⟨fun step u met => ?_, fun step => IsTrans.trans _ _ _ since step⟩
  rcases List.mem_pair.mp met with rfl | rfl
  · exact since
  · exact IsTrans.trans _ _ _ since step

omit [IsPreorder (Scene κ) R] in
theorem answer (c : Call κ) (p : Point κ σ) (a : c.Answer) (q : Point κ σ) (before : R s p.scene)
    (after : R s q.scene) : (Ordering σ R s).Takes q.past (.answer c p.world a q.world)
      (R s (q.answered c p.world a).scene) := by
  refine ⟨fun _ u met => ?_, fun _ => after⟩
  rcases List.mem_pair.mp met with rfl | rfl
  · exact before
  · exact after

theorem request (r : Request κ) (q : Point κ σ) (since : R s q.scene) :
    (Ordering σ R s).Takes q.past (.request r q.scene)
      (r.act.wp (Ordering σ R s) (fun _ p => R s p.scene) (q.request r)) := by
  refine ⟨fun _ u met => ?_, fun _ => Preserving.wp_act change answer (.request r) since⟩
  rw [List.mem_singleton.mp met]
  exact since

end Ordering

/-- If in the course of an act every change leads to a related scene, every scene that is met is
related to the first one, and so is the last. -/
theorem Environment.trace_leads {R : Scene κ → Scene κ → Prop} [IsPreorder (Scene κ) R]
    (env : Environment κ σ) (fuel : Nat) {F : List Field} {C : List Call.Kind} {m : Act κ α}
    (touches : m.Touches F C) {w : World κ σ}
    (keeps : ∀ x ∈ (m.trace (env.trace fuel) w).steps, x.Keeps R) :
    (∀ x ∈ (m.trace (env.trace fuel) w).steps, ∀ t ∈ x.scenes, R w.scene t) ∧
      ∀ a v, (m.trace (env.trace fuel) w).result = some (a, v) → R w.scene v.scene := by
  have kept := Preserving.act_fulfils (Ordering.change (R := R) (s := w.scene)) Ordering.answer
    (fun _ _ since => since) Ordering.request env fuel touches (p := ⟨[], w⟩)
    (Std.Refl.refl w.scene)
  obtain ⟨safe, ends⟩ := kept (Along.iff_splits.mpr fun front x back same =>
    keeps x (by rw [same]; simp))
  refine ⟨fun x step => ?_, ends⟩
  obtain ⟨front, back, same⟩ := List.append_of_mem step
  exact Along.iff_splits.mp safe front x back same (keeps x step)

/-- The same of a run from outside. -/
theorem Environment.record_leads {R : Scene κ → Scene κ → Prop} [IsPreorder (Scene κ) R]
    (env : Environment κ σ) (fuel : Nat) (m : Script κ σ α) {w : World κ σ}
    (keeps : ∀ x ∈ (env.record fuel m w).steps, x.Keeps R) :
    ∀ x ∈ (env.record fuel m w).steps, ∀ t ∈ x.scenes, R w.scene t := by
  have kept := Preserving.record_fulfils (Ordering.change (R := R) (s := w.scene)) Ordering.answer
    (fun _ _ since => since) Ordering.request env fuel m (p := ⟨[], w⟩) (Std.Refl.refl w.scene)
  obtain ⟨safe, -⟩ := kept (Along.iff_splits.mpr fun front x back same => keeps x (by rw [same]; simp))
  intro x step
  obtain ⟨front, back, same⟩ := List.append_of_mem step
  exact Along.iff_splits.mp safe front x back same (keeps x step)

/-- What holds at the start of a run and goes over with every change holds of every scene that is met. -/
theorem Environment.record_scenes {I : Scene κ → Prop} (env : Environment κ σ) {fuel : Nat}
    {m : Script κ σ α} {w : World κ σ} (start : I w.scene)
    (changes : ∀ s t, .change s t ∈ (env.record fuel m w).steps → I s → I t)
    {x : Step κ σ} (step : x ∈ (env.record fuel m w).steps) {t : Scene κ} (met : t ∈ x.scenes) : I t := by
  have : IsPreorder (Scene κ) fun s t => I s → I t :=
    { refl := fun _ here => here, trans := fun _ _ _ first second here => second (first here) }
  refine env.record_leads (R := fun s t => I s → I t) fuel m (fun y inside => ?_) x step t met start
  cases y with
  | change s t => exact changes s t inside
  | request r s => trivial
  | answer c before a after => trivial

end LiveTree
