import Mathlib.Order.Defs.Unbundled
import LiveTree.Proofs.Contract.Composite
import LiveTree.Proofs.Contract.Rules

/-! Relations between scenes along runs: one that every single change has to satisfy, and a preorder
from the start to the end of whatever is done. If the acts of all calls and requests keep to them,
so does every run, however deep consumer code comes back to the tree. -/
namespace LiveTree
variable {κ σ α β : Type} {D R : Scene κ → Scene κ → Prop}

instance : IsPreorder (Scene κ) ⊤ where
  refl _ := trivial
  trans _ _ _ _ _ := trivial

def Leading (σ : Type) (D R : Scene κ → Scene κ → Prop) : Contract κ σ where
  given _ _ := True
  safe _ x := match x with
    | .change s t => D s t
    | _ => True
  before _ _ := True
  after _ p _ q := R p.scene q.scene

def Act.Leads (D R : Scene κ → Scene κ → Prop) (m : Act κ α) : Prop :=
  ∀ (σ : Type) (p : Point κ σ), m.wp (Leading σ D R) (fun _ q => R p.scene q.scene) p

namespace Act.Leads

theorem ask (c : Call κ) : (Act.ask c).Leads D R := fun _ _ =>
  ⟨trivial, fun _ _ kept => ⟨trivial, fun _ => kept⟩⟩

theorem update {f : Scene κ → Scene κ} (change : ∀ s, D s (f s)) (leads : ∀ s, R s (f s)) :
    (Act.update f).Leads D R := fun _ p => ⟨change p.scene, fun _ => leads p.scene⟩

theorem ite {c : Prop} [Decidable c] {m n : Act κ α} (yes : m.Leads D R) (no : n.Leads D R) :
    (if c then m else n).Leads D R := by split <;> assumption

variable [IsPreorder (Scene κ) R]

/-- What an act that leads does next to what was done before. -/
theorem after {m : Act κ α} (leads : m.Leads D R) {s : Scene κ} {p : Point κ σ}
    (before : R s p.scene) : m.wp (Leading σ D R) (fun _ q => R s q.scene) p :=
  wp_mono _ (fun _ _ kept => IsTrans.trans _ _ _ before kept) (leads σ p)

theorem of_within {E : Scene κ → Scene κ → Prop} {C : Call κ → Prop} {m : Act κ α}
    (changes : ∀ s t, E s t → D s t ∧ R s t) (within : ∀ s, m.Within E C s) : m.Leads D R := by
  intro σ p
  refine wp_of_within (I := fun q => R p.scene q.scene) ?_ ?_ (Std.Refl.refl _) (within p.scene)
  · intro q t kept here
    exact ⟨(changes _ t here).1, fun _ => IsTrans.trans _ _ _ kept (changes _ t here).2⟩
  · exact fun c q kept _ => ⟨trivial, fun a r after => ⟨trivial, fun _ =>
      IsTrans.trans _ _ _ kept after⟩⟩

theorem pure (a : α) : (Pure.pure a : Act κ α).Leads D R := fun _ _ => Std.Refl.refl _

theorem scene : (scene : Act κ (Scene κ)).Leads D R := fun _ _ => Std.Refl.refl _

theorem bind {m : Act κ β} {f : β → Act κ α} (first : m.Leads D R)
    (second : ∀ b, (f b).Leads D R) : (m >>= f).Leads D R := fun σ p =>
  (wp_bind _ _).mpr (wp_mono _ (fun b _ kept => (second b).after kept) (first σ p))

theorem each {f : β → Act κ Unit} (items : List β) (body : ∀ b, (f b).Leads D R) :
    (each items f).Leads D R := by
  induction items with
  | nil => exact pure ()
  | cons b rest ih => exact bind (body b) fun _ => ih

theorem withComponent {id : ComponentId} {a : α} {f : Component κ → Act κ α}
    (body : ∀ c, (f c).Leads D R) : (withComponent id a f).Leads D R := fun σ p =>
  wp_withComponent (fun c _ => body c σ p) fun _ => Std.Refl.refl p.scene

theorem composes : Composes fun {_} (m : Act κ _) => m.Leads D R where
  pure := pure
  scene := scene
  bind := bind

end Act.Leads

def Call.Leads (D R : Scene κ → Scene κ → Prop) : Call κ → Prop
  | .write id property v origin => (Act.write id property v origin).Leads D R
  | .connect id => (Act.connect id).Leads D R
  | .release id => (Act.release id).Leads D R
  | .service s id arguments => (Act.service s id arguments).Leads D R
  | .deliver x e => (Act.deliver x e).Leads D R
  | .callback .. | .apply .. => True

/-- What a script needs to end in holds once it has been played. -/
theorem Environment.Meets.play_reaches {env : Environment κ σ} (meets : env.Meets (Leading σ D R))
    {fuel : Nat} {m : Script κ σ α} {w w' : World κ σ} {a : α} {Q : α → Scene κ → Prop}
    (pre : m.wp (Leading σ D R) (fun a q => Q a q.scene) ⟨[], w⟩)
    (played : env.play fuel m w = some (a, w')) : Q a w'.scene := by
  have kept := Environment.record_fulfils meets fuel m pre
  have ended : (env.record fuel m w).result = some (a, w') := by rw [env.result_record, played]
  exact (kept (Along.iff_splits.mpr fun _ _ _ _ => trivial)).2 a w' ended

section Runs
variable [IsPreorder (Scene κ) R]

theorem Script.wp_leading (requests : ∀ r : Request κ, r.act.Leads D R) (m : Script κ σ α)
    (p : Point κ σ) : m.wp (Leading σ D R) (fun _ q => R p.scene q.scene) p :=
  wp_of_requests (I := fun q => R p.scene q.scene) (fun _ _ kept => kept)
    (fun r _ kept => ⟨trivial, fun _ => (requests r).after kept⟩) m (Std.Refl.refl _)

/-- If consumer code leads to related scenes wherever it runs, and so do the acts of the other calls,
all calls do. -/
theorem Leading.meets_of_scripts (calls : ∀ c : Call κ, c.Leads D R) {env : Environment κ σ}
    (scripts : ∀ k o (p : Point κ σ),
      (env.script k o).wp (Leading σ D R) (fun _ q => R p.scene q.scene) p) :
    env.Meets (Leading σ D R) := by
  intro c p _
  cases c with
  | callback k o => exact scripts k o p
  | apply f arguments => exact Std.Refl.refl p.scene
  | write id name v origin => exact calls (.write id name v origin) σ p
  | connect id => exact calls (.connect id) σ p
  | release id => exact calls (.release id) σ p
  | service s id arguments => exact calls (.service s id arguments) σ p
  | deliver x e => exact calls (.deliver x e) σ p

theorem Leading.meets (calls : ∀ c : Call κ, c.Leads D R)
    (requests : ∀ r : Request κ, r.act.Leads D R) (env : Environment κ σ) :
    env.Meets (Leading σ D R) :=
  Leading.meets_of_scripts calls fun _ _ p => Script.wp_leading requests _ p

variable (calls : ∀ c : Call κ, c.Leads D R) (requests : ∀ r : Request κ, r.act.Leads D R)
  (env : Environment κ σ)
include calls requests

/-- Where a call is made, also in the midst of others, it leads to a related scene. -/
theorem Environment.answer_leads {fuel : Nat} {c : Call κ} {w w' : World κ σ} {a : c.Answer}
    (answered : env.answer fuel c w = some (a, w')) : R w.scene w'.scene := by
  have kept := Environment.meets (Leading.meets calls requests env) fuel c ⟨[], w⟩ trivial
  have ended : (env.trace fuel c w).result = some (a, w') := by rw [env.result_trace, answered]
  exact (kept (Along.iff_splits.mpr fun _ _ _ _ => trivial)).2 a w' ended

theorem Environment.play_leads {fuel : Nat} {m : Script κ σ α} {w w' : World κ σ} {a : α}
    (played : env.play fuel m w = some (a, w')) : R w.scene w'.scene :=
  (Leading.meets calls requests env).play_reaches (Q := fun _ t => R w.scene t)
    (Script.wp_leading requests m ⟨[], w⟩) played

theorem Environment.record_changes {fuel : Nat} {m : Script κ σ α} {w : World κ σ}
    {s t : Scene κ} (step : .change s t ∈ (env.record fuel m w).steps) : D s t := by
  have kept := Environment.record_fulfils (Leading.meets calls requests env) fuel m
    (Script.wp_leading requests m ⟨[], w⟩)
  obtain ⟨front, back, same⟩ := List.append_of_mem step
  have safe := (kept (Along.iff_splits.mpr fun _ _ _ _ => trivial)).1
  exact Along.iff_splits.mp safe front _ back same

/-- The same in the course of a call. -/
theorem Environment.trace_changes {fuel : Nat} {c : Call κ} {w : World κ σ} {s t : Scene κ}
    (step : .change s t ∈ (env.trace fuel c w).steps) : D s t := by
  have kept := Environment.meets (Leading.meets calls requests env) fuel c ⟨[], w⟩ trivial
  obtain ⟨front, back, same⟩ := List.append_of_mem step
  have safe := (kept (Along.iff_splits.mpr fun _ _ _ _ => trivial)).1
  exact Along.iff_splits.mp safe front _ back same

end Runs
end LiveTree
