import LiveTree.Proofs.Display.Push
import LiveTree.Proofs.Guards

/-! What a spot shows depends on its property. Whatever call is made in the course of a write, a spot shows
afterwards what it showed before unless its property is written on the way. -/
namespace LiveTree
variable {κ σ α : Type}

def Call.Commits (id : ComponentId) (name : String) : (c : Call κ) → c.Answer → Prop
  | .write other key _ _, a => other = id ∧ key = name ∧ a = .ok true
  | _, _ => False

instance (id : ComponentId) (name : String) : (c : Call κ) → (a : c.Answer) → Decidable (c.Commits id name a)
  | .write other key _ _, .ok b => decidable_of_iff (other = id ∧ key = name ∧ b = true) (by simp [Call.Commits])
  | .write .., .error _ => isFalse (by simp [Call.Commits])
  | .connect _, _ | .release _, _ | .service .., _ | .deliver .., _ | .callback .., _ | .apply .., _ => isFalse (fun h => h)

def Step.Commits (id : ComponentId) (name : String) : Step κ σ → Prop
  | .answer c _ a _ => c.Commits id name a
  | _ => False

instance (id : ComponentId) (name : String) : (x : Step κ σ) → Decidable (x.Commits id name)
  | .answer c _ a _ => inferInstanceAs (Decidable (c.Commits id name a))
  | .change .. | .request .. => isFalse (fun h => h)

def Watching (σ : Type) (o : Spot) : Contract κ σ where
  given _ x := ¬ x.Commits o.id o.property
  safe _ _ := True
  before _ _ := True
  after c p a q := p.scene.Raises [] q.scene ∧ (c.Local → o.In p.scene →
    c.Commits o.id o.property a ∨ (o.In q.scene ∧ o.Kept p.scene q.scene))

namespace Watching
variable {o : Spot} {p : Point κ σ}

/-- Nothing is asked of an act of which nothing is expected. -/
theorem wp_any (m : Act κ α) : m.wp (Watching σ o) (fun _ _ => True) p := by
  induction m generalizing p with
  | done a => trivial
  | read next ih => exact ih _
  | put s next ih => exact ⟨trivial, fun _ => ih⟩
  | call c next ih => exact ⟨trivial, fun a q _ => ⟨trivial, fun _ => ih a⟩⟩

theorem wp_of_releases {m : Act κ α} (releases : m.Releases) :
    m.wp (Watching σ o) (fun _ q => p.scene.Raises [] q.scene) p :=
  Act.wp_of_contract (fun _ _ _ => trivial) (fun _ _ _ => trivial) (fun _ _ _ => trivial)
    (fun _ _ _ _ _ (kept : (Watching σ o).after _ _ _ _) => kept.1) (releases σ p)

/-- Where the spot is kept by calls it is kept by those that do not write its property. -/
theorem wp_of_upholding {m : Act κ α} {Q : α → Point κ σ → Prop}
    (pre : m.wp (Upholding σ o.In o.Kept Call.Local) Q p) : m.wp (Watching σ o) Q p := by
  induction m generalizing p with
  | done a => exact pre
  | read next ih => exact ih _ pre
  | put s next ih => exact ⟨trivial, fun _ => ih (pre.2 trivial)⟩
  | call c next ih =>
    obtain ⟨⟨here, near⟩, rest⟩ := pre
    refine ⟨trivial, fun a q reached => ⟨trivial, fun uncommitted => ?_⟩⟩
    exact ih a ((rest a q ((reached.2 near here).resolve_left uncommitted)).2 trivial)

theorem wp_of_bypasses {m : Act κ α} (bypasses : m.Bypasses o p.scene) (here : o.In p.scene) :
    m.wp (Watching σ o) (fun _ q => o.In q.scene ∧ o.Kept p.scene q.scene) p :=
  wp_of_upholding (bypasses σ p here (Std.Refl.refl _))

/-- The spot is kept next to what was known before. -/
theorem wp_after {m : Act κ α} {s : Scene κ} (bypasses : m.Bypasses o p.scene) (here : o.In p.scene)
    (since : o.Kept s p.scene) : m.wp (Watching σ o) (fun _ q => o.In q.scene ∧ o.Kept s q.scene) p :=
  wp_of_upholding (bypasses.after here since)

def Unless (o : Spot) (s : Scene κ) (r : Except Fault Bool) (q : Point κ σ) : Prop :=
  r = .ok true ∨ (o.In q.scene ∧ o.Kept s q.scene)

section Writes
variable {s : Scene κ} {prop : Property}

theorem wp_commit (here : o.In p.scene) (since : o.Kept s p.scene) (old v : Value) (origin : Origin) :
    (Act.commit o.id prop old v origin).wp (Watching σ o) (Unless o s) p := by
  refine Act.wp_withComponent (fun c _ => ?_) fun _ => .inr ⟨here, since⟩
  split
  · exact .inr ⟨here, since⟩
  · simp only [Act.wp_bind, Act.wp_modify]
    exact ⟨trivial, fun _ => Act.wp_mono _ (fun _ _ _ => .inl rfl) (wp_any _)⟩

variable [IsEmpty κ]

theorem wp_attempt (here : o.In p.scene) (since : o.Kept s p.scene) (declared : p.scene.Declares o.id prop) (v : Value)
    (origin : Origin) : (Act.attempt o.id prop v origin).wp (Watching σ o) (Unless o s) p := by
  have refused {q : Point κ σ} (here : o.In q.scene) (since : o.Kept s q.scene) (fault : Fault) :
      (Act.refuse o.id fault).wp (Watching σ o) (Unless o s) q :=
    Act.wp_mono _ (fun _ _ kept => .inr kept)
      (wp_after (.of_touches (.refuse _ _) (by decide) (by decide)) here since)
  unfold Act.attempt
  rw [Act.wp_ite]
  split
  · exact .inr ⟨here, since⟩
  · split
    · exact refused here since _
    · simp only [Act.wp_bind, Act.wp_scene]
      refine Act.wp_mono _ ?_ (wp_after (.validated declared here.steady _ _) here since)
      rintro x q ⟨here, since⟩
      rw [Act.wp_ite]
      split
      · exact .inr ⟨here, since⟩
      · split
        · exact refused here since _
        · exact wp_commit here since _ _ _

theorem wp_write (here : o.In p.scene) (v : Value) (origin : Origin) :
    (Act.write o.id o.property v origin).wp (Watching σ o) (Unless o p.scene) p := by
  have kept : o.Kept p.scene p.scene := Std.Refl.refl _
  refine Act.wp_withComponent (fun c found => ?_) fun _ => .inr ⟨here, kept⟩
  split
  · next prop slot declared _ =>
    rw [Act.wp_ite]
    split
    · exact .inr ⟨here, kept⟩
    · have marked (busy : Bool) {t : Scene κ} : (Act.modify o.id fun c : Component κ =>
          c.modifySlot o.property fun slot => { slot with busy := busy }).Bypasses o t :=
        .modifySlot (fun _ => rfl) fun _ _ _ => rfl
      have here' : p.scene.Declares o.id prop := ⟨c, found, by rw [Schema.name_of_get? declared]; exact declared⟩
      refine (Act.wp_bind _ _).mpr (Act.wp_mono _ ?_ (wp_of_bypasses (marked true) here))
      rintro _ q ⟨here, since⟩
      have declared := (since.course.declares (by decide)).mp here'
      refine (Act.wp_bind _ _).mpr (Act.wp_mono _ ?_ (wp_attempt here since declared v origin))
      rintro r t (rfl | ⟨here, since⟩)
      · exact (Act.wp_bind _ _).mpr (Act.wp_mono _ (fun _ _ _ => .inl rfl) (wp_any _))
      · exact (Act.wp_bind _ _).mpr (Act.wp_mono _ (fun _ _ kept => .inr kept) (wp_after (marked false) here since))
  · exact .inr ⟨here, kept⟩

end Writes

theorem wp_call {c : Call κ} {m : Act κ c.Answer} (releases : m.Releases)
    (keeps : c.Local → o.In p.scene → m.wp (Watching σ o) (fun a q =>
      c.Commits o.id o.property a ∨ (o.In q.scene ∧ o.Kept p.scene q.scene)) p) :
    m.wp (Watching σ o) ((Watching σ o).after c p) p := by
  by_cases here : c.Local ∧ o.In p.scene
  · refine Act.wp_mono _ ?_ (Act.wp_and _ (wp_of_releases releases) (keeps here.1 here.2))
    rintro a q ⟨raises, kept⟩
    exact ⟨raises, fun _ _ => kept⟩
  · refine Act.wp_mono _ (fun a q raises => ⟨raises, ?_⟩) (wp_of_releases releases)
    exact fun near inside => absurd ⟨near, inside⟩ here

theorem meets [IsEmpty κ] (env : Environment κ σ) (o : Spot) : env.Meets (Watching σ o) := by
  intro c p _
  cases c with
  | write id name v origin =>
    refine wp_call (c := .write id name v origin) (.write id name v origin) fun _ here => ?_
    by_cases own : id = o.id ∧ name = o.property
    · obtain ⟨rfl, rfl⟩ := own
      exact Act.wp_mono _ (fun _ _ ended => ended.imp_left fun done => ⟨rfl, rfl, done⟩) (wp_write here v origin)
    · exact Act.wp_mono _ (fun _ _ kept => .inr kept) (wp_of_bypasses (.write own v origin) here)
  | connect id => exact wp_call (c := .connect id) (.connect id) False.elim
  | release id => exact wp_call (c := .release id) (.release id) False.elim
  | service x id arguments =>
    refine wp_call (c := .service x id arguments) (.service x id arguments) fun near here => ?_
    exact Act.wp_mono _ (fun _ _ kept => .inr kept) (wp_of_bypasses (.service near id arguments) here)
  | deliver x e =>
    refine wp_call (c := .deliver x e) (.deliver x e) fun near here => ?_
    exact Act.wp_mono _ (fun _ _ kept => .inr kept) (wp_of_bypasses (.deliver x near) here)
  | callback k x => exact isEmptyElim k
  | apply f arguments => exact ⟨.refl p.scene, fun _ here => .inr ⟨here, Std.Refl.refl p.scene⟩⟩

end Watching
end LiveTree
