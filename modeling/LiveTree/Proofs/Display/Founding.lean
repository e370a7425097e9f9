import LiveTree.Proofs.Attachment
import LiveTree.Proofs.Display.Footing
import LiveTree.Proofs.Expansion
import LiveTree.Proofs.Reachable

/-! Components keep their footing whatever is asked of a tree without consumer code. Only the acts that
make, configure, expand and complete components and those that add or remove bindings have to do with it. -/
namespace LiveTree
variable {κ σ α β : Type}

def Field.resting : List Field := .values :: .bindings :: .boundProperties :: Act.Touches.spreading

structure Scene.Founded (s : Scene κ) : Prop where
  placed : s.Placed
  firm : s.Firm

def Founding (κ σ : Type) : Contract κ σ where
  given _ x := match x with
    | .change s t => t.Placed ∧ s.document.size ≤ t.document.size
    | _ => True
  safe _ _ := True
  before _ p := p.scene.Founded
  after c p _ q := q.scene.Founded ∧ p.scene.Matures q.scene ∧
    (c.kind ≠ .connect → c.kind ≠ .release → p.scene.Alike Field.resting q.scene)

namespace Founding
variable {p : Point κ σ}

theorem takes {t : Scene κ} {Q : Prop} (next : p.scene.document.size ≤ t.document.size → t.Firm)
    (rest : t.Founded → Q) : (Founding κ σ).Takes p.past (.change p.scene t) Q :=
  ⟨trivial, fun ⟨placed, size⟩ => rest ⟨placed, next size⟩⟩

/-- What a change needs that carries the footings along. -/
theorem takes_carries {t : Scene κ} {Q : Prop} (founded : p.scene.Founded) (carries : p.scene.Carries t)
    (rest : t.Founded → Q) : (Founding κ σ).Takes p.past (.change p.scene t) Q :=
  takes (fun size => carries.firm size founded.firm) rest

end Founding

def Act.Founds (m : Act κ α) : Prop := ∀ (σ : Type) (p : Point κ σ), p.scene.Founded →
  m.wp (Founding κ σ) (fun _ q => q.scene.Founded ∧ p.scene.Matures q.scene) p

namespace Act
variable {p : Point κ σ}

/-- While none is connected or released, stages and completion are left alone. -/
theorem wp_resting {m : Act κ α} {Q : α → Point κ σ → Prop} (founds : m.wp (Founding κ σ) Q p)
    {F : List Field} {C : List Call.Kind} (touches : m.Touches F C)
    (rests : (∀ f ∈ F, f ∈ Field.resting) ∧ Call.Kind.connect ∉ C ∧ Call.Kind.release ∉ C) :
    m.wp (Founding κ σ) (fun a q => Q a q ∧ p.scene.Alike Field.resting q.scene) p := by
  have within := (touches p.scene).mono (fun _ _ alike => alike.mono rests.1)
    fun c kind => (⟨fun same => rests.2.1 (same ▸ kind), fun same => rests.2.2 (same ▸ kind)⟩ :
      c.kind ≠ .connect ∧ c.kind ≠ .release)
  suffices along : ∀ {s : Scene κ} {q : Point κ σ}, s.Alike Field.resting q.scene → m.wp (Founding κ σ) Q q →
      m.Within (Scene.Alike Field.resting) (fun c => c.kind ≠ .connect ∧ c.kind ≠ .release) q.scene →
      m.wp (Founding κ σ) (fun a r => Q a r ∧ s.Alike Field.resting r.scene) q from
    along (.refl _) founds within
  clear founds within touches
  intro s q
  induction m generalizing q with
  | done a => exact fun since founds _ => ⟨founds, since⟩
  | read next ih => exact fun since founds within => ih _ since founds within
  | put t next ih =>
    exact fun since founds within => founds.imp fun rest => ih (since.trans within.1) rest within.2
  | call c next ih =>
    refine fun since founds within => ⟨founds.1, fun a r reached => (founds.2 a r reached).imp fun rest => ?_⟩
    exact ih a (since.trans (reached.2.2 within.1.1 within.1.2)) rest (within.2 a _)

/-- Without calls of its own, an act that has nothing to do with footings carries them along. -/
theorem wp_carries {F : List Field} {m : Act κ α} (touches : m.Touches F [])
    (out : (∀ f ∈ Field.founding, f ∉ F) ∧ Field.components ∉ F) {s : Scene κ} (founded : p.scene.Founded)
    (since : s.Carries p.scene) :
    m.wp (Founding κ σ) (fun _ q => q.scene.Founded ∧ s.Carries q.scene) p := by
  refine wp_of_within (I := fun q => q.scene.Founded ∧ s.Carries q.scene) ?_ ?_ ⟨founded, since⟩
    (touches p.scene)
  · rintro q t ⟨founded, since⟩ alike
    have carries : q.scene.Carries t := .of_alike alike out.1 out.2
    exact Founding.takes_carries founded carries fun founded => ⟨founded, IsTrans.trans _ _ _ since carries⟩
  · intro c q _ none
    exact absurd none List.not_mem_nil

namespace Founds

theorem pure (a : α) : (Pure.pure a : Act κ α).Founds := fun _ _ founded => ⟨founded, Std.Refl.refl _⟩

/-- What an act does that keeps the footings, after others that did. -/
theorem after {m : Act κ α} (founds : m.Founds) {s : Scene κ} (founded : p.scene.Founded)
    (since : s.Matures p.scene) :
    m.wp (Founding κ σ) (fun _ q => q.scene.Founded ∧ s.Matures q.scene) p :=
  wp_mono m (fun _ _ kept => ⟨kept.1, IsTrans.trans _ _ _ since kept.2⟩) (founds σ p founded)

theorem wp_then {m : Act κ β} {f : β → Act κ α} {Q : α → Point κ σ → Prop} {s : Scene κ}
    (first : m.Founds) (founded : p.scene.Founded) (since : s.Matures p.scene)
    (second : ∀ b (q : Point κ σ), q.scene.Founded → s.Matures q.scene → (f b).wp (Founding κ σ) Q q) :
    (m >>= f).wp (Founding κ σ) Q p :=
  (wp_bind m f).mpr (wp_mono m (fun b q kept => second b q kept.1 kept.2) (first.after founded since))

theorem bind {m : Act κ β} {f : β → Act κ α} (first : m.Founds) (second : ∀ b, (f b).Founds) :
    (m >>= f).Founds := fun _ _ founded =>
  first.wp_then founded (Std.Refl.refl _) fun b _ => (second b).after

theorem composes : Composes fun {_} (m : Act κ _) => m.Founds where
  pure := pure
  scene _ _ founded := ⟨founded, Std.Refl.refl _⟩
  bind := bind

/-- What carries the footings along leaves the components as mature as they were. -/
theorem of_carries {m : Act κ α} (carries : ∀ (σ : Type) (p : Point κ σ), p.scene.Founded →
    m.wp (Founding κ σ) (fun _ q => q.scene.Founded ∧ p.scene.Carries q.scene) p) : m.Founds :=
  fun σ p founded => wp_mono m (fun _ _ kept => ⟨kept.1, .of_carries kept.2⟩) (carries σ p founded)

theorem of_touches {F : List Field} {C : List Call.Kind} {m : Act κ α} (touches : m.Touches F C)
    (out : (∀ f ∈ Field.founding, f ∉ F) ∧ Field.components ∉ F) : m.Founds := by
  intro σ p founded
  refine wp_of_within (I := fun q => q.scene.Founded ∧ p.scene.Matures q.scene) ?_ ?_
    ⟨founded, Std.Refl.refl _⟩ (touches p.scene)
  · rintro q t ⟨founded, since⟩ alike
    have carries : q.scene.Carries t := .of_alike alike out.1 out.2
    exact Founding.takes_carries founded carries fun founded =>
      ⟨founded, IsTrans.trans _ _ _ since (.of_carries carries)⟩
  · rintro c q ⟨founded, since⟩ -
    exact ⟨founded, fun _ _ kept => ⟨trivial, fun _ => ⟨kept.1, IsTrans.trans _ _ _ since kept.2.1⟩⟩⟩

theorem ask (c : Call κ) : (Act.ask c).Founds := fun _ _ founded =>
  ⟨founded, fun _ _ kept => ⟨trivial, fun _ => ⟨kept.1, kept.2.1⟩⟩⟩

theorem update {f : Scene κ → Scene κ} (same : ∀ s : Scene κ, (f s).components = s.components) :
    (Act.update f).Founds := of_carries fun _ p founded =>
  have carries : p.scene.Carries (f p.scene) := .of_components (same _)
  Founding.takes_carries founded carries fun founded => ⟨founded, carries⟩

theorem edit (f : Document → Document) : (Act.edit f : Act κ Unit).Founds := update fun _ => rfl

theorem modify (id : ComponentId) {f : Component κ → Component κ}
    (keeps : ∀ c n, c.footing.Firm n → (f c).footing.Firm n ∧
      ∀ i, (f c).footing.nodeAt? i = c.footing.nodeAt? i)
    (matures : ∀ c, (c.isReady = true → (f c).isReady = true) ∧
      (c.bindingsReady = true → (f c).bindingsReady = true)) : (Act.modify id f).Founds := fun _ p founded =>
  Founding.takes (fun _ => founded.firm.modify id fun c _ => keeps c _)
    fun founded => ⟨founded, .modify p.scene id fun c _ => matures c⟩

/-- A component becomes ready, or is so still. -/
theorem setStage (id : ComponentId) {stage : Stage} (ready : stage.isReady = true) :
    (Act.setStage id stage : Act κ _).Founds :=
  modify id (fun _ _ firm => ⟨{ firm with settled := fun done => ⟨ready, (firm.settled done).2⟩ }, fun _ => rfl⟩)
    fun _ => ⟨fun _ => ready, fun same => same⟩

end Founds
end Act
end LiveTree
