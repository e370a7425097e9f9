import LiveTree.Proofs.Contract.Rules
import LiveTree.Proofs.Listening.Upkeep

/-! What is kept of the listeners of one component, whatever runs, as long as nobody else removes
them and the component is not configured a second time. -/
namespace LiveTree
variable {κ σ α β : Type}

def Request.removes? : Request κ → Option ListenerId
  | .unlisten _ _ l => some l
  | _ => none

def Scene.subscriptions? (s : Scene κ) (id : ComponentId) : Option (List Subscription) :=
  (s.component? id).map fun c => c.definition.subscriptions

/-- What is taken for granted: the component does not come back to be configured, its type has the
same subscriptions all the time, and nobody removes listeners that the tree added. -/
def Regular (id : ComponentId) (_ : History κ σ) : Step κ σ → Prop
  | .change s t => (t.stage? id = some .configured →
      s.stage? id = some .created ∨ s.stage? id = some .configured) ∧
      ∀ ls ∈ s.subscriptions? id, t.subscriptions? id = some ls
  | .request r s => ∀ l ∈ r.removes?, (s.own? l).isNone = true
  | .answer .. => True

instance (id : ComponentId) (past : History κ σ) : (x : Step κ σ) → Decidable (Regular id past x)
  | .change _ _ => inferInstanceAs (Decidable ((_ → _ ∨ _) ∧ ∀ ls ∈ _, _))
  | .request _ _ => inferInstanceAs (Decidable (∀ l ∈ _, _))
  | .answer .. => isTrue trivial

def Keeping (σ : Type) (id : ComponentId) : Contract κ σ where
  given := Regular id
  safe _ _ := True
  before _ p := p.scene.Kept id
  after _ p _ q := q.scene.Kept id ∧ p.scene.Since id q.scene

def Act.Tends (id : ComponentId) (R : Scene κ → Scene κ → Prop) (m : Act κ α) : Prop :=
  ∀ (σ : Type) (p : Point κ σ), p.scene.Kept id →
    m.wp (Keeping σ id) (fun _ q => q.scene.Kept id ∧ R p.scene q.scene) p

namespace Keeping
variable {id : ComponentId} {p : Point κ σ} {s t : Scene κ} {past : History κ σ} {Q : Prop}

theorem takes (rest : Q) {x : Step κ σ} : (Keeping σ id).Takes past x Q := ⟨trivial, fun _ => rest⟩

end Keeping

namespace Act.Tends
variable {id : ComponentId} {R R' : Scene κ → Scene κ → Prop}

theorem mono {m : Act κ α} (tends : m.Tends id R) (weaker : ∀ s t, R s t → R' s t) :
    m.Tends id R' := fun σ p kept =>
  wp_mono m (fun _ _ ended => ⟨ended.1, weaker _ _ ended.2⟩) (tends σ p kept)

theorem maintains {m : Act κ α} (tends : m.Tends id (Scene.Since id)) :
    m.Tends id (Scene.Maintains id) := tends.mono fun _ _ since => since.toMaintains

theorem update {f : Scene κ → Scene κ} (change : ∀ s : Scene κ, s.Kept id → (f s).Kept id ∧ R s (f s)) :
    (Act.update f).Tends id R := fun _ p kept => Keeping.takes (change p.scene kept)

section Preorder
variable [IsPreorder (Scene κ) R]

theorem pure (a : α) : (Pure.pure a : Act κ α).Tends id R := fun _ _ kept => ⟨kept, Std.Refl.refl _⟩

theorem scene : (Act.scene : Act κ (Scene κ)).Tends id R := fun _ _ kept => ⟨kept, Std.Refl.refl _⟩

theorem after {m : Act κ α} {s : Scene κ} {p : Point κ σ} (tends : m.Tends id R)
    (kept : p.scene.Kept id) (since : R s p.scene) :
    m.wp (Keeping σ id) (fun _ q => q.scene.Kept id ∧ R s q.scene) p :=
  wp_mono m (fun _ _ ended => ⟨ended.1, IsTrans.trans _ _ _ since ended.2⟩) (tends σ p kept)

/-- What comes after may count on what is related to a former scene. -/
theorem wp_then {m : Act κ β} {f : β → Act κ α} {Q : α → Point κ σ → Prop} {s : Scene κ}
    {p : Point κ σ} (first : m.Tends id R) (kept : p.scene.Kept id) (since : R s p.scene)
    (second : ∀ b (q : Point κ σ), q.scene.Kept id → R s q.scene → (f b).wp (Keeping σ id) Q q) :
    (m >>= f).wp (Keeping σ id) Q p :=
  (wp_bind m f).mpr (wp_mono m (fun b q ended => second b q ended.1 ended.2) (first.after kept since))

theorem bind {m : Act κ β} {f : β → Act κ α} (first : m.Tends id R)
    (second : ∀ b, (f b).Tends id R) : (m >>= f).Tends id R := fun _ _ kept =>
  first.wp_then kept (Std.Refl.refl _) fun b _ => (second b).after

theorem composes : Composes fun {_} (m : Act κ _) => m.Tends id R where
  pure := pure
  scene := scene
  bind := bind

end Preorder

theorem ask (c : Call κ) : (Act.ask c).Tends id (Scene.Since id) := fun _ _ kept =>
  ⟨kept, fun _ _ ended => Keeping.takes ended⟩

theorem of_within {E : Scene κ → Scene κ → Prop} {C : Call κ → Prop} {m : Act κ α}
    (changes : ∀ s t : Scene κ, s.Kept id → E s t → t.Kept id ∧ s.Since id t)
    (within : ∀ s, m.Within E C s) : m.Tends id (Scene.Since id) := by
  intro σ p kept
  refine wp_of_within (I := fun q => q.scene.Kept id ∧ p.scene.Since id q.scene) ?_ ?_
    ⟨kept, Std.Refl.refl _⟩ (within p.scene)
  · intro q t here change
    obtain ⟨next, step⟩ := changes q.scene t here.1 change
    exact Keeping.takes ⟨next, IsTrans.trans _ _ _ here.2 step⟩
  · intro c q here _
    exact ⟨here.1, fun a r ended => Keeping.takes ⟨ended.1, IsTrans.trans _ _ _ here.2 ended.2⟩⟩

theorem of_touches {F : List Field} {C : List Call.Kind} {m : Act κ α} (touches : m.Touches F C)
    (out : ∀ f ∈ Field.listening, f ∉ F) : m.Tends id (Scene.Since id) :=
  .of_within (fun _ _ kept alike => kept.of_alike alike out) touches

end Act.Tends
end LiveTree
