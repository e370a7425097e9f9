import LiveTree.Proofs.Footprint.Closed

/-! Regimes: conditions on points that every call keeps while it goes along a preorder of points.
Unlike a scene a point has its past, so that a regime can keep books of what was asked for and of
what has been done. Most acts keep to a regime by their footprints. -/
namespace LiveTree
variable {κ σ α β : Type}

structure Regime (κ σ : Type) where
  /-- What is taken for granted of the steps of a run. -/
  given : History κ σ → Step κ σ → Prop
  /-- What is to be shown of them. -/
  safe : History κ σ → Step κ σ → Prop
  /-- Which calls may be made at a point. -/
  allows : Call κ → Point κ σ → Prop
  holds : Point κ σ → Prop
  leads : Point κ σ → Point κ σ → Prop
  refl : ∀ p, leads p p
  trans : ∀ {p q r}, leads p q → leads q r → leads p r

namespace Regime
variable {G : Regime κ σ} {p q : Point κ σ}

def contract (G : Regime κ σ) : Contract κ σ where
  given := G.given
  safe := G.safe
  before c p := G.holds p ∧ G.allows c p
  after _ p _ q := G.holds q ∧ G.leads p q

def Takes (G : Regime κ σ) (past : History κ σ) (x : Step κ σ) (p q : Point κ σ) : Prop :=
  G.contract.Takes past x (G.holds q ∧ G.leads p q)

/-- A step that follows others. -/
theorem Takes.after {past : History κ σ} {x : Step κ σ} {r : Point κ σ} (since : G.leads p q)
    (taken : G.Takes past x q r) : G.Takes past x p r :=
  taken.imp fun kept => ⟨kept.1, G.trans since kept.2⟩

structure Watches (G : Regime κ σ) (fields : List Field) (kind : Call.Kind) : Prop where
  change : ∀ F p t, (∀ f ∈ fields, f ∉ F) → G.holds p → p.scene.Alike F t →
    G.Takes p.past (.change p.scene t) p (p.change t)
  call : ∀ (c : Call κ) p, c.kind ≠ kind → G.holds p → G.allows c p ∧
    ∀ a q, G.holds q → G.leads p q →
      G.Takes q.past (.answer c p.world a q.world) p (q.answered c p.world a)

end Regime

def Act.Obeys (G : Regime κ σ) (m : Act κ α) : Prop :=
  ∀ p, G.holds p → m.wp G.contract (fun _ q => G.holds q ∧ G.leads p q) p

namespace Act.Obeys
variable {G : Regime κ σ} {m : Act κ α} {p : Point κ σ}

theorem after (obeys : m.Obeys G) {q : Point κ σ} (holds : G.holds q) (since : G.leads p q) :
    m.wp G.contract (fun _ r => G.holds r ∧ G.leads p r) q := by
  apply wp_mono m _ (obeys q holds)
  intro _ r kept
  exact ⟨kept.1, G.trans since kept.2⟩

theorem pure (a : α) : (Pure.pure a : Act κ α).Obeys G := fun p holds => ⟨holds, G.refl p⟩

theorem scene : (Act.scene : Act κ (Scene κ)).Obeys G := fun p holds => ⟨holds, G.refl p⟩

theorem bind {m : Act κ β} {f : β → Act κ α} (first : m.Obeys G) (second : ∀ b, (f b).Obeys G) :
    (m >>= f).Obeys G := by
  intro p holds
  apply (wp_bind m f).mpr
  apply wp_mono m _ (first p holds)
  intro b q kept
  exact (second b).after kept.1 kept.2

theorem composes : Composes fun {_} (m : Act κ _) => m.Obeys G where
  pure := pure
  scene := scene
  bind := bind

theorem update {f : Scene κ → Scene κ}
    (change : ∀ p, G.holds p → G.Takes p.past (.change p.scene (f p.scene)) p (p.change (f p.scene))) :
    (Act.update f).Obeys G := change

/-- What the regime knows of the scene goes for what is found in it. -/
theorem withComponent {id : ComponentId} {a : α} {f : Component κ → Act κ α}
    (body : ∀ p c, G.holds p → p.scene.component? id = some c →
      (f c).wp G.contract (fun _ q => G.holds q ∧ G.leads p q) p) :
    (withComponent id a f).Obeys G := fun p holds =>
  wp_withComponent (fun c found => body p c holds found) fun _ => ⟨holds, G.refl p⟩

variable {fields : List Field} {kind : Call.Kind} (watches : G.Watches fields kind)
include watches

theorem of_touches {F : List Field} {C : List Call.Kind} (touches : m.Touches F C)
    (apart : (∀ f ∈ fields, f ∉ F) ∧ kind ∉ C) : m.Obeys G := by
  intro p holds
  apply wp_of_within (I := fun q => G.holds q ∧ G.leads p q) _ _ ⟨holds, G.refl p⟩ (touches p.scene)
  · intro q t kept alike
    exact (watches.change F q t apart.1 kept.1 alike).after kept.2
  · intro c q kept inside
    have other : c.kind ≠ kind := fun same => apart.2 (same ▸ inside)
    obtain ⟨allowed, answered⟩ := watches.call c q other kept.1
    refine ⟨⟨kept.1, allowed⟩, ?_⟩
    intro a r after
    exact (answered a r after.1 after.2).after kept.2

theorem ask (c : Call κ) (other : c.kind ≠ kind) : (Act.ask c).Obeys G :=
  of_touches watches (F := []) (C := [c.kind]) (.ask c (by simp)) (by simpa using Ne.symm other)

end Act.Obeys

def Call.Obeys (G : Regime κ σ) : Call κ → Prop
  | .write id property v origin => (Act.write id property v origin).Obeys G
  | .connect id => (Act.connect id).Obeys G
  | .release id => (Act.release id).Obeys G
  | .service x id arguments => (Act.service x id arguments).Obeys G
  | .deliver x e => (Act.deliver x e).Obeys G
  | .callback .. | .apply .. => True

section Runs
variable {G : Regime κ σ}
  (keep : ∀ p store, G.holds p → G.holds (p.keep store) ∧ G.leads p (p.keep store))
  (requests : ∀ (r : Request κ) p, G.holds p → G.contract.Takes p.past (.request r p.scene)
    (r.act.wp G.contract (fun _ q => G.holds q ∧ G.leads p q) (p.request r)))
include keep requests

theorem Script.wp_obeys (m : Script κ σ α) {p : Point κ σ} (holds : G.holds p) :
    m.wp G.contract (fun _ q => G.holds q ∧ G.leads p q) p := by
  apply wp_of_requests (I := fun q => G.holds q ∧ G.leads p q)
  · intro q store kept
    obtain ⟨still, same⟩ := keep q store kept.1
    exact ⟨still, G.trans kept.2 same⟩
  · intro r q kept
    refine (requests r q kept.1).imp fun act => Act.wp_mono _ ?_ act
    intro _ t after
    exact ⟨after.1, G.trans kept.2 after.2⟩
  · exact ⟨holds, G.refl p⟩

/-- If requests and the acts behind calls keep to a regime, all calls do. -/
theorem Regime.meets (calls : ∀ c : Call κ, c.Obeys G) (env : Environment κ σ) :
    env.Meets G.contract := by
  rintro c p ⟨holds, -⟩
  cases c with
  | write id name v origin => exact calls (.write id name v origin) p holds
  | connect id => exact calls (.connect id) p holds
  | release id => exact calls (.release id) p holds
  | service x id arguments => exact calls (.service x id arguments) p holds
  | deliver x e => exact calls (.deliver x e) p holds
  | callback k o => exact Script.wp_obeys keep requests _ holds
  | apply f arguments => exact keep p _ holds

/-- What the regime has to say of a run from outside. -/
theorem Regime.record_fulfils (calls : ∀ c : Call κ, c.Obeys G) (env : Environment κ σ) (fuel : Nat)
    (m : Script κ σ α) {p : Point κ σ} (holds : G.holds p) :
    G.contract.Fulfils p (env.record fuel m p.world) fun _ q => G.holds q ∧ G.leads p q :=
  Environment.record_fulfils (Regime.meets keep requests calls env) fuel m
    (Script.wp_obeys keep requests m holds)

end Runs
end LiveTree
