import LiveTree.Proofs.Contract

/-! Rules for `wp`: what the ways of putting acts together need, and two ways to keep an invariant,
for acts all of whose steps keep it and for scripts all of whose requests do. -/
namespace LiveTree
variable {κ σ α β : Type} {K : Contract κ σ} {Q Q' : α → Point κ σ → Prop} {p : Point κ σ}

namespace Act

@[simp] theorem wp_pure (a : α) : (pure a : Act κ α).wp K Q p ↔ Q a p := Iff.rfl

@[simp] theorem wp_done (a : α) : (done a : Act κ α).wp K Q p ↔ Q a p := Iff.rfl

@[simp] theorem wp_read (next : Scene κ → Act κ α) :
    (read next).wp K Q p ↔ (next p.scene).wp K Q p := Iff.rfl

@[simp] theorem wp_scene {Q : Scene κ → Point κ σ → Prop} :
    scene.wp K Q p ↔ Q p.scene p := Iff.rfl

@[simp] theorem wp_update {Q : Unit → Point κ σ → Prop} (f : Scene κ → Scene κ) :
    (update f).wp K Q p ↔
      K.Takes p.past (.change p.scene (f p.scene)) (Q () (p.change (f p.scene))) := Iff.rfl

@[simp] theorem wp_modify {Q : Unit → Point κ σ → Prop} (id : ComponentId)
    (f : Component κ → Component κ) : (modify id f).wp K Q p ↔
      K.Takes p.past (.change p.scene (p.scene.modify id f)) (Q () (p.change (p.scene.modify id f))) :=
  Iff.rfl

@[simp] theorem wp_ask (c : Call κ) {Q : c.Answer → Point κ σ → Prop} :
    (ask c).wp K Q p ↔ K.before c p ∧ ∀ a q, K.after c p a q →
      K.Takes q.past (.answer c p.world a q.world) (Q a (q.answered c p.world a)) := Iff.rfl

theorem wp_mono (m : Act κ α) (weaker : ∀ a q, Q a q → Q' a q) (pre : m.wp K Q p) :
    m.wp K Q' p := by
  induction m generalizing p with
  | done a => exact weaker a p pre
  | read next ih => exact ih _ pre
  | put s next ih => exact pre.imp ih
  | call c next ih => exact ⟨pre.1, fun a q reached => (pre.2 a q reached).imp (ih a)⟩

theorem wp_and (m : Act κ α) (left : m.wp K Q p) (right : m.wp K Q' p) :
    m.wp K (fun a q => Q a q ∧ Q' a q) p := by
  induction m generalizing p with
  | done a => exact ⟨left, right⟩
  | read next ih => exact ih _ left right
  | put s next ih => exact ⟨left.1, fun fine => ih (left.2 fine) (right.2 fine)⟩
  | call c next ih =>
    exact ⟨left.1, fun a q reached =>
      ⟨(left.2 a q reached).1, fun fine => ih a ((left.2 a q reached).2 fine)
        ((right.2 a q reached).2 fine)⟩⟩

theorem wp_actBind (m : Act κ β) (f : β → Act κ α) :
    (m.bind f).wp K Q p ↔ m.wp K (fun b q => (f b).wp K Q q) p := by
  induction m generalizing p with
  | done b => rfl
  | read next ih => exact ih _
  | put s next ih => simp only [bind, wp, ih]
  | call c next ih => simp only [bind, wp, ih]

@[simp] theorem wp_bind (m : Act κ β) (f : β → Act κ α) :
    (m >>= f).wp K Q p ↔ m.wp K (fun b q => (f b).wp K Q q) p := wp_actBind m f

theorem wp_modify_bind (id : ComponentId) (f : Component κ → Component κ) (next : Unit → Act κ α) :
    (modify id f >>= next).wp K Q p ↔ K.Takes p.past (.change p.scene (p.scene.modify id f))
      ((next ()).wp K Q (p.change (p.scene.modify id f))) := Iff.rfl

@[simp] theorem wp_ite (c : Prop) [Decidable c] (m n : Act κ α) :
    (if c then m else n).wp K Q p ↔ if c then m.wp K Q p else n.wp K Q p := by split <;> rfl

theorem wp_withComponent {id : ComponentId} {a : α} {f : Component κ → Act κ α}
    (there : ∀ c, p.scene.component? id = some c → (f c).wp K Q p)
    (missing : p.scene.component? id = none → Q a p) : (withComponent id a f).wp K Q p := by
  unfold withComponent
  rw [wp_read]
  split
  · next c found => exact there c found
  · next out => exact missing out

theorem wp_withComponent_none {id : ComponentId} {a : α} {f : Component κ → Act κ α}
    (missing : p.scene.component? id = none) (here : Q a p) : (withComponent id a f).wp K Q p := by
  refine wp_withComponent (fun c found => ?_) fun _ => here
  cases missing.symm.trans found

/-- A loop keeps an invariant that knows which items are still to come. -/
theorem wp_each (I : List β → Point κ σ → Prop) {f : β → Act κ Unit} {Q : Unit → Point κ σ → Prop}
    (step : ∀ b rest q, I (b :: rest) q → (f b).wp K (fun _ r => I rest r) q)
    (ends : ∀ q, I [] q → Q () q) (items : List β) (start : I items p) :
    (each items f).wp K Q p := by
  induction items generalizing p with
  | nil => exact ends p start
  | cons b rest ih =>
    exact (wp_actBind _ _).mpr (wp_mono _ (fun _ q kept => ih kept) (step b rest p start))

/-- Under another contract that asks for no more and promises no less the act ends in the same way. -/
theorem wp_of_contract {K L : Contract κ σ} {Q : α → Point κ σ → Prop}
    (safe : ∀ past x, K.safe past x → L.safe past x) (given : ∀ past x, L.given past x → K.given past x)
    (before : ∀ c p, K.before c p → L.before c p)
    (after : ∀ c p a q, K.before c p → L.after c p a q → K.after c p a q) {m : Act κ α} {p : Point κ σ}
    (pre : m.wp K Q p) : m.wp L Q p := by
  have takes {past : History κ σ} {x : Step κ σ} {R S : Prop} (here : K.Takes past x R) (weaker : R → S) :
      L.Takes past x S := ⟨safe past x here.1, fun fine => weaker (here.2 (given past x fine))⟩
  induction m generalizing p with
  | done a => exact pre
  | read next ih => exact ih _ pre
  | put s next ih => exact takes pre ih
  | call c next ih =>
    exact ⟨before c p pre.1, fun a q reached =>
      takes (pre.2 a q (after c p a q pre.1 reached)) (ih a)⟩

/-- What is known of the answers to an act's calls tells how the act runs. -/
theorem wp_answering (m : Act κ α)
    {answer : (c : Call κ) → World κ σ → Option (c.Answer × World κ σ)} (pre : m.wp K Q p) :
    m.wp (K.answering answer) (fun a q => Q a q ∧ m.run answer p.world = some (a, q.world)) p := by
  induction m generalizing p with
  | done a => exact ⟨pre, rfl⟩
  | read next ih => exact ih _ pre
  | put s next ih => exact pre.imp ih
  | call c next ih =>
    refine ⟨pre.1, fun a q reached => (pre.2 a q reached.1).imp fun rest => ?_⟩
    refine wp_mono _ (fun b r ended => ⟨ended.1, ?_⟩) (ih a rest)
    simp only [run, reached.2]
    exact ended.2

end Act

def Act.Within (D : Scene κ → Scene κ → Prop) (C : Call κ → Prop) : Act κ α → Scene κ → Prop
  | done _, _ => True
  | read next, s => (next s).Within D C s
  | put t next, s => D s t ∧ next.Within D C t
  | call c next, _ => C c ∧ ∀ a t, (next a).Within D C t

theorem Act.wp_of_within {D : Scene κ → Scene κ → Prop} {C : Call κ → Prop} {I : Point κ σ → Prop}
    (changes : ∀ q t, I q → D q.scene t → K.Takes q.past (.change q.scene t) (I (q.change t)))
    (calls : ∀ c q, I q → C c → K.before c q ∧ ∀ a r, K.after c q a r →
      K.Takes r.past (.answer c q.world a r.world) (I (r.answered c q.world a)))
    {m : Act κ α} (start : I p) (within : m.Within D C p.scene) :
    m.wp K (fun _ q => I q) p := by
  induction m generalizing p with
  | done a => exact start
  | read next ih => exact ih _ start within
  | put t next ih => exact (changes p t start within.1).imp fun kept => ih kept within.2
  | call c next ih =>
    obtain ⟨ready, reached⟩ := calls c p start within.1
    exact ⟨ready, fun a q after => (reached a q after).imp fun kept =>
      ih a kept (within.2 a q.scene)⟩

theorem Script.wp_mono (m : Script κ σ α) (weaker : ∀ a q, Q a q → Q' a q) (pre : m.wp K Q p) :
    m.wp K Q' p := by
  induction m generalizing p with
  | done a => exact weaker a p pre
  | look next ih => exact ih _ _ pre
  | keep store next ih => exact ih pre
  | ask r next ih => exact pre.imp fun act => Act.wp_mono _ (fun a q rest => ih a rest) act

theorem Script.wp_of_requests {I : Point κ σ → Prop}
    (keeps : ∀ q store, I q → I (q.keep store))
    (requests : ∀ r q, I q →
      K.Takes q.past (.request r q.scene) (r.act.wp K (fun _ s => I s) (q.request r)))
    (m : Script κ σ α) (start : I p) : m.wp K (fun _ q => I q) p := by
  induction m generalizing p with
  | done a => exact start
  | look next ih => exact ih _ _ start
  | keep store next ih => exact ih (keeps p store start)
  | ask r next ih =>
    exact (requests r p start).imp fun act => Act.wp_mono _ (fun a q kept => ih a kept) act

end LiveTree
