import LiveTree.Proofs.Loading.Scenes

/-! The loading gate as a contract. While the document is loading no component is configured, and what
comes into the document waits. Otherwise nothing is due between operations, and a component is configured
after those above it. There is no consumer code, so that an operation runs through without another. -/
namespace LiveTree
variable {κ σ α β : Type}

def Request.isPlain : Request κ → Bool
  | .edit _ => false
  | .appendChild _ child => child ≠ Document.root
  | _ => true

namespace Scene

/-- All that is due waits for the document to be loaded, but for some components that are still to be
connected. When it is loaded nothing waits. -/
structure Gated (ids : List ComponentId) (s : Scene κ) : Prop where
  waits : ∀ id, s.Due id → id ∈ s.pending ∨ id ∈ ids
  idle : s.loading = false → s.pending = []

theorem Gated.eases {ids : List ComponentId} {s t : Scene κ} (gated : s.Gated ids) (eases : s.Eases t) :
    t.Gated ids where
  waits id due := by
    rw [eases.pending]
    exact gated.waits id (eases.due id due)
  idle loaded := by
    rw [eases.pending]
    exact gated.idle (eases.loading.symm.trans loaded)

structure Admits (s t : Scene κ) : Prop where
  loading : s.loading = true → s.Bars .configured t
  order : ∀ id, t.stage? id = some .configured → s.stage? id = some .configured ∨ s.Ripe id

theorem Bars.admits {s t : Scene κ} (bars : s.Bars .configured t) : s.Admits t where
  loading _ := bars
  order id here := .inl (bars id here)

end Scene

def Gating (κ σ : Type) : Contract κ σ where
  given _ x := match x with
    | .change s t => t.Placed ∧ s.Moves t ∧ s.Tidies t
    | .request r _ => r.isPlain = true
    | .answer .. => True
  safe _ x := match x with
    | .change s t => s.Admits t
    | .request _ s => s.Gated []
    | .answer .. => True
  before c p := p.scene.Regular ∧ ∀ id, c = .connect id → p.scene.loading = false ∧ p.scene.Ripe id
  after c p _ q := q.scene.Regular ∧ p.scene.Eases q.scene ∧
    (∀ id d, c = .connect id → p.scene.component? id = some d → q.scene.Configured id) ∧
      ∀ f arguments, c = .apply f arguments → q.scene = p.scene

namespace Gating
variable {p : Point κ σ}

/-- What a change of the scene needs that leaves the root where it is. -/
theorem takes {t : Scene κ} {Q : Prop} (sited : p.scene.Sited) (admits : p.scene.Admits t)
    (size : p.scene.document.size ≤ t.document.size)
    (top : ∀ x, t.document.Link Document.root x → p.scene.document.Link Document.root x)
    (rest : t.Sited → p.scene.Moves t → p.scene.Tidies t → Q) :
    (Gating κ σ).Takes p.past (.change p.scene t) Q := by
  refine ⟨admits, fun ⟨placed, moves, tidies⟩ => rest ⟨placed, sited.rooted.trans_le size, ?_,
    tidies.tidy sited.tidy⟩ moves tidies⟩
  cases above : t.document.parent? Document.root with
  | none => rfl
  | some x => cases sited.top.symm.trans (top x above)

section Still
variable {t : Scene κ} {Q : Prop}

/-- What a change needs that leaves the document alone. -/
theorem takes_still (sited : p.scene.Sited) (admits : p.scene.Admits t)
    (same : t.document = p.scene.document) (rest : t.Sited → Q) :
    (Gating κ σ).Takes p.past (.change p.scene t) Q :=
  takes sited admits (congrArg Document.size same).ge (fun _ link => by rwa [same] at link)
    fun sited _ _ => rest sited

/-- What a change needs that leaves the stages alone as well: nothing. -/
theorem takes_idle (regular : p.scene.Regular) (same : t.document = p.scene.document)
    (stages : ∀ id, t.stage? id = p.scene.stage? id) (rest : t.Regular → Q) :
    (Gating κ σ).Takes p.past (.change p.scene t) Q :=
  takes_still regular.toSited (Scene.Bars.admits (.of_stages stages)) same fun sited =>
    rest ⟨sited, fun id => by rw [stages]; exact regular.born id⟩

/-- A component is set to one of the later stages. -/
theorem takes_later {id : ComponentId} {f : Component κ → Component κ} (regular : p.scene.Regular)
    (later : ∀ c, (f c).stage.isConfigured = true) (admits : p.scene.Admits (p.scene.modify id f))
    (rest : (p.scene.modify id f).Regular → Q) :
    (Gating κ σ).Takes p.past (.change p.scene (p.scene.modify id f)) Q :=
  takes_still regular.toSited admits rfl fun sited => rest (regular.modify id later sited)

end Still

/-- A call that is not to connect a component needs nothing but a regular scene. -/
theorem takes_call (c : Call κ) (other : c.kind ≠ .connect) (regular : p.scene.Regular) :
    (Gating κ σ).before c p ∧ ∀ a q, (Gating κ σ).after c p a q →
      (Gating κ σ).Takes q.past (.answer c p.world a q.world)
        (q.scene.Regular ∧ p.scene.Eases q.scene) :=
  ⟨⟨regular, fun _ same => absurd (congrArg Call.kind same) other⟩, fun _ _ kept =>
    ⟨trivial, fun _ => ⟨kept.1, kept.2.1⟩⟩⟩

end Gating

/-- With the same components in the same stages none is just being made. -/
theorem Scene.Regular.of_moves {s t : Scene κ} (regular : s.Regular) (sited : t.Sited) (moves : s.Moves t)
    (size : t.components.size = s.components.size) : t.Regular where
  toSited := sited
  born id here := by
    have moved := moves id
    rw [here] at moved
    cases before : s.stage? id with
    | some a =>
      rw [before] at moved
      cases moved with
      | stay => exact regular.born id before
      | advance started next => rcases next with next | next | next <;> cases next
    | none =>
      have missing : s.component? id = none := Option.map_eq_none_iff.mp before
      have bound : s.components.size ≤ id.index := Array.getElem?_eq_none_iff.mp missing
      have missing : t.component? id = none := Array.getElem?_eq_none (size.trans_le bound)
      rw [stage?, missing] at here
      cases here

namespace Act
variable {p : Point κ σ}

/-- An act that trims leaves nothing due that was not. -/
theorem Trims.wp_eases {m : Act κ α} (trims : m.Trims) (regular : p.scene.Regular) :
    m.wp (Gating κ σ) (fun _ q => q.scene.Regular ∧ p.scene.Eases q.scene) p := by
  refine trims.wp (I := fun q => q.scene.Regular ∧ p.scene.Eases q.scene) ?_ ?_
    ⟨regular, Std.Refl.refl _⟩
  · rintro q t ⟨regular, since⟩ trimmed
    refine Gating.takes regular.toSited (Scene.Bars.admits trimmed.stage) trimmed.document.size ?_ ?_
    · exact fun x link => (trimmed.document.link _ x link).resolve_right
        (Nat.not_le_of_lt regular.rooted)
    · exact fun sited moves _ => ⟨regular.of_moves sited moves trimmed.size,
        IsTrans.trans _ _ _ since (trimmed.eases moves.ahead regular.toPlaced)⟩
  · rintro c q ⟨regular, since⟩ other
    obtain ⟨ready, answered⟩ := Gating.takes_call c other regular
    exact ⟨ready, fun a r after => (answered a r after).imp fun kept =>
      ⟨kept.1, IsTrans.trans _ _ _ since kept.2⟩⟩

/-- What an act leaves alone is as it was, if no calls come between but those of functions. -/
theorem Touches.wp_alike [IsEmpty κ] {F : List Field} {C : List Call.Kind} {m : Act κ α}
    (touches : m.Touches F C) (apart : (∀ f ∈ [Field.tree, .components, .stage], f ∉ F) ∧
      C ⊆ [.callback, .hook, .apply]) (regular : p.scene.Regular) :
    m.wp (Gating κ σ) (fun _ q => q.scene.Regular ∧ p.scene.Alike F q.scene) p := by
  refine wp_of_within (I := fun q => q.scene.Regular ∧ p.scene.Alike F q.scene) ?_ ?_
    ⟨regular, .refl _⟩ (touches p.scene)
  · rintro q t ⟨regular, since⟩ alike
    have stages (id) : t.stage? id = q.scene.stage? id :=
      alike.stage? (fun f member => apart.1 f (by grind)) id
    have tree : t.document.tree = q.scene.document.tree := alike.view .tree (apart.1 _ (by decide))
    refine Gating.takes regular.toSited (Scene.Bars.admits (.of_stages stages)) alike.document.size ?_ ?_
    · intro x link
      rwa [Document.Link, Document.parent?_eq, tree, ← Document.parent?_eq] at link
    · exact fun sited moves _ => ⟨regular.of_moves sited moves
        (alike.view .components (apart.1 _ (by decide))), since.trans alike⟩
  · rintro c q ⟨regular, since⟩ kind
    have other : c.kind ≠ .connect := fun same => by
      have := apart.2 (same ▸ kind)
      simp at this
    refine ⟨⟨regular, fun _ same => absurd (congrArg Call.kind same) other⟩, fun a r after => ⟨trivial, ?_⟩⟩
    refine fun _ => ⟨after.1, ?_⟩
    cases c with
    | callback k o => exact isEmptyElim k
    | apply f arguments =>
      have same : r.scene = q.scene := after.2.2.2 f arguments rfl
      exact same ▸ since
    | _ => exact absurd (apart.2 kind) (by simp [Call.kind])

end Act
end LiveTree
