import LiveTree.Proofs.Contract.Outline
import LiveTree.Proofs.Contract.Preserving
import LiveTree.Proofs.Expansion
import LiveTree.Proofs.Light.Dormancy
import LiveTree.Proofs.Readiness.Contract

/-! How a component is expanded. Of what is done to connect a component only one step leads to the
expanded stage; what holds after it is found by going through the acts up to there, with calls that
leave the component dormant. The nodes of its template are made before: where their components are of
silent types nobody is told of them, so that the component whose template it is stays configured and
nothing else happens to the document. -/
namespace LiveTree
variable {κ σ α : Type}

def Expecting (σ : Type) (id : ComponentId) (Q : Scene κ → Prop) : Contract κ σ where
  given _ _ := True
  safe _ x := x.Keeps fun s t => s.stage? id ≠ some .expanded → t.stage? id = some .expanded → Q t
  before _ _ := True
  after c p _ q := p.scene.Dormant id → c.Concerns id →
    q.scene.Dormant id ∧ p.scene.Alike Field.early q.scene

namespace Expecting
variable {id : ComponentId} {Q : Scene κ → Prop} {p : Point κ σ}

theorem takes {t : Scene κ} {R : Prop} (early : t.stage? id ≠ some .expanded) (rest : R) :
    (Expecting σ id Q).Takes p.past (.change p.scene t) R := ⟨fun _ late => absurd late early, fun _ => rest⟩

/-- What is done for a dormant component is far from expanding it. -/
theorem of_slumbers {m : Act κ α} {s : Scene κ} (slumbers : m.Slumbers id s)
    (dormant : p.scene.Dormant id) (since : s.Alike Field.early p.scene) :
    m.wp (Expecting σ id Q) (fun _ q => q.scene.Dormant id ∧ s.Alike Field.early q.scene) p := by
  refine Act.wp_of_contract ?_ (fun _ _ _ => trivial) (fun _ _ _ => trivial) ?_ (slumbers σ p dormant since)
  · intro past x safe
    cases x with
    | change s t => exact fun _ late => absurd late (safe t (by simp [Step.scenes])).stage?_ne
    | request r s => trivial
    | answer c before a after => trivial
  · exact fun c p a q before after => after before.1 before.2

/-- Acts that leave the stages alone have nothing to do with the moment. -/
theorem of_touches {F : List Field} {C : List Call.Kind} {m : Act κ α} (touches : m.Touches F C)
    (out : ∀ f ∈ [Field.stage, .components], f ∉ F) : m.wp (Expecting σ id Q) (fun _ _ => True) p := by
  refine Act.wp_of_within (I := fun _ => True) (fun q t _ alike => ?_) ?_ trivial (touches p.scene)
  · refine ⟨fun early late => absurd ?_ early, fun _ => trivial⟩
    exact (alike.stage? out id).symm.trans late
  · exact fun c q _ _ => ⟨trivial, fun _ _ _ => ⟨trivial, fun _ => trivial⟩⟩

/-- Calls keep to the contract, as they are answered in the outline of an act. -/
theorem fulfils_answer (env : Environment κ σ) (fuel : Nat) (c : Call κ) (p : Point κ σ) :
    (Expecting σ id Q).Fulfils p ⟨[], env.answer fuel c p.world⟩ ((Expecting σ id Q).after c p) := by
  refine fun _ => ⟨trivial, fun a w (answered : env.answer fuel c p.world = some (a, w)) dormant concerns => ?_⟩
  have kept := env.meets (env.meets_dormant id) fuel c p ⟨dormant, concerns⟩
  have ended : (env.trace fuel c p.world).result = some (a, w) := by rw [env.result_trace, answered]
  exact (kept (Along.iff_splits.mpr fun _ _ _ _ => trivial)).2 a w ended

theorem outline {env : Environment κ σ} {fuel : Nat} {m : Act κ α} {w : World κ σ}
    (pre : m.wp (Expecting σ id Q) (fun _ _ => True) ⟨[], w⟩) {s t : Scene κ}
    (step : .change s t ∈ (env.outline fuel m w).steps) (early : s.stage? id ≠ some .expanded)
    (late : t.stage? id = some .expanded) : Q t := by
  have kept : (Expecting σ id Q).Fulfils ⟨[], w⟩ (env.outline fuel m w) _ :=
    Act.fulfils (fun c p _ => fulfils_answer env fuel c p) m pre
  obtain ⟨front, back, same⟩ := List.append_of_mem step
  have safe := (kept (Along.iff_splits.mpr fun _ _ _ _ => trivial)).1
  exact Along.iff_splits.mp safe front _ back same early late

end Expecting

def Scene.Awaits (id : ComponentId) (definitions : Keyed (Definition κ)) (s : Scene κ) : Prop :=
  s.stage? id = some .configured ∧ s.definitions = definitions

namespace Scene.Awaits
variable {id other : ComponentId} {definitions : Keyed (Definition κ)} {s : Scene κ}

theorem bound (awaits : s.Awaits id definitions) : id.index < s.components.size := by
  obtain ⟨c, found, -⟩ := Option.map_eq_some_iff.mp awaits.1
  obtain ⟨bound, -⟩ := Array.getElem?_eq_some_iff.mp found
  exact bound

theorem push (awaits : s.Awaits id definitions) (c : Component κ) :
    ({ s with components := s.components.push c } : Scene κ).Awaits id definitions := by
  refine ⟨?_, awaits.2⟩
  rw [Scene.stage?, Scene.component?, Arena.get?_push, if_neg (Nat.ne_of_lt awaits.bound)]
  exact awaits.1

theorem modify (awaits : s.Awaits id definitions) (apart : other ≠ id) (f : Component κ → Component κ) :
    (s.modify other f).Awaits id definitions := by
  refine ⟨?_, awaits.2⟩
  rw [Scene.stage?, Scene.component?_modify, if_neg apart]
  exact awaits.1

theorem stage?_ne (awaits : s.Awaits id definitions) : s.stage? id ≠ some .expanded := by
  rw [awaits.1]
  decide

end Scene.Awaits

structure Scene.Makes (id new : ComponentId) (definitions : Keyed (Definition κ)) (d : Definition κ)
    (k : Document) (s : Scene κ) : Prop where
  awaits : s.Awaits id definitions
  document : s.document = k
  made : ∃ c, s.component? new = some c ∧ c.definition = d ∧
    ∀ part ∈ c.parts, part.capability ∈ d.capabilities

section Making
variable {id new : ComponentId} {Q : Scene κ → Prop} {p : Point κ σ}
  {definitions : Keyed (Definition κ)} {d : Definition κ} {k : Document}

theorem wp_modify_new (apart : new ≠ id) {f : Component κ → Component κ} (keeps : ∀ c : Component κ,
      (f c).definition = c.definition ∧ (f c).parts.map Part.capability = c.parts.map Part.capability)
    (makes : p.scene.Makes id new definitions d k) :
    (Act.modify new f).wp (Expecting σ id Q) (fun _ q => q.scene.Makes id new definitions d k) p := by
  obtain ⟨awaits, document, c, found, type, parts⟩ := makes
  have later := awaits.modify apart f
  refine Expecting.takes later.stage?_ne ⟨later, document, f c, ?_, (keeps c).1.trans type, ?_⟩
  · exact (Scene.component?_modify _ _ _ _).trans (by rw [if_pos rfl, found, Option.map_some])
  · have all : ∀ x ∈ c.parts.map Part.capability, x ∈ d.capabilities := List.forall_mem_map.mpr parts
    rw [← (keeps c).2] at all
    exact List.forall_mem_map.mp all

/-- The parts are told, none of which has a hook. -/
theorem wp_tellParts_silent (apart : new ≠ id) (silent : d.Silent) (m : Moment)
    (makes : p.scene.Makes id new definitions d k) :
    (Act.tellParts new m).wp (Expecting σ id Q) (fun _ q => q.scene.Makes id new definitions d k) p := by
  obtain ⟨c, found, -, parts⟩ := makes.made
  refine Act.wp_withComponent (fun e here => ?_) fun missing => nomatch missing.symm.trans found
  cases here.symm.trans found
  have marked (c : Component κ) : (c.parts.map (·.mark m)).map Part.capability = c.parts.map Part.capability := by
    rw [List.map_map]
    exact List.map_congr_left fun p _ => by cases m <;> rfl
  refine (Act.wp_bind _ _).mpr (Act.wp_mono _ (fun _ q makes => ?_)
    (wp_modify_new apart (fun c => ⟨rfl, marked c⟩) makes))
  refine Act.wp_each (fun rest q => q.scene.Makes id new definitions d k ∧
    ∀ part ∈ rest, part.capability ∈ d.capabilities) (fun part rest q kept => ?_) (fun q kept => kept.1)
    _ ⟨makes, parts⟩
  obtain ⟨member, later⟩ := List.forall_mem_cons.mp kept.2
  rw [silent.capabilities _ member]
  exact ⟨kept.1, later⟩

/-- A component of a silent type is made, and that is all that happens. -/
theorem wp_instantiate_silent (silent : d.Silent) (x : NodeId) (owner : Option ComponentId)
    (awaits : p.scene.Awaits id definitions) :
    (Act.instantiate x d owner).wp (Expecting σ id Q)
      (fun _ q => q.scene.Awaits id definitions ∧ q.scene.document = p.scene.document) p := by
  have apart : (⟨p.scene.components.size⟩ : ComponentId) ≠ id := by
    rintro rfl
    exact Nat.lt_irrefl _ awaits.bound
  refine (Act.wp_bind _ _).mpr (Act.wp_scene.mpr ?_)
  generalize fresh : (⟨p.scene.components.size⟩ : ComponentId) = new at apart
  have pushed := awaits.push (.new d x owner)
  refine (Act.wp_bind _ _).mpr ((Act.wp_update _).mpr (Expecting.takes pushed.stage?_ne ?_))
  have makes : Scene.Makes id new definitions d p.scene.document
      { p.scene with components := p.scene.components.push (.new d x owner) } := by
    refine ⟨pushed, rfl, .new d x owner, ?_, rfl, fun part inside => ?_⟩
    · rw [← fresh]
      exact (Arena.get?_push _ _ _).trans (if_pos rfl)
    · obtain ⟨c, member, rfl⟩ := List.mem_map.mp inside
      exact member
  refine (Act.wp_bind _ _).mpr (Act.wp_mono _ (fun _ q makes => ?_)
    (wp_modify_new (f := fun c => { c with stage := .created }) apart (fun _ => ⟨rfl, rfl⟩) makes))
  refine (Act.wp_bind _ _).mpr (Act.wp_mono _ (fun _ r makes => ?_)
    (wp_tellParts_silent apart silent .created makes))
  obtain ⟨awaits, document, c, found, rfl, -⟩ := makes
  refine (Act.wp_bind _ _).mpr (Act.wp_withComponent (fun e here => ?_) fun _ => ⟨awaits, document⟩)
  cases here.symm.trans found
  rw [silent.hooks]
  exact ⟨awaits, document⟩

theorem fosters_awaits {fine : String → Prop}
    (nested : ∀ tag, fine tag → ∀ d, definitions.get? tag.toLower = some d → d.Silent) :
    Fosters (Expecting σ id Q) (fun p => p.scene.Awaits id definitions) fine where
  edit _ _ awaits := Expecting.takes awaits.stage?_ne awaits
  own _ _ awaits := Expecting.takes awaits.stage?_ne awaits
  instantiate p tag d x owner awaits known found := by
    have made := wp_instantiate_silent (σ := σ) (Q := Q) (nested tag known d (by rwa [← awaits.2])) x owner awaits
    refine Act.wp_mono _ ?_ made
    rintro _ q ⟨awaits, document⟩
    exact ⟨awaits, document ▸ .refl _, document ▸ .refl _⟩

end Making
end LiveTree
