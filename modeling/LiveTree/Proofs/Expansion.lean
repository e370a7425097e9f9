import LiveTree.Proofs.Contract.Rules
import LiveTree.Proofs.Document.Planting

/-! What the document gets when a template is expanded. The acts that make nodes plant the markup, with
components at some of the nodes, as long as the making of these does not touch the nodes that are there. -/
namespace LiveTree
variable {κ σ : Type}

namespace Markup

mutual
def tags : Markup → List String
  | .text _ => []
  | .element tag _ children => tag :: tagsOf children

def tagsOf : List Markup → List String
  | [] => []
  | m :: rest => m.tags ++ tagsOf rest
end

end Markup

structure Fosters (K : Contract κ σ) (P : Point κ σ → Prop) (fine : String → Prop) : Prop where
  edit : ∀ p d, P p → K.Takes p.past (.change p.scene (p.scene.edit fun _ => d))
    (P (p.change (p.scene.edit fun _ => d)))
  own : ∀ p owner, P p → K.Takes p.past (.change p.scene { p.scene with templateOwner := owner })
    (P (p.change { p.scene with templateOwner := owner }))
  instantiate : ∀ p tag d x owner, P p → fine tag → p.scene.definition? tag = some d →
    (Act.instantiate x d owner).wp K (fun _ q => P q ∧
      p.scene.document.Follows q.scene.document ∧ p.scene.document.Keeps q.scene.document) p

namespace Fosters
open Act Document
variable {K : Contract κ σ} {P : Point κ σ → Prop} {fine : String → Prop}
  (fosters : Fosters K P fine) {p : Point κ σ}
include fosters

theorem wp_edit {f : Document → Document} (here : P p) : (Act.edit f).wp K (fun _ q => P q ∧
    q.scene.document = f p.scene.document) p :=
  (fosters.edit p (f p.scene.document) here).imp fun kept => ⟨kept, rfl⟩

theorem wp_createText (text : String) (sound : p.scene.document.Sound) (here : P p) :
    (Act.createText text).wp K (fun x q => P q ∧
      Plants (.text text) x p.scene.document q.scene.document) p := by
  have added := plants_add (m := .text text) sound (reworks_createText p.scene.document text).toFollows rfl rfl
  refine (wp_bind _ _).mpr (wp_scene.mpr ?_)
  dsimp -zeta only
  refine (wp_bind _ _).mpr (wp_mono _ ?_ (fosters.wp_edit here))
  rintro _ q ⟨here, document⟩
  exact ⟨here, document ▸ added⟩

theorem wp_createElement {tag : String} (known : fine tag) (sound : p.scene.document.Sound) (here : P p) :
    (Act.createElement tag).wp K (fun x q => P q ∧
      Plants (.element tag [] []) x p.scene.document q.scene.document) p := by
  have added := plants_add (m := .element tag [] []) sound (follows_createElement p.scene.document tag) rfl rfl
  refine (wp_bind _ _).mpr (wp_scene.mpr ?_)
  dsimp -zeta only
  refine (wp_bind _ _).mpr ((fosters.edit p _ here).imp fun here => ?_)
  split
  · next d found =>
    have made := fosters.instantiate _ tag d ⟨p.scene.document.size⟩ p.scene.templateOwner here known found
    refine (wp_bind _ _).mpr (wp_mono _ ?_ made)
    rintro id q ⟨here, follows, keeps⟩
    exact ⟨here, added.still keeps follows⟩
  · exact ⟨here, added⟩

mutual
theorem wp_grow (m : Markup) {p : Point κ σ} (known : ∀ tag ∈ m.tags, fine tag)
    (sound : p.scene.document.Sound) (here : P p) :
    (Act.grow m).wp K (fun x q => P q ∧ Plants m x p.scene.document q.scene.document) p := by
  cases m with
  | text words => exact fosters.wp_createText words sound here
  | element tag attributes children =>
    rw [Markup.tags] at known
    obtain ⟨fits, known⟩ := List.forall_mem_cons.mp known
    rw [Act.grow]
    refine (wp_bind _ _).mpr (wp_mono _ ?_ (fosters.wp_createElement fits sound here))
    rintro x q ⟨here, made⟩
    refine (wp_bind _ _).mpr (wp_mono _ ?_ (fosters.wp_edit here))
    rintro _ r ⟨here, document⟩
    have named := document ▸ made.name attributes
    have below := wp_growBelow x children known named.sound named.bound here
    refine (wp_bind _ _).mpr (wp_mono _ ?_ below)
    rintro xs t ⟨here, grown⟩
    exact ⟨here, named.fill grown⟩

theorem wp_growBelow (parent : NodeId) (ms : List Markup) {p : Point κ σ}
    (known : ∀ tag ∈ Markup.tagsOf ms, fine tag) (sound : p.scene.document.Sound)
    (there : parent.index < p.scene.document.size) (here : P p) :
    (Act.growBelow parent ms).wp K (fun xs q => P q ∧
      PlantsBelow parent ms xs p.scene.document q.scene.document) p := by
  cases ms with
  | nil => exact ⟨here, plantsBelow_nil sound parent⟩
  | cons m rest =>
    rw [Markup.tagsOf] at known
    obtain ⟨first, later⟩ := List.forall_mem_append.mp known
    rw [Act.growBelow]
    refine (wp_bind _ _).mpr (wp_mono _ ?_ (wp_grow m first sound here))
    rintro x q ⟨here, made⟩
    refine (wp_bind _ _).mpr (wp_mono _ ?_ (fosters.wp_edit here))
    rintro _ r ⟨here, hung⟩
    have sound := hung ▸ made.sound.appendChild (made.allows there)
    have there' : parent.index < r.scene.document.size := by
      rw [hung, size_appendChild]
      exact there.trans_le (made.keeps.gains parent).size
    refine (wp_bind _ _).mpr (wp_mono _ ?_ (wp_growBelow parent rest later sound there' here))
    rintro xs t ⟨here, grown⟩
    exact ⟨here, made.below there (hung ▸ grown)⟩
end

theorem wp_growTemplate (id : ComponentId) (host : NodeId) {template : List Markup}
    (known : ∀ tag ∈ Markup.tagsOf template, fine tag) (sound : p.scene.document.Sound)
    (there : host.index < p.scene.document.size) (here : P p) :
    (Act.growTemplate id host template).wp K (fun xs q => P q ∧
      PlantsBelow host template xs p.scene.document q.scene.document) p := by
  refine (wp_bind _ _).mpr (wp_scene.mpr ((wp_bind _ _).mpr ((fosters.own p _ here).imp fun here => ?_)))
  refine (wp_bind _ _).mpr (wp_mono _ ?_ (fosters.wp_growBelow host template known sound there here))
  rintro xs q ⟨here, grown⟩
  exact (wp_bind _ _).mpr ((fosters.own q _ here).imp fun here => ⟨here, grown⟩)

/-- The former children are cut off, and the template grows below the host. -/
theorem wp_expand (id : ComponentId) {c : Component κ} (light : List NodeId) {template : List Markup}
    (read : c.definition.template.map Markup.read = some (.ok template))
    (known : ∀ tag ∈ Markup.tagsOf template, fine tag) (sound : p.scene.document.Sound)
    (there : c.node.index < p.scene.document.size) (here : P p) :
    (Act.expand id c light).wp K (fun xs q => P q ∧ ∃ ys, xs = some ys ∧
      PlantsBelow c.node template ys
        (light.foldl (fun d x => (d.removeChild? c.node x).getD d) p.scene.document) q.scene.document) p := by
  have prunes := Prunes.foldl (fun d x => d.prunes_removeChild c.node x) light p.scene.document
  unfold Act.expand
  rw [read]
  refine (wp_bind _ _).mpr (wp_mono _ ?_ (fosters.wp_edit here))
  rintro _ q ⟨here, cut⟩
  rw [← cut] at prunes ⊢
  have grown := fosters.wp_growTemplate id c.node known (prunes.sound sound) (there.trans_le prunes.size) here
  refine (wp_bind _ _).mpr (wp_mono _ ?_ grown)
  rintro xs r ⟨here, grown⟩
  exact ⟨here, xs, rfl, grown⟩

end Fosters
end LiveTree
