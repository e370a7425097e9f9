import LiveTree.Proofs.Loading.Contract

/-! How scenes grow. The components of a template are made at new nodes and are not configured yet; the
document grows below the host alone. What was there before stays as it is. -/
namespace LiveTree
variable {κ σ α : Type}

namespace Scene

structure Breeds (s t : Scene κ) : Prop where
  size : s.document.size ≤ t.document.size
  old : ∀ id c, s.component? id = some c →
    ∃ d, t.component? id = some d ∧ d.node = c.node ∧ d.stage = c.stage
  new : ∀ id d, s.component? id = none → t.component? id = some d →
    s.document.size ≤ d.node.index ∧ d.stage.isConfigured = false
  loading : t.loading = s.loading
  pending : t.pending = s.pending

instance : IsPreorder (Scene κ) Breeds where
  refl _ := ⟨Nat.le_refl _, fun _ c found => ⟨c, found, rfl, rfl⟩,
    fun _ _ missing found => absurd (missing.symm.trans found) (Option.some_ne_none _).symm, rfl, rfl⟩
  trans s t u first second := by
    refine ⟨first.size.trans second.size, fun id c found => ?_, fun id e missing found => ?_,
      second.loading.trans first.loading, second.pending.trans first.pending⟩
    · obtain ⟨d, there, node, stage⟩ := first.old id c found
      obtain ⟨e, later, node', stage'⟩ := second.old id d there
      exact ⟨e, later, node'.trans node, stage'.trans stage⟩
    · cases there : t.component? id with
      | none => exact (second.new id e there found).imp_left first.size.trans
      | some d =>
        obtain ⟨e', later, node, stage⟩ := second.old id d there
        cases later.symm.trans found
        rw [node, stage]
        exact first.new id d missing there

structure Enlists (id : ComponentId) (x : NodeId) (s t : Scene κ) : Prop where
  document : t.document = s.document
  old : ∀ id c, s.component? id = some c →
    ∃ d, t.component? id = some d ∧ d.node = c.node ∧ d.stage = c.stage
  missing : s.component? id = none
  made : ∃ d, t.component? id = some d ∧ d.node = x ∧ d.stage = .created
  only : ∀ other, s.component? other = none → other ≠ id → t.component? other = none
  loading : t.loading = s.loading
  pending : t.pending = s.pending

section Relations
variable {F : List Field} {s t u : Scene κ} {id : ComponentId} {x : NodeId}

theorem Breeds.edit (s : Scene κ) {d : Document} (size : s.document.size ≤ d.size) :
    s.Breeds (s.edit fun _ => d) :=
  ⟨size, fun _ c found => ⟨c, found, rfl, rfl⟩,
    fun _ _ missing found => absurd (missing.symm.trans found) (Option.some_ne_none _).symm, rfl, rfl⟩

theorem Alike.akin (alike : s.Alike F t) (out : ∀ f ∈ [Field.components, .stage], f ∉ F) :
    (∀ id c, s.component? id = some c → ∃ d, t.component? id = some d ∧ d.node = c.node ∧ d.stage = c.stage) ∧
      ∀ id, s.component? id = none → t.component? id = none := by
  refine ⟨fun id c found => ?_, fun id missing => ?_⟩
  · obtain ⟨d, there, same⟩ := alike.component id c found
    exact ⟨d, there, same.node, same.view .stage (out _ (by decide))⟩
  · have same := alike.map_component? (out _ (by decide)) (fun _ => ()) (fun _ _ _ => rfl) id
    rw [missing] at same
    exact Option.map_eq_none_iff.mp same

theorem Alike.breeds (alike : s.Alike F t)
    (out : ∀ f ∈ [Field.components, .stage, .loading, .pending], f ∉ F) : s.Breeds t where
  size := alike.document.size
  old := (alike.akin fun f member => out f (by grind)).1
  new id d missing found := by
    cases ((alike.akin fun f member => out f (by grind)).2 id missing).symm.trans found
  loading := alike.view .loading (out _ (by decide))
  pending := alike.view .pending (out _ (by decide))

theorem Enlists.alike (enlists : s.Enlists id x t) (alike : t.Alike F u)
    (out : ∀ f ∈ [Field.document, .components, .stage, .loading, .pending], f ∉ F) :
    s.Enlists id x u := by
  obtain ⟨old, none⟩ := alike.akin fun f member => out f (by grind)
  have document : u.document = t.document := alike.view .document (out _ (by decide))
  refine ⟨document.trans enlists.document, fun other c found => ?_, enlists.missing, ?_,
    fun other missing apart => none other (enlists.only other missing apart),
    (alike.view .loading (out _ (by decide))).trans enlists.loading,
    (alike.view .pending (out _ (by decide))).trans enlists.pending⟩
  · obtain ⟨d, there, node, stage⟩ := enlists.old other c found
    obtain ⟨e, later, node', stage'⟩ := old other d there
    exact ⟨e, later, node'.trans node, stage'.trans stage⟩
  · obtain ⟨d, there, node, stage⟩ := enlists.made
    obtain ⟨e, later, node', stage'⟩ := old id d there
    exact ⟨e, later, node'.trans node, stage'.trans stage⟩

theorem Breeds.enlists (breeds : s.Breeds t) (enlists : t.Enlists id x u)
    (new : s.document.size ≤ x.index) : s.Breeds u where
  size := breeds.size.trans_eq (congrArg Document.size enlists.document).symm
  old other c found := by
    obtain ⟨d, there, node, stage⟩ := breeds.old other c found
    obtain ⟨e, later, node', stage'⟩ := enlists.old other d there
    exact ⟨e, later, node'.trans node, stage'.trans stage⟩
  new other e missing found := by
    by_cases same : other = id
    · subst same
      obtain ⟨e', there, rfl, stage⟩ := enlists.made
      cases there.symm.trans found
      rw [stage]
      exact ⟨new, rfl⟩
    · cases there : t.component? other with
      | none => cases (enlists.only other there same).symm.trans found
      | some d =>
        obtain ⟨e', later, node, stage⟩ := enlists.old other d there
        cases later.symm.trans found
        rw [node, stage]
        exact breeds.new other d missing there
  loading := enlists.loading.trans breeds.loading
  pending := enlists.pending.trans breeds.pending

end Relations
end Scene

namespace Gating
open Act
variable {p : Point κ σ}

/-- An edit that cuts off or adds nodes, and puts the root nowhere. -/
theorem wp_edit {f : Document → Document} (regular : p.scene.Regular)
    (size : p.scene.document.size ≤ (f p.scene.document).size)
    (top : ∀ x, (f p.scene.document).Link Document.root x → p.scene.document.Link Document.root x) :
    (Act.edit f).wp (Gating κ σ) (fun _ q => q.scene.Regular ∧ q.scene = p.scene.edit f) p :=
  takes regular.toSited (Scene.Bars.admits fun _ here => here) size top fun sited _ _ =>
    ⟨⟨sited, regular.born⟩, rfl⟩

/-- A node is added. -/
theorem wp_add (content : Content) (regular : p.scene.Regular) :
    (Act.edit fun _ => (p.scene.document.add content).2).wp (Gating κ σ) (fun _ q =>
      q.scene.Regular ∧ p.scene.Breeds q.scene ∧
        q.scene.document = (p.scene.document.add content).2) p := by
  have size : p.scene.document.size ≤ (p.scene.document.add content).2.size := by
    rw [Document.size_add]
    exact Nat.le_succ _
  refine wp_mono _ ?_ (wp_edit regular size fun x link => (p.scene.document.parent?_add _ _).symm.trans link)
  rintro _ q ⟨regular, same⟩
  exact ⟨regular, same ▸ .edit p.scene size, congrArg Scene.document same⟩

/-- Nodes are given other attributes. -/
theorem wp_reword {f : Document → Document} (same : (f p.scene.document).tree = p.scene.document.tree)
    (regular : p.scene.Regular) : (Act.edit f).wp (Gating κ σ) (fun _ q =>
      q.scene.Regular ∧ p.scene.Breeds q.scene ∧ p.scene.document.Follows q.scene.document ∧
        (∀ x, q.scene.document.parent? x = p.scene.document.parent? x) ∧
          q.scene.document.size = p.scene.document.size) p := by
  have size : (f p.scene.document).size = p.scene.document.size := by
    rw [Document.size_eq, same, ← Document.size_eq]
  have parent (x : NodeId) : (f p.scene.document).parent? x = p.scene.document.parent? x := by
    rw [Document.parent?_eq, same, ← Document.parent?_eq]
  refine wp_mono _ ?_ (wp_edit regular size.ge fun x link => (parent _).symm.trans link)
  rintro _ q ⟨regular, here⟩
  have document : q.scene.document = f p.scene.document := congrArg Scene.document here
  refine ⟨regular, here ▸ .edit p.scene size.ge, ?_, ?_, ?_⟩
  · rw [document]
    exact .of_tree same
  · rw [document]
    exact parent
  · rw [document, size]

section Making
variable [IsEmpty κ]

theorem wp_instantiate (x : NodeId) (d : Definition κ) (owner : Option ComponentId)
    (regular : p.scene.Regular) : (Act.instantiate x d owner).wp (Gating κ σ)
      (fun id q => q.scene.Regular ∧ p.scene.Enlists id x q.scene) p := by
  refine (wp_bind _ _).mpr (wp_scene.mpr ((wp_bind _ _).mpr ?_))
  generalize place : (⟨p.scene.components.size⟩ : ComponentId) = id
  generalize pushed : ({ p.scene with components := p.scene.components.push (.new d x owner) } :
    Scene κ) = s
  have found (other : ComponentId) : s.component? other =
      if other = id then some (.new d x owner) else p.scene.component? other := by
    rw [← pushed, p.scene.component?_push, ← place]
    exact if_congr ⟨fun same => congrArg ComponentId.mk same, congrArg ComponentId.index⟩ rfl rfl
  have bars : p.scene.Bars .configured s := pushed ▸ .push p.scene nofun
  have document : s.document = p.scene.document := pushed ▸ rfl
  have missing : p.scene.component? id = none := place ▸ Array.getElem?_eq_none (Nat.le_refl _)
  refine (wp_update _).mpr ?_
  rw [pushed]
  refine takes regular.toSited bars.admits (congrArg Document.size document).ge
    (fun y link => by rwa [document] at link) fun sited _ _ => ?_
  generalize created : s.modify id (fun c => { c with stage := .created }) = t
  have found' (other : ComponentId) : t.component? other = if other = id
      then some { Component.new d x owner with stage := .created } else p.scene.component? other := by
    rw [← created, Scene.component?_modify, found]
    by_cases same : other = id
    · rw [if_pos same.symm, if_pos same, if_pos same]
      rfl
    · rw [if_neg (Ne.symm same), if_neg same, if_neg same]
  have enlists : p.scene.Enlists id x t := by
    refine ⟨created ▸ document, fun other c here => ⟨c, ?_, rfl, rfl⟩, missing,
      ⟨_, (found' id).trans (if_pos rfl), rfl, rfl⟩, fun other none apart => ?_,
      created ▸ pushed ▸ rfl, created ▸ pushed ▸ rfl⟩
    · rw [found', if_neg, here]
      rintro rfl
      cases missing.symm.trans here
    · rw [found', if_neg apart, none]
  have bars : s.Bars .configured t := created ▸ .modify s id fun _ => nofun
  refine (wp_bind _ _).mpr ((wp_modify _ _).mpr ?_)
  rw [Point.scene_change, created]
  refine takes (p := p.change s) sited bars.admits
    (congrArg Document.size (enlists.document.trans document.symm)).ge
    (fun y link => by rw [enlists.document] at link; rwa [Point.scene_change, document]) fun sited _ _ => ?_
  have regular : t.Regular := by
    refine ⟨sited, fun other here => ?_⟩
    rw [Scene.stage?, found'] at here
    split at here
    · cases here
    · exact regular.born other here
  have parts := (Touches.tellParts id .created).wp_alike (p := (p.change s).change t) (by decide) regular
  refine (wp_bind _ _).mpr (wp_mono _ ?_ parts)
  rintro _ q ⟨regular, marked⟩
  have hook := (Touches.runHook id "created" Hooks.created).wp_alike (p := q) (by decide) regular
  refine (wp_bind _ _).mpr (wp_mono _ ?_ hook)
  rintro _ r ⟨regular, told⟩
  exact ⟨regular, (enlists.alike marked (by decide)).alike told (by decide)⟩

theorem wp_createElement (tag : String) (regular : p.scene.Regular) :
    (Act.createElement tag).wp (Gating κ σ) (fun x q => q.scene.Regular ∧ p.scene.Breeds q.scene ∧
      x = ⟨p.scene.document.size⟩ ∧ q.scene.document = (p.scene.document.createElement tag).2) p := by
  refine (wp_bind _ _).mpr (wp_scene.mpr ?_)
  dsimp -zeta only
  refine (wp_bind _ _).mpr (wp_mono _ ?_ (wp_add _ regular))
  rintro _ q ⟨regular, breeds, document⟩
  split
  · next d known =>
    refine (wp_bind _ _).mpr (wp_mono _ ?_ (wp_instantiate _ d p.scene.templateOwner regular))
    rintro id r ⟨regular, enlists⟩
    exact ⟨regular, breeds.enlists enlists (Nat.le_refl _), rfl, enlists.document.trans document⟩
  · exact ⟨regular, breeds, rfl, document⟩

end Making

mutual
/-- What has been made of a piece of markup is new, and hangs together below a new node. -/
theorem wp_grow [IsEmpty κ] (m : Markup) {p : Point κ σ} (regular : p.scene.Regular) :
    (Act.grow m).wp (Gating κ σ) (fun x q => q.scene.Regular ∧ p.scene.Breeds q.scene ∧
      p.scene.document.Sprouts x q.scene.document ∧ p.scene.document.size ≤ x.index ∧
      x.index < q.scene.document.size) p := by
  cases m with
  | text text =>
    unfold Act.grow
    refine (wp_bind _ _).mpr (wp_scene.mpr ((wp_bind _ _).mpr (wp_mono _ ?_ (wp_add _ regular))))
    rintro _ q ⟨regular, breeds, document⟩
    refine ⟨regular, breeds, ?_, Nat.le_refl _, ?_⟩
    · rw [document]
      exact p.scene.document.sprouts_add (Document.reworks_createText _ text).toFollows
    · rw [document, Document.size_add]
      exact Nat.lt_succ_self _
  | element tag attributes children =>
    unfold Act.grow
    refine (wp_bind _ _).mpr (wp_mono _ ?_ (wp_createElement tag regular))
    rintro x q ⟨regular, breeds, new, document⟩
    have sprouts : p.scene.document.Sprouts x q.scene.document := by
      rw [document]
      exact p.scene.document.sprouts_add (Document.follows_createElement _ _)
    have inside : x.index < q.scene.document.size := by
      rw [document, new, Document.createElement, Document.size_add]
      exact Nat.lt_succ_self _
    have named : (attributes.foldl (fun d a => d.setAttribute x a.1 a.2) q.scene.document).tree =
        q.scene.document.tree :=
      Document.tree_foldl (fun d a => d.tree_setAttribute x a.1 a.2) attributes _
    refine (wp_bind _ _).mpr (wp_mono _ ?_ (wp_reword named regular))
    rintro _ r ⟨regular, breeds', follows, parents, size⟩
    refine (wp_bind _ _).mpr (wp_mono _ ?_ (wp_growBelow x children regular (inside.trans_eq size.symm)))
    rintro xs t ⟨regular, breeds'', sprouts', -⟩
    refine ⟨regular, IsTrans.trans _ _ _ (IsTrans.trans _ _ _ breeds breeds') breeds'',
      (sprouts.still follows parents).trans sprouts' (.inl rfl), new ▸ Nat.le_refl _, ?_⟩
    exact (inside.trans_eq size.symm).trans_le sprouts'.size

theorem wp_growBelow [IsEmpty κ] (parent : NodeId) (ms : List Markup) {p : Point κ σ}
    (regular : p.scene.Regular) (there : parent.index < p.scene.document.size) :
    (Act.growBelow parent ms).wp (Gating κ σ) (fun xs q => q.scene.Regular ∧ p.scene.Breeds q.scene ∧
      p.scene.document.Sprouts parent q.scene.document ∧
      ∀ x ∈ xs, p.scene.document.size ≤ x.index ∧ q.scene.document.Link x parent) p := by
  cases ms with
  | nil =>
    unfold Act.growBelow
    exact ⟨regular, Std.Refl.refl _, .refl _, fun _ inside => absurd inside List.not_mem_nil⟩
  | cons m rest =>
    unfold Act.growBelow
    refine (wp_bind _ _).mpr (wp_mono _ ?_ (wp_grow m regular))
    rintro x q ⟨regular', breeds, sprouts, new, inside⟩
    have grown : p.scene.document.Sprouts parent (q.scene.document.appendChild parent x) :=
      (sprouts.elsewhere new).append new (.inl rfl)
    have size : (q.scene.document.appendChild parent x).size = q.scene.document.size :=
      Document.size_appendChild _ _ _
    have top (y) (link : (q.scene.document.appendChild parent x).Link Document.root y) :
        q.scene.document.Link Document.root y := by
      refine (Document.link_appendChild link).resolve_right ?_
      rintro ⟨rfl, -⟩
      exact Nat.not_lt_of_le new regular.rooted
    refine (wp_bind _ _).mpr (wp_mono _ ?_ (wp_edit regular' size.ge top))
    rintro _ r ⟨regular', same⟩
    have document : r.scene.document = q.scene.document.appendChild parent x := congrArg Scene.document same
    have here : r.scene.document.Link x parent :=
      document ▸ sprouts.link_append regular.document new inside there
    have breeds' : p.scene.Breeds r.scene :=
      IsTrans.trans _ _ _ breeds (same ▸ .edit q.scene size.ge)
    rw [← document] at grown
    refine (wp_bind _ _).mpr (wp_mono _ ?_
      (wp_growBelow parent rest regular' (there.trans_le grown.size)))
    rintro xs t ⟨regular', breeds'', sprouts', links⟩
    refine ⟨regular', IsTrans.trans _ _ _ breeds' breeds'', grown.trans sprouts' (.inl rfl), ?_⟩
    refine List.forall_mem_cons.mpr ⟨⟨new, ?_⟩, fun y member => ?_⟩
    · exact (sprouts'.kept x (Document.bound_of_parent? here)).trans here
    · exact ⟨grown.size.trans (links y member).1, (links y member).2⟩
end

section Expansion
variable [IsEmpty κ] {host : NodeId}

theorem wp_growTemplate (id : ComponentId) (template : List Markup) (regular : p.scene.Regular)
    (there : host.index < p.scene.document.size) :
    (Act.growTemplate id host template).wp (Gating κ σ) (fun xs q => q.scene.Regular ∧
      p.scene.Breeds q.scene ∧ p.scene.document.Sprouts host q.scene.document ∧
      ∀ x ∈ xs, p.scene.document.size ≤ x.index ∧ q.scene.document.Link x host) p := by
  have owned (owner : Option ComponentId) {q : Point κ σ} (regular : q.scene.Regular) :
      (Act.update fun s : Scene κ => { s with templateOwner := owner }).wp (Gating κ σ) (fun _ r =>
        r.scene.Regular ∧ q.scene.Breeds r.scene ∧ r.scene.document = q.scene.document) q := by
    have touches : (Act.update fun s : Scene κ => { s with templateOwner := owner }).Touches
        [.templateOwner] [] := .update fun s => .put s .templateOwner owner (by decide)
    refine wp_mono _ ?_ (touches.wp_alike (by decide) regular)
    rintro _ r ⟨regular, alike⟩
    exact ⟨regular, alike.breeds (by decide), alike.view .document (by decide)⟩
  refine (wp_bind _ _).mpr (wp_scene.mpr ((wp_bind _ _).mpr (wp_mono _ ?_ (owned _ regular))))
  rintro _ q ⟨regular, breeds, same⟩
  refine (wp_bind _ _).mpr (wp_mono _ ?_ (wp_growBelow host template regular (same ▸ there)))
  rintro xs r ⟨regular, breeds', sprouts, links⟩
  rw [same] at sprouts links
  refine (wp_bind _ _).mpr (wp_mono _ ?_ (owned _ regular))
  rintro _ t ⟨regular, breeds'', same'⟩
  rw [← same'] at sprouts links
  exact ⟨regular, IsTrans.trans _ _ _ (IsTrans.trans _ _ _ breeds breeds') breeds'', sprouts, links⟩

theorem wp_expand (id : ComponentId) (c : Component κ) (light : List NodeId) (regular : p.scene.Regular)
    (there : c.node.index < p.scene.document.size) :
    (Act.expand id c light).wp (Gating κ σ) (fun template q => q.scene.Regular ∧
      p.scene.Breeds q.scene ∧ p.scene.document.Grows c.node q.scene.document ∧
      ∀ x ∈ template.getD [], p.scene.document.size ≤ x.index ∧ q.scene.document.Link x c.node) p := by
  unfold Act.expand
  split
  · exact ⟨regular, Std.Refl.refl _, .refl _, fun _ inside => absurd inside List.not_mem_nil⟩
  · next reason _ =>
    have noted := (Touches.note (some id) (.badTemplate c.tag reason)).wp_alike (by decide) regular
    refine (wp_bind _ _).mpr (wp_mono _ ?_ noted)
    rintro _ q ⟨regular, alike⟩
    have same : q.scene.document = p.scene.document := alike.view .document (by decide)
    refine ⟨regular, alike.breeds (by decide), ?_, fun _ inside => absurd inside List.not_mem_nil⟩
    rw [same]
    exact .refl _
  · next template _ =>
    have prunes := Document.Prunes.foldl (fun d x => d.prunes_removeChild c.node x) light p.scene.document
    have edited := wp_edit (f := fun d => light.foldl (fun d x => (d.removeChild? c.node x).getD d) d)
      regular prunes.size fun x link => Document.link_foldl_removeChild light link
    refine (wp_bind _ _).mpr (wp_mono _ ?_ edited)
    rintro _ q ⟨regular, same⟩
    have document : q.scene.document =
        light.foldl (fun d x => (d.removeChild? c.node x).getD d) p.scene.document :=
      congrArg Scene.document same
    have grows : p.scene.document.Grows c.node q.scene.document := by
      rw [document]
      exact (Document.Grows.refl _).cut prunes.toFollows fun _ _ => Document.link_foldl_removeChild light
    have breeds : p.scene.Breeds q.scene := same ▸ .edit p.scene prunes.size
    refine (wp_bind _ _).mpr (wp_mono _ ?_
      (wp_growTemplate id template regular (there.trans_le grows.size)))
    rintro xs r ⟨regular, breeds', sprouts, links⟩
    exact ⟨regular, IsTrans.trans _ _ _ breeds breeds', grows.sprout sprouts, fun x inside =>
      ⟨grows.size.trans (links x inside).1, (links x inside).2⟩⟩

end Expansion

section Laying
variable {host : NodeId} {s : Scene κ}

theorem wp_layOut (template : List NodeId) (sited : s.Sited) (regular : p.scene.Regular)
    (breeds : s.Breeds p.scene) (grows : s.document.Grows host p.scene.document)
    (links : ∀ x ∈ template, s.document.size ≤ x.index ∧ p.scene.document.Link x host) :
    (Act.layOut host template).wp (Gating κ σ) (fun laid q => q.scene.Regular ∧ s.Breeds q.scene ∧
      s.document.Regrows host laid.1.content q.scene.document) p := by
  refine (wp_bind _ _).mpr (wp_scene.mpr ?_)
  have regrows := grows.ofTemplate sited.document p.scene.config.stableId links
  have follows := (Document.reworks_ofTemplate p.scene.document host p.scene.config.stableId template).size
  dsimp -zeta only
  refine (wp_bind _ _).mpr (wp_mono _ ?_ (wp_edit regular follows fun x link => ?_))
  · rintro _ q ⟨regular, same⟩
    refine ⟨regular, IsTrans.trans _ _ _ breeds (same ▸ .edit p.scene follows), ?_⟩
    rw [same]
    exact regrows
  · cases (regrows.top sited.rooted sited.top).symm.trans link

theorem wp_placeLight {light : List NodeId} {content : NodeId} (t : BindingTree) (sited : s.Sited)
    (regular : p.scene.Regular) (breeds : s.Breeds p.scene)
    (regrows : s.document.Regrows host content p.scene.document)
    (former : ∀ x ∈ light, s.document.Link x host) :
    (Act.placeLight light content t).wp (Gating κ σ) (fun _ q => q.scene.Regular ∧ s.Breeds q.scene ∧
      s.document.Regrows host content q.scene.document) p := by
  have placed := regrows.foldl former
  have size : p.scene.document.size ≤
      (light.foldl (fun d x => d.appendChild content x) p.scene.document).size :=
    (Document.Reworks.foldl (fun d x => d.reworks_appendChild content x) light _).size
  refine (wp_bind _ _).mpr (wp_scene.mpr ?_)
  extract_lets d
  rw [wp_ite]
  split
  · exact ⟨regular, breeds, regrows⟩
  · refine (wp_bind _ _).mpr (wp_mono _ ?_ (wp_edit regular size fun x link => ?_))
    · rintro _ q ⟨regular, same⟩
      refine ⟨regular, IsTrans.trans _ _ _ breeds (same ▸ .edit p.scene size), ?_⟩
      rw [same]
      exact placed
    · cases (placed.top sited.rooted sited.top).symm.trans link

end Laying
end Gating
end LiveTree
