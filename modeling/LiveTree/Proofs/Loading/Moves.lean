import LiveTree.Proofs.Loading.Connection

/-! Moves. The components of a moved node leave the queue one after the other, and what is in the document
then is connected or waits again; what is not in it is not due. -/
namespace LiveTree
variable {κ σ α : Type}

namespace Scene

/-- All nodes hang where they did, and no component has been configured or undone. Some of those that
waited may have been taken out of the queue. -/
structure Withdraws (ids : List ComponentId) (s t : Scene κ) : Prop where
  tree : t.document.tree = s.document.tree
  node : ∀ id c, s.component? id = some c → ∃ d, t.component? id = some d ∧ d.node = c.node
  fresh : ∀ id x, t.Fresh id x → s.Fresh id x
  loading : t.loading = s.loading
  kept : ∀ id ∈ s.pending, id ∈ t.pending ∨ id ∈ ids
  less : t.pending ⊆ s.pending

instance {ids : List ComponentId} : IsPreorder (Scene κ) (Withdraws ids) where
  refl _ := ⟨rfl, fun _ c found => ⟨c, found, rfl⟩, fun _ _ fresh => fresh, rfl, fun _ => .inl,
    fun _ inside => inside⟩
  trans s t u first second := by
    refine ⟨second.tree.trans first.tree, fun id c found => ?_, fun id x fresh =>
      first.fresh id x (second.fresh id x fresh), second.loading.trans first.loading, fun id inside => ?_,
      fun _ inside => first.less (second.less inside)⟩
    · obtain ⟨d, there, node⟩ := first.node id c found
      obtain ⟨e, later, node'⟩ := second.node id d there
      exact ⟨e, later, node'.trans node⟩
    · rcases first.kept id inside with still | listed
      · exact second.kept id still
      · exact .inr listed

variable {ids : List ComponentId} {s t : Scene κ} {id other : ComponentId} {x y : NodeId}

theorem Alike.withdraws {F : List Field} (alike : s.Alike F t)
    (out : ∀ f ∈ [Field.tree, .components, .stage, .loading, .pending], f ∉ F) : s.Withdraws ids t where
  tree := alike.view .tree (out _ (by decide))
  node id c found := by
    obtain ⟨d, there, same⟩ := alike.component id c found
    exact ⟨d, there, same.node⟩
  fresh id x := by
    rintro ⟨d, there, node, stage⟩
    obtain ⟨c, found, same⟩ := alike.component_of (out _ (by decide)) there
    have view : d.stage = c.stage := same.view .stage (out _ (by decide))
    exact ⟨c, found, same.node.symm.trans node, view ▸ stage⟩
  loading := alike.view .loading (out _ (by decide))
  kept := by
    have same : t.pending = s.pending := alike.view .pending (out _ (by decide))
    rw [same]
    exact fun _ => .inl
  less := by
    have same : t.pending = s.pending := alike.view .pending (out _ (by decide))
    rw [same]
    exact fun _ inside => inside

theorem Withdraws.under (withdraws : s.Withdraws ids t) : t.document.Under x y ↔ s.document.Under x y := by
  have same : t.document.Link = s.document.Link := funext fun x => funext fun y => by
    rw [Document.Link, Document.Link, Document.parent?_eq, withdraws.tree, ← Document.parent?_eq]
  rw [Document.Under, Document.Under, same]

theorem Withdraws.due (withdraws : s.Withdraws ids t) (due : t.Due id) : s.Due id := by
  obtain ⟨x, fresh, there⟩ := due
  refine ⟨x, withdraws.fresh id x fresh, ?_⟩
  rwa [← Document.isConnected_of_tree withdraws.tree]

theorem Withdraws.precedes (withdraws : s.Withdraws ids t) (precedes : t.Precedes other id) :
    s.Precedes other id := by
  obtain ⟨x, fresh, y, fresh', below⟩ := precedes
  exact ⟨x, withdraws.fresh _ _ fresh, y, withdraws.fresh _ _ fresh', withdraws.under.mp below⟩

/-- What has left the queue is still to be connected. -/
theorem Gated.withdraws (gated : s.Gated ids) (withdraws : s.Withdraws ids t) : t.Gated ids where
  waits id due := by
    rcases gated.waits id (withdraws.due due) with waiting | listed
    · exact withdraws.kept id waiting
    · exact .inr listed
  idle loaded := List.eq_nil_iff_forall_not_mem.mpr fun id inside => by
    have empty := gated.idle (withdraws.loading.symm.trans loaded)
    exact List.not_mem_nil (empty ▸ withdraws.less inside)

/-- Those that are not due need not be connected. -/
theorem Gated.drop {rest : List ComponentId} (gated : s.Gated ids)
    (done : ∀ id ∈ ids, s.Due id → id ∈ s.pending ∨ id ∈ rest) : s.Gated rest where
  waits id due := (gated.waits id due).elim .inl fun listed => done id listed due
  idle := gated.idle

/-- An edit leaves nothing due but what comes into the document by it. -/
theorem Gated.edit {f : Document → Document} (gated : s.Gated [])
    (came : ∀ id x, s.Fresh id x → (f s.document).isConnected x = true →
      s.document.isConnected x = true ∨ id ∈ ids) : (s.edit f).Gated ids where
  waits id := by
    rintro ⟨x, fresh, there⟩
    refine (came id x fresh there).imp_left fun before => ?_
    exact (gated.waits id ⟨x, fresh, before⟩).resolve_right List.not_mem_nil
  idle := gated.idle

/-- What precedes a component that is in the document is still to be connected as well. -/
theorem Gated.closed (gated : s.Gated ids) (sited : s.Sited) (loaded : s.loading = false)
    (near : ∀ x, s.Fresh id x → s.document.isConnected x = true) (precedes : s.Precedes other id) :
    other ∈ ids := by
  obtain ⟨x, fresh, covers⟩ := precedes
  have due := sited.due_of_covers (near x fresh) covers
  refine (gated.waits other due).resolve_left ?_
  rw [gated.idle loaded]
  exact List.not_mem_nil

/-- Nothing that lies within a node is due if the node is not in the document. -/
theorem Gated.of_apart {child : NodeId} (gated : t.Gated (s.componentsIn child)) (regular : s.Regular)
    (sited : t.Sited) (withdraws : s.Withdraws (s.componentsIn child) t)
    (apart : t.document.isConnected child ≠ true) : t.Gated [] := by
  refine gated.drop fun id listed ⟨x, fresh, there⟩ => absurd ?_ apart
  obtain ⟨c, found, within⟩ := regular.mem_componentsIn_iff.mp listed
  rw [(withdraws.fresh id x fresh).node found, ← withdraws.under] at within
  rcases within with rfl | below
  · exact there
  · exact sited.document.isConnected_of_under sited.top there below

end Scene

namespace Gating
open Act
variable {p : Point κ σ} {ids : List ComponentId} {id : ComponentId}

/-- While the document is loading a component waits. -/
theorem wp_connect_loading {rest : List ComponentId} (regular : p.scene.Regular)
    (loading : p.scene.loading = true) (gated : p.scene.Gated (id :: rest)) :
    (Act.connect id).wp (Gating κ σ) (fun _ q =>
      q.scene.Regular ∧ q.scene.loading = true ∧ q.scene.Gated rest) p := by
  have past (done : ¬p.scene.Due id) : p.scene.Gated rest := gated.drop fun other listed due => by
    rcases List.mem_cons.mp listed with rfl | later
    · exact absurd due done
    · exact .inr later
  have far (configured : p.scene.Configured id) : ¬p.scene.Due id := fun ⟨_, fresh, _⟩ =>
    fresh.stage configured
  refine wp_withComponent (fun c found => ?_) fun missing => ⟨regular, loading, past ?_⟩
  · split
    · refine (wp_bind _ _).mpr (wp_scene.mpr ?_)
      rw [wp_ite, if_pos loading]
      refine takes regular.toSited (Scene.Bars.admits fun _ here => here) (Nat.le_refl _)
        (fun _ link => link) fun sited _ _ => ⟨⟨sited, regular.born⟩, loading, ⟨fun other due => ?_, ?_⟩⟩
      · have due : p.scene.Due other := due
        change other ∈ (if p.scene.pending.contains id then _ else _) ∨ _
        have queued (inside : other ∈ p.scene.pending ∨ other = id) :
            other ∈ if p.scene.pending.contains id then p.scene.pending else p.scene.pending ++ [id] := by
          split
          · next listed =>
            rcases inside with inside | rfl
            · exact inside
            · exact List.contains_iff_mem.mp listed
          · simpa using inside
        rcases gated.waits other due with waiting | listed
        · exact .inl (queued (.inl waiting))
        · exact (List.mem_cons.mp listed).imp_left fun same => queued (.inr same)
      · intro loaded
        cases loading.symm.trans loaded
    · next detached =>
      refine wp_mono _ ?_ ((Trims.attach id).wp_eases regular)
      rintro _ q ⟨regular', eases⟩
      exact ⟨regular', eases.loading.trans loading,
        (past (far ⟨c, found, by rw [detached]; rfl⟩)).eases eases⟩
    · next other other' =>
      refine ⟨regular, loading, past (far ⟨c, found, ?_⟩)⟩
      have born : c.stage ≠ .unattached := fun same =>
        regular.born id (by rw [Scene.stage?, found, Option.map_some, same])
      cases stage : c.stage <;> simp_all [Stage.isConfigured]
  · rintro ⟨_, ⟨c, found, -⟩, -⟩
    cases missing.symm.trans found

variable [IsEmpty κ]

/-- Components that came into the document are connected, those that lie higher first. -/
theorem wp_connects (regular : p.scene.Regular) (gated : p.scene.Gated ids)
    (there : ∀ id ∈ ids, ∃ c, p.scene.component? id = some c)
    (near : ∀ id ∈ ids, ∀ x, p.scene.Fresh id x → p.scene.document.isConnected x = true)
    (ordered : ids.Pairwise fun id other => ¬p.scene.Precedes other id) :
    (each ids connect).wp (Gating κ σ) (fun _ q => q.scene.Regular ∧ q.scene.Gated []) p := by
  cases loading : p.scene.loading with
  | true =>
    refine wp_each (fun rest q => q.scene.Regular ∧ q.scene.loading = true ∧ q.scene.Gated rest) ?_ ?_ ids
      ⟨regular, loading, gated⟩
    · rintro id rest q ⟨regular, loading, gated⟩
      exact wp_connect_loading regular loading gated
    · exact fun q ⟨regular, _, gated⟩ => ⟨regular, gated⟩
  | false =>
    refine wp_mono _ ?_ (wp_each_ordered (J := fun q => q.scene.Regular ∧ p.scene.Eases q.scene)
      (D := fun q other => q.scene.Configured other)
      (W := fun id other => p.scene.Precedes other id) ?_ ordered ?_ ?_ ⟨regular, Std.Refl.refl _⟩)
    · rintro _ q ⟨⟨regular', eases⟩, done⟩
      refine ⟨regular', (gated.eases eases).drop fun id listed ⟨_, fresh, _⟩ => ?_⟩
      exact absurd (done id listed) fresh.stage
    · exact fun id listed other precedes => gated.closed regular.toSited loading (near id listed) precedes
    · exact fun _ _ => regular.not_precedes_self
    · rintro id listed q ⟨regular', eases⟩ done
      obtain ⟨c, found⟩ := there id listed
      obtain ⟨d, later, -⟩ := eases.node id c found
      have ripe : q.scene.Ripe id := fun other precedes =>
        precedes.stage (done other (eases.precedes regular.toPlaced found precedes))
      refine wp_mono _ ?_ (wp_connect_ripe regular' (eases.loading.trans loading) ripe)
      rintro _ r ⟨regular'', eases', configured⟩
      exact ⟨⟨regular'', IsTrans.trans _ _ _ eases eases'⟩, configured d later, eases'.configured⟩

theorem wp_withdraws {m : Act κ α} {F : List Field} {C : List Call.Kind} (touches : m.Touches F C)
    (apart : (∀ f ∈ [Field.tree, .components, .stage, .loading, .pending], f ∉ F) ∧
      C ⊆ [.callback, .hook, .apply])
    {s : Scene κ} (regular : p.scene.Regular) (since : s.Withdraws ids p.scene) :
    m.wp (Gating κ σ) (fun _ q => q.scene.Regular ∧ s.Withdraws ids q.scene) p := by
  refine wp_mono _ ?_ (touches.wp_alike ⟨fun f member => apart.1 f (by grind), apart.2⟩ regular)
  rintro _ q ⟨regular, alike⟩
  exact ⟨regular, IsTrans.trans _ _ _ since (alike.withdraws apart.1)⟩

theorem wp_detach (regular : p.scene.Regular) (listed : id ∈ ids) :
    (Act.detach id).wp (Gating κ σ) (fun _ q => q.scene.Regular ∧ p.scene.Withdraws ids q.scene) p := by
  refine wp_withComponent (fun c found => ?_) fun _ => ⟨regular, Std.Refl.refl _⟩
  extract_lets left
  have later (r) {q : Point κ σ} (regular : q.scene.Regular) (since : p.scene.Withdraws ids q.scene) :
      (left r).wp (Gating κ σ) (fun _ q => q.scene.Regular ∧ p.scene.Withdraws ids q.scene) q := by
    have dequeued : q.scene.Withdraws ids
        { q.scene with pending := q.scene.pending.filter (· ≠ id) } := by
      refine ⟨rfl, fun _ c found => ⟨c, found, rfl⟩, fun _ _ fresh => fresh, rfl, fun other inside => ?_,
        List.filter_subset_self _⟩
      by_cases same : other = id
      · exact .inr (same ▸ listed)
      · exact .inl (List.mem_filter.mpr ⟨inside, decide_eq_true same⟩)
    refine (wp_bind _ _).mpr ((wp_update _).mpr ?_)
    refine takes_idle regular rfl (fun _ => rfl) fun regular => ?_
    have since := IsTrans.trans _ _ _ since dequeued
    refine (wp_bind _ _).mpr (wp_scene.mpr ?_)
    split
    · rw [wp_ite]
      split
      · exact wp_withdraws (p := q.change _) (.addStray _ _) (by decide) regular since
      · exact ⟨regular, since⟩
    · exact ⟨regular, since⟩
  split
  · next attached =>
    have start : p.scene.Withdraws ids p.scene := Std.Refl.refl _
    refine (wp_bind _ _).mpr (wp_mono _ ?_ (wp_withdraws (.unwire id) (by decide) regular start))
    rintro _ q ⟨regular', since⟩
    have withdrawn : q.scene.Withdraws ids (q.scene.modify id fun c => { c with stage := .detached }) :=
      ⟨rfl, q.scene.node_modify id fun _ => rfl, fun _ _ => q.scene.fresh_of_modify id fun _ => rfl, rfl,
        fun _ => .inl, fun _ inside => inside⟩
    refine (wp_bind _ _).mpr ((wp_modify _ _).mpr ?_)
    refine takes_later regular' (fun _ => rfl) (Scene.Bars.admits (.modify q.scene id fun _ => nofun))
      fun regular' => ?_
    have since := IsTrans.trans _ _ _ since withdrawn
    refine (wp_bind _ _).mpr (wp_mono _ ?_
      (wp_withdraws (p := q.change _) (.tellParts _ _) (by decide) regular' since))
    rintro _ r ⟨regular', since⟩
    refine (wp_bind _ _).mpr (wp_mono _ ?_ (wp_withdraws (.runHook _ _ _) (by decide) regular' since))
    rintro u t ⟨regular', since⟩
    exact later u regular' since
  · exact later () regular (Std.Refl.refl _)

/-- The components that left the document leave the queue. -/
theorem wp_detachAll (regular : p.scene.Regular) (gated : p.scene.Gated ids) :
    (each ids detach).wp (Gating κ σ) (fun _ q =>
      q.scene.Regular ∧ p.scene.Withdraws ids q.scene ∧ q.scene.Gated ids) p := by
  refine wp_mono _ ?_ (wp_each (Q := fun _ q => q.scene.Regular ∧ p.scene.Withdraws ids q.scene)
    (fun rest q => rest ⊆ ids ∧ q.scene.Regular ∧ p.scene.Withdraws ids q.scene)
    ?_ (fun q kept => kept.2) ids ⟨List.Subset.refl _, regular, Std.Refl.refl _⟩)
  · rintro _ q ⟨regular', withdraws⟩
    exact ⟨regular', withdraws, gated.withdraws withdraws⟩
  · rintro id rest q ⟨within, regular, since⟩
    obtain ⟨listed, within⟩ := List.cons_subset.mp within
    refine wp_mono _ ?_ (wp_detach regular listed)
    rintro _ r ⟨regular, withdraws⟩
    exact ⟨within, regular, IsTrans.trans _ _ _ since withdraws⟩

section Moving
variable {parent child : NodeId}

/-- A node that is put somewhere takes the components along that lie within it, and no others. -/
theorem wp_appendChild (regular : p.scene.Regular) (gated : p.scene.Gated [])
    (plain : child ≠ Document.root) : (Act.appendChild parent child).wp (Gating κ σ)
      (fun _ q => q.scene.Regular ∧ q.scene.Gated []) p := by
  have links (x y : NodeId) (link : (p.scene.document.appendChild parent child).Link x y) :
      p.scene.document.Link x y ∨ x = child := (Document.link_appendChild link).imp_right And.left
  refine (wp_bind _ _).mpr (wp_scene.mpr ((wp_bind _ _).mpr (wp_mono _ ?_
    (wp_edit regular (Document.size_appendChild _ _ _).ge fun x link =>
      (links _ x link).resolve_right plain.symm))))
  rintro _ q ⟨regular', same⟩
  have document : q.scene.document = p.scene.document.appendChild parent child := congrArg Scene.document same
  refine (wp_bind _ _).mpr (wp_scene.mpr ((wp_ite _ _ _).mpr ?_))
  extract_lets inside moved
  have came : q.scene.Gated inside := by
    unfold inside
    rw [same] at regular' ⊢
    refine gated.edit fun id x fresh there => ?_
    by_cases within : x = child ∨ (p.scene.document.appendChild parent child).Under x child
    · exact .inr (regular'.mem_componentsIn fresh within)
    · have above := regular'.document.isConnected_iff.mp there
      refine .inl (regular.document.isConnected_iff.mpr (above.imp_right fun below => ?_))
      exact Document.under_of_outside links within below
  have later (r) {t : Point κ σ} (regular'' : t.scene.Regular) (withdraws : q.scene.Withdraws inside t.scene)
      (gated : t.scene.Gated inside) :
      (moved r).wp (Gating κ σ) (fun _ q => q.scene.Regular ∧ q.scene.Gated []) t := by
    refine (wp_bind _ _).mpr (wp_scene.mpr ((wp_ite _ _ _).mpr ?_))
    split
    · next there =>
      refine wp_connects regular'' gated (fun id listed => ?_) (fun id listed x fresh => ?_) ?_
      · obtain ⟨c, found, -⟩ := regular'.mem_componentsIn_iff.mp listed
        exact (withdraws.node id c found).imp fun _ rest => rest.1
      · obtain ⟨c, found, within⟩ := regular'.mem_componentsIn_iff.mp listed
        rw [(withdraws.fresh id x fresh).node found, ← withdraws.under] at within
        exact regular''.document.isConnected_of_within there within
      · exact (q.scene.pairwise_precedes (regular'.document.pairwise_subtree child)).imp
          fun apart later => apart (withdraws.precedes later)
    · next apart => exact ⟨regular'', gated.of_apart regular' regular''.toSited withdraws apart⟩
  split
  · split
    · refine (wp_bind _ _).mpr (wp_mono _ ?_ (wp_detachAll regular' came))
      rintro r t ⟨regular'', withdraws, gated⟩
      exact later r regular'' withdraws gated
    · exact later () regular' (Std.Refl.refl _) came
  · next elsewhere =>
    have refused : ¬p.scene.document.Allows parent child := fun allowed => elsewhere <| by
      rw [document, Document.parent?_appendChild allowed, if_pos rfl]
    refine ⟨regular', same ▸ gated.edit fun id x _ there => .inl ?_⟩
    rwa [Document.appendChild, if_pos (Classical.not_not.mp refused)] at there

theorem wp_removeChild (regular : p.scene.Regular) (gated : p.scene.Gated []) :
    (Act.removeChild parent child).wp (Gating κ σ)
      (fun _ q => q.scene.Regular ∧ q.scene.Gated []) p := by
  refine (wp_bind _ _).mpr (wp_scene.mpr ?_)
  split
  · exact ⟨regular, gated⟩
  next d taken =>
  obtain ⟨below, rfl⟩ : p.scene.document.parent? child = some parent ∧ p.scene.document.detach child = d := by
    simpa [Document.removeChild?] using taken
  have prunes := p.scene.document.prunes_detach child
  have cuts (x y : NodeId) (link : (p.scene.document.detach child).Link x y) : p.scene.document.Link x y :=
    (Document.parent?_of_detach link).2
  refine (wp_bind _ _).mpr (wp_mono _ ?_ (wp_edit regular prunes.size (cuts Document.root)))
  rintro _ q ⟨regular', same⟩
  have gated : q.scene.Gated [] := same ▸ gated.edit fun id x fresh there =>
    .inl (prunes.isConnected regular.document (regular.bound fresh) there)
  have top : q.scene.document.parent? child = none := by
    rw [same]
    exact (p.scene.document.parent?_detach child child).trans (if_pos rfl)
  have apart : q.scene.document.isConnected child ≠ true := by
    intro there
    rcases regular'.document.isConnected_iff.mp there with rfl | deep
    · cases regular.top.symm.trans below
    · obtain ⟨y, link, -⟩ := Document.under_iff_link.mp deep
      cases top.symm.trans link
  extract_lets ended
  rw [wp_ite]
  split
  · have listed : q.scene.Gated (q.scene.componentsIn child) := gated.drop fun _ inside =>
      absurd inside List.not_mem_nil
    refine (wp_bind _ _).mpr (wp_scene.mpr ((wp_bind _ _).mpr (wp_mono _ ?_ (wp_detachAll regular' listed))))
    rintro _ t ⟨regular'', withdraws, gated⟩
    refine ⟨regular'', gated.of_apart regular' regular''.toSited withdraws ?_⟩
    rwa [Document.isConnected_of_tree withdraws.tree]
  · exact ⟨regular', gated⟩

end Moving
end Gating
end LiveTree
