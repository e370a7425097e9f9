import LiveTree.Proofs.Loading.Moves

/-! Requests at the gate. Each of them leaves nothing due that does not wait; the components of a type that
is registered and those that waited for the document are connected in the order in which they lie in it. -/
namespace LiveTree
variable {κ σ α β : Type}

namespace Scene
variable {s t u : Scene κ} {id : ComponentId} {x : NodeId} {xs : List NodeId}

structure Peoples (xs : List NodeId) (s t : Scene κ) : Prop where
  document : t.document = s.document
  old : ∀ id c, s.component? id = some c →
    ∃ d, t.component? id = some d ∧ d.node = c.node ∧ d.stage = c.stage
  new : ∀ id d, s.component? id = none → t.component? id = some d → d.node ∈ xs
  loading : t.loading = s.loading
  pending : t.pending = s.pending

theorem Enlists.peoples (enlists : s.Enlists id x t) (rest : t.Peoples xs u) : s.Peoples (x :: xs) u := by
  refine ⟨rest.document.trans enlists.document, fun other c found => ?_, fun other e missing found => ?_,
    rest.loading.trans enlists.loading, rest.pending.trans enlists.pending⟩
  · obtain ⟨d, there, node, stage⟩ := enlists.old other c found
    obtain ⟨e, later, node', stage'⟩ := rest.old other d there
    exact ⟨e, later, node'.trans node, stage'.trans stage⟩
  · by_cases same : other = id
    · subst same
      obtain ⟨d, there, node, -⟩ := enlists.made
      obtain ⟨e', later, node', -⟩ := rest.old other d there
      cases later.symm.trans found
      exact List.mem_cons.mpr (.inl (node'.trans node))
    · exact List.mem_cons_of_mem _ (rest.new other e (enlists.only other missing same) found)

/-- What is due then was due before, or is one of the new components. -/
theorem Gated.peoples (gated : s.Gated []) (placed : t.Placed) (peoples : s.Peoples xs t) :
    t.Gated (xs.filterMap t.componentAt?) where
  waits id := by
    rintro ⟨x, ⟨d, there, rfl, stage⟩, near⟩
    rw [peoples.pending]
    cases found : s.component? id with
    | none =>
      exact .inr (List.mem_filterMap.mpr ⟨d.node, peoples.new id d found there, placed.componentAt? there⟩)
    | some c =>
      obtain ⟨e, later, node, same⟩ := peoples.old id c found
      cases later.symm.trans there
      rw [peoples.document] at near
      exact .inl ((gated.waits id ⟨_, ⟨c, found, node.symm, same ▸ stage⟩, near⟩).resolve_right
        List.not_mem_nil)
  idle loaded := peoples.pending.trans (gated.idle (peoples.loading.symm.trans loaded))

end Scene

namespace Gating
open Act
variable {p : Point κ σ}

/-- What trims may come first. -/
theorem wp_then {m : Act κ β} {f : β → Act κ α} {Q : α → Point κ σ → Prop} (trims : m.Trims)
    (regular : p.scene.Regular) (gated : p.scene.Gated [])
    (next : ∀ b q, q.scene.Regular → q.scene.Gated [] → (f b).wp (Gating κ σ) Q q) :
    (m >>= f).wp (Gating κ σ) Q p :=
  (wp_bind _ _).mpr (wp_mono _ (fun b q kept => next b q kept.1 (gated.eases kept.2))
    (trims.wp_eases regular))

theorem wp_beginLoading (regular : p.scene.Regular) (gated : p.scene.Gated []) :
    (Act.beginLoading).wp (Gating κ σ) (fun _ q => q.scene.Regular ∧ q.scene.Gated []) p :=
  takes regular.toSited (Scene.Bars.admits fun _ here => here) (Nat.le_refl _) (fun _ link => link)
    fun sited _ _ => ⟨⟨sited, regular.born⟩, gated.waits, fun loaded => absurd loaded Bool.false_ne_true.symm⟩

theorem mem_byDepth {s : Scene κ} {ids : List ComponentId} {id : ComponentId} :
    id ∈ Act.byDepth s ids ↔ id ∈ ids := List.mem_mergeSort

/-- In the order in which they are taken up again no component comes before one that lies above it. -/
theorem pairwise_byDepth {s : Scene κ} (sited : s.Sited) (ids : List ComponentId) :
    (Act.byDepth s ids).Pairwise fun id other => ¬s.Precedes other id := by
  generalize measured : (fun id : ComponentId =>
    ((s.component? id).map fun c => s.document.depth c.node).getD 0) = depth
  have depth_of {id : ComponentId} {x : NodeId} (fresh : s.Fresh id x) : depth id = s.document.depth x := by
    obtain ⟨c, found, rfl, -⟩ := fresh
    simp [← measured, found]
  have sorted : (Act.byDepth s ids).Pairwise fun a b => decide (depth a ≤ depth b) := by
    unfold Act.byDepth
    rw [← measured]
    exact List.pairwise_mergeSort (fun _ _ _ => by simpa using Nat.le_trans)
      (fun a b => by simpa using Nat.le_total _ _) ids
  refine sorted.imp fun {id other} le precedes => ?_
  obtain ⟨x, fresh, y, fresh', below⟩ := precedes
  have deeper := sited.document.depth_lt below
  rw [← depth_of fresh, ← depth_of fresh'] at deeper
  exact Nat.not_lt_of_le (of_decide_eq_true le) deeper

variable [IsEmpty κ]

/-- A new node is not in the document yet. -/
theorem wp_createElement_gated (tag : String) (regular : p.scene.Regular) (gated : p.scene.Gated []) :
    (Act.createElement tag).wp (Gating κ σ) (fun _ q => q.scene.Regular ∧ q.scene.Gated []) p := by
  refine wp_mono _ ?_ (wp_createElement tag regular)
  rintro x q ⟨regular', breeds, -, document⟩
  have under {x y : NodeId} (below : q.scene.document.Under x y) : p.scene.document.Under x y := by
    rw [document] at below
    refine Relation.TransGen.mono (fun x _ link => ?_) _ _ below
    exact (p.scene.document.parent?_add _ x).symm.trans link
  refine ⟨regular', fun id ⟨y, fresh, there⟩ => ?_, fun loaded => ?_⟩
  · rw [breeds.pending]
    refine gated.waits id ?_
    have above := regular'.document.isConnected_iff.mp there
    have near := regular.document.isConnected_iff.mpr (above.imp_right under)
    rcases breeds.fresh fresh with before | new
    · exact ⟨y, before, near⟩
    · rcases above with rfl | below
      · exact absurd regular.rooted (Nat.not_lt_of_le new)
      · exact absurd (under below).bound (Nat.not_lt_of_le new)
  · rw [breeds.pending]
    exact gated.idle (breeds.loading.symm.trans loaded)

/-- The components that waited are connected, those that lie higher first. -/
theorem wp_finishLoading (regular : p.scene.Regular) (gated : p.scene.Gated []) :
    (Act.finishLoading).wp (Gating κ σ) (fun _ q => q.scene.Regular ∧ q.scene.Gated []) p := by
  refine (wp_bind _ _).mpr (wp_scene.mpr ((wp_ite _ _ _).mpr ?_))
  split
  swap
  · exact ⟨regular, gated⟩
  refine (wp_bind _ _).mpr ((wp_update _).mpr ?_)
  generalize opened : ({ p.scene with loading := false, pending := [] } : Scene κ) = s
  have stages (id : ComponentId) : s.stage? id = p.scene.stage? id := opened ▸ rfl
  have loaded : s.loading = false := opened ▸ rfl
  refine takes regular.toSited (Scene.Bars.admits (.of_stages stages)) (opened ▸ Nat.le_refl _)
    (opened ▸ fun _ link => link) fun sited _ _ => ?_
  have started : s.Regular := ⟨sited, fun id => by rw [stages]; exact regular.born id⟩
  have due (id : ComponentId) (due : s.Due id) : id ∈ Act.byDepth p.scene p.scene.pending := by
    have before : p.scene.Due id := by rwa [← opened] at due
    exact mem_byDepth.mpr ((gated.waits id before).resolve_right List.not_mem_nil)
  have ordered : (Act.byDepth p.scene p.scene.pending).Pairwise fun id other => ¬s.Precedes other id := by
    rw [← opened]
    exact pairwise_byDepth regular.toSited p.scene.pending
  refine (wp_bind _ _).mpr (wp_mono _ ?_
    (wp_each_ordered (J := fun q => q.scene.Regular ∧ s.Eases q.scene)
      (D := fun q other => ¬q.scene.Due other)
      (W := fun id other => s.Due id ∧ s.Precedes other id) ?_ ?_ ?_ ?_ ⟨started, Std.Refl.refl _⟩))
  · rintro _ q ⟨⟨regular, eases⟩, done⟩
    have waiting : (Act.resolveWaiting : Act κ _).Trims := .of_touches .resolveWaiting (by decide)
    refine wp_mono _ ?_ (waiting.wp_eases regular)
    rintro _ r ⟨regular, eases'⟩
    have eases := IsTrans.trans _ _ _ eases eases'
    refine ⟨regular, fun id later => ?_, fun _ => eases.pending.trans (opened ▸ rfl)⟩
    exact absurd (eases'.due id later) (done id (due id (eases.due id later)))
  · rintro id - other ⟨⟨x, fresh, there⟩, y, fresh', covers⟩
    cases fresh.node_eq fresh'
    exact due other (started.due_of_covers there covers)
  · exact ordered.imp fun apart waits => apart waits.2
  · exact fun id _ waits => started.not_precedes_self waits.2
  · rintro id - q ⟨regular, eases⟩ done
    have fine : q.scene.Regular ∧ s.Eases q.scene := ⟨regular, eases⟩
    refine wp_withComponent (fun c found => (wp_bind _ _).mpr (wp_scene.mpr ((wp_ite _ _ _).mpr ?_)))
      fun missing => ⟨fine, ?_, fun _ done => done⟩
    · split
      · next there =>
        have loaded : q.scene.loading = false := eases.loading.trans loaded
        have ripe : q.scene.Ripe id := by
          rintro other ⟨x, fresh, covers⟩
          have here : q.scene.document.isConnected x = true := fresh.node found ▸ there
          have before : s.Due id := eases.due id ⟨x, fresh, here⟩
          obtain ⟨d, found'⟩ : ∃ d, s.component? id = some d :=
            before.elim fun _ due => due.1.imp fun _ rest => rest.1
          refine done other ⟨before, eases.precedes started.toPlaced found' ⟨x, fresh, covers⟩⟩ ?_
          exact regular.due_of_covers here covers
        refine wp_mono _ ?_ (wp_connect_ripe regular loaded ripe)
        rintro _ r ⟨regular, eases', configured⟩
        refine ⟨⟨regular, IsTrans.trans _ _ _ eases eases'⟩, ?_, fun a done due => done (eases'.due a due)⟩
        exact fun ⟨_, fresh, _⟩ => fresh.stage (configured c found)
      · next apart =>
        refine ⟨fine, ?_, fun _ done => done⟩
        rintro ⟨x, fresh, there⟩
        exact apart (fresh.node found ▸ there)
    · rintro ⟨x, ⟨c, found, -⟩, -⟩
      cases missing.symm.trans found

theorem wp_upgrade (d : Definition κ) (xs : List NodeId) (regular : p.scene.Regular) :
    (Act.upgrade d xs).wp (Gating κ σ) (fun ids q => q.scene.Regular ∧ p.scene.Peoples xs q.scene ∧
      ids = xs.filterMap q.scene.componentAt?) p := by
  induction xs generalizing p with
  | nil =>
    exact ⟨regular, ⟨rfl, fun _ c found => ⟨c, found, rfl, rfl⟩, fun _ _ missing found =>
      absurd (missing.symm.trans found) (Option.some_ne_none _).symm, rfl, rfl⟩, rfl⟩
  | cons x rest ih =>
    have made := wp_instantiate x d (p.scene.componentAbove? x) regular
    refine (wp_bind _ _).mpr (wp_scene.mpr ((wp_bind _ _).mpr (wp_mono _ ?_ made)))
    rintro id q ⟨regular, enlists⟩
    refine (wp_bind _ _).mpr (wp_mono _ ?_ (ih regular))
    rintro ids r ⟨regular, peoples, rfl⟩
    obtain ⟨c, found, node, -⟩ := enlists.made
    obtain ⟨e, later, node', -⟩ := peoples.old id c found
    have here : r.scene.componentAt? x = some id := node ▸ node' ▸ regular.componentAt? later
    exact ⟨regular, enlists.peoples peoples, (List.filterMap_cons_some here).symm⟩

/-- The components of a type that is registered are connected in document order. -/
theorem wp_register (d : Definition κ) (regular : p.scene.Regular) (gated : p.scene.Gated []) :
    (Act.register d).wp (Gating κ σ) (fun _ q => q.scene.Regular ∧ q.scene.Gated []) p := by
  refine (wp_bind _ _).mpr (wp_scene.mpr ?_)
  rw [wp_ite]
  split
  · exact ⟨regular, gated⟩
  extract_lets e
  have noted : (each e.schema.problems (note none) : Act κ Unit).Trims :=
    .of_touches (.each _ fun _ => .note_none _) (by decide)
  refine wp_then noted regular gated fun _ q regular gated => ?_
  have entered : (Act.update fun s : Scene κ => { s with
      definitions := s.definitions.insert e.tag e
      waiting := s.waiting.erase e.tag }).Trims :=
    .of_touches (F := [.definitions, .waiting]) (C := []) (.update fun s =>
      ((Scene.Alike.define s _ _).mono (by decide)).trans (.put _ .waiting _ (by decide))) (by decide)
  refine wp_then entered regular gated fun _ q regular gated => ?_
  have told (ks : List κ) : (each ks fun k => do let _ ← callback k .registered : Act κ Unit).Trims :=
    .of_touches (.each ks fun k => .bind (.registered k) fun _ => .pure _) (by decide)
  refine wp_then (told _) regular gated fun _ q regular gated => ?_
  refine (wp_bind _ _).mpr (wp_scene.mpr ?_)
  extract_lets nodes
  refine (wp_bind _ _).mpr (wp_mono _ ?_ (wp_upgrade e nodes regular))
  rintro ids r ⟨regular', peoples, rfl⟩
  have near (x : NodeId) (member : x ∈ nodes) : r.scene.document.isConnected x = true := by
    have below := regular.document.mem_descendants_iff_under.mp (List.mem_filter.mp member).1
    rw [peoples.document]
    exact regular.document.isConnected_iff.mpr (.inr below)
  have listed {id : ComponentId} (member : id ∈ nodes.filterMap r.scene.componentAt?) :
      ∃ c, r.scene.component? id = some c ∧ c.node ∈ nodes := by
    obtain ⟨x, inside, here⟩ := List.mem_filterMap.mp member
    obtain ⟨c, found, rfl⟩ := Scene.componentAt?_spec here
    exact ⟨c, found, inside⟩
  have order : nodes.Pairwise fun y z => ¬r.scene.document.Under y z := by
    rw [peoples.document]
    exact (regular.document.pairwise_subtree Document.root).of_cons.filter _
  refine (wp_bind _ _).mpr (wp_mono _ ?_ (wp_connects regular' (gated.peoples regular'.toPlaced peoples)
    (fun id member => (listed member).imp fun _ rest => rest.1) (fun id member x fresh => ?_)
    (r.scene.pairwise_precedes order)))
  · exact fun _ _ kept => kept
  · obtain ⟨c, found, inside⟩ := listed member
    exact near x (fresh.node found ▸ inside)

theorem wp_request (r : Request κ) (plain : r.isPlain = true) (regular : p.scene.Regular)
    (gated : p.scene.Gated []) :
    r.act.wp (Gating κ σ) (fun _ q => q.scene.Regular ∧ q.scene.Gated []) p := by
  cases still : Trims.moves r with
  | false =>
    exact wp_mono _ (fun _ q kept => ⟨kept.1, gated.eases kept.2⟩)
      ((Trims.request r still).wp_eases regular)
  | true =>
    cases r with
    | register d => exact wp_register d regular gated
    | createElement tag => exact wp_createElement_gated tag regular gated
    | appendChild parent child => exact wp_appendChild regular gated (of_decide_eq_true plain)
    | removeChild parent child => exact wp_removeChild regular gated
    | edit e => cases plain
    | beginLoading => exact wp_beginLoading regular gated
    | finishLoading => exact wp_finishLoading regular gated
    | _ => cases still

/-- Every call keeps the contract. There are none of consumer code, and functions leave the scene alone. -/
theorem meets (env : Environment κ σ) : env.Meets (Gating κ σ) := by
  intro c p ⟨regular, ready⟩
  have trims {α : Type} {m : Act κ α} (other : c.kind ≠ .connect) (kind : c.kind ≠ .apply)
      (trims : m.Trims) : m.wp (Gating κ σ) (fun _ q => q.scene.Regular ∧ p.scene.Eases q.scene ∧
        (∀ id d, c = .connect id → p.scene.component? id = some d → q.scene.Configured id) ∧
          ∀ f arguments, c = .apply f arguments → q.scene = p.scene) p := by
    refine wp_mono _ (fun _ q kept => ⟨kept.1, kept.2, ?_, ?_⟩) (trims.wp_eases regular)
    · rintro id d rfl
      exact absurd rfl other
    · rintro f arguments rfl
      exact absurd rfl kind
  cases c with
  | write id name v origin => exact trims nofun nofun (.write id name v origin)
  | release id => exact trims nofun nofun (.release id)
  | service s id arguments => exact trims nofun nofun (.service s id arguments)
  | deliver x e => exact trims nofun nofun (Trims.call (.deliver x e))
  | callback k o => exact isEmptyElim k
  | connect id =>
    obtain ⟨loaded, ripe⟩ := ready id rfl
    refine wp_mono _ ?_ (wp_connect_ripe regular loaded ripe)
    rintro _ q ⟨regular', eases, configured⟩
    refine ⟨regular', eases, ?_, nofun⟩
    rintro _ d ⟨⟩ found
    exact configured d found
  | apply f arguments =>
    refine ⟨regular, Std.Refl.refl _, fun _ _ same => ?_, fun _ _ _ => rfl⟩
    cases same

/-- A script keeps the contract if its requests are plain. -/
theorem wp_script (m : Script κ σ α) (regular : p.scene.Regular) (gated : p.scene.Gated []) :
    m.wp (Gating κ σ) (fun _ q => q.scene.Regular ∧ q.scene.Gated []) p :=
  Script.wp_of_requests (I := fun q => q.scene.Regular ∧ q.scene.Gated []) (fun _ _ kept => kept)
    (fun r q kept => ⟨kept.2, fun plain => wp_request (p := q.request r) r plain kept.1 kept.2⟩) m
      ⟨regular, gated⟩

end Gating
end LiveTree
