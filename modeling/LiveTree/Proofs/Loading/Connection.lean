import LiveTree.Proofs.Loading.Growth

/-! Connection. When a component's template has been applied, the components below its host are connected
from the top down, so that each finds those above it configured; when all this is done, nothing is due
that was not due before. -/
namespace LiveTree
variable {κ σ α β : Type}

/-- Items of which each may wait for others of the list, none of them behind it, are done in their order. -/
theorem Act.wp_each_ordered {K : Contract κ σ} {J : Point κ σ → Prop} {D : Point κ σ → β → Prop}
    {W : β → β → Prop} {f : β → Act κ Unit} {p : Point κ σ} {items : List β}
    (closed : ∀ b ∈ items, ∀ a, W b a → a ∈ items) (ordered : items.Pairwise fun b a => ¬W b a)
    (apart : ∀ b ∈ items, ¬W b b)
    (step : ∀ b ∈ items, ∀ q, J q → (∀ a, W b a → D q a) →
      (f b).wp K (fun _ r => J r ∧ D r b ∧ ∀ a, D q a → D r a) q)
    (start : J p) : (each items f).wp K (fun _ q => J q ∧ ∀ b ∈ items, D q b) p := by
  refine wp_each (fun rest q => ∃ front, items = front ++ rest ∧ J q ∧ ∀ a ∈ front, D q a) ?_ ?_ items
    ⟨[], rfl, start, fun _ inside => absurd inside List.not_mem_nil⟩
  · rintro b rest q ⟨front, split, holds, done⟩
    have member : b ∈ items := by simp [split]
    refine wp_mono _ ?_ (step b member q holds fun a waits => ?_)
    · rintro _ r ⟨holds, done', kept⟩
      refine ⟨front ++ [b], by simp [split], holds, fun a inside => ?_⟩
      rcases List.mem_append.mp inside with before | now
      · exact kept a (done a before)
      · cases List.mem_singleton.mp now
        exact done'
    · have inside := closed b member a waits
      rw [split] at inside ordered
      rcases List.mem_append.mp inside with before | after
      · exact done a before
      · have behind := (List.pairwise_cons.mp (List.pairwise_append.mp ordered).2.1).1
        rcases List.mem_cons.mp after with rfl | later
        · exact absurd waits (apart a member)
        · exact absurd waits (behind a later)
  · rintro q ⟨front, split, holds, done⟩
    rw [List.append_nil] at split
    exact ⟨holds, split ▸ done⟩

namespace Scene
variable {s t u : Scene κ} {id other : ComponentId} {host content x : NodeId}

theorem Breeds.fresh (breeds : s.Breeds t) (fresh : t.Fresh id x) :
    s.Fresh id x ∨ s.document.size ≤ x.index := by
  obtain ⟨d, there, rfl, stage⟩ := fresh
  cases found : s.component? id with
  | none => exact .inr (breeds.new id d found there).1
  | some c =>
    obtain ⟨e, later, node, same⟩ := breeds.old id c found
    cases later.symm.trans there
    exact .inl ⟨c, found, node.symm, same ▸ stage⟩

/-- When all has been configured below a host to which a template has been applied, nothing has become due,
and no component that is not configured has come above a node that was there before. -/
theorem eases_of_regrows (sited : s.Sited) (bound : host.index < s.document.size)
    (regrows : s.document.Regrows host content u.document)
    (fresh : ∀ other x, u.Fresh other x → s.Fresh other x ∨ s.document.size ≤ x.index)
    (configured : ∀ other x, u.Fresh other x → u.document.Under x host → t.Configured other)
    (eases : u.Eases t) : (∀ other, t.Due other → s.Due other) ∧
      ∀ other y, y.index < s.document.size → t.Covers other y → s.Covers other y := by
  have sound := sited.document
  have within {x : NodeId} := (regrows.sound sound).isWithin_iff_under (x := x) (y := Document.root)
  refine ⟨fun other later => ?_, fun other y old later => ?_⟩
  · obtain ⟨x, here, there⟩ := eases.due other later
    have outside : ¬u.document.Under x host := fun inside => by
      obtain ⟨y, unconfigured, -⟩ := later
      exact unconfigured.stage (configured other x here inside)
    rcases fresh other x here with before | new
    · refine ⟨x, before, sited.document.isConnected_iff.mpr ((within.mp there).imp_right fun below => ?_)⟩
      exact regrows.under_old sound bound (sited.bound before) sited.rooted below
    · rcases within.mp there with rfl | below
      · exact absurd sited.rooted (Nat.not_lt_of_le new)
      · exact absurd (regrows.under_new new sited.rooted below).1 outside
  · obtain ⟨x, here, below⟩ := eases.covers other y (old.trans_le regrows.size) later
    have outside : ¬u.document.Under x host := fun inside => by
      obtain ⟨z, unconfigured, -⟩ := later
      exact unconfigured.stage (configured other x here inside)
    rcases fresh other x here with before | new
    · exact ⟨x, before, regrows.under_old sound bound old (sited.bound before) below⟩
    · exact absurd (regrows.inside_of_above sound bound old new below) outside

end Scene

namespace Gating
open Act
variable {p : Point κ σ} {id : ComponentId} {host : NodeId}

theorem wp_awaitNested (regular : p.scene.Regular) (loaded : p.scene.loading = false)
    (configured : p.scene.Configured id) (placed : ∀ c, p.scene.component? id = some c → c.node = host)
    (clear : ∀ other, ¬p.scene.Covers other host) : (Act.awaitNested id host).wp (Gating κ σ) (fun _ q =>
      q.scene.Regular ∧ p.scene.Eases q.scene ∧
        ∀ other x, p.scene.Fresh other x → p.scene.document.Under x host → q.scene.Configured other) p := by
  refine (wp_bind _ _).mpr (wp_scene.mpr ?_)
  extract_lets nested
  have member {other : ComponentId} {x : NodeId} (fresh : p.scene.Fresh other x)
      (below : p.scene.document.Under x host) : other ∈ nested := by
    refine List.mem_filter.mpr ⟨regular.mem_componentsIn fresh (.inr below), ?_⟩
    have apart : other ≠ id := fun same => fresh.stage (same ▸ configured)
    obtain ⟨c, found⟩ : ∃ c, p.scene.component? other = some c := fresh.imp fun _ rest => rest.1
    simp [apart, found, regular.tidy.not_completed fresh found]
  have inside {child : ComponentId} (listed : child ∈ nested) : ∃ c, p.scene.component? child = some c ∧
      p.scene.document.Under c.node host := by
    obtain ⟨here, waiting⟩ := List.mem_filter.mp listed
    obtain ⟨c, found, within⟩ := regular.mem_componentsIn_iff.mp here
    refine ⟨c, found, within.resolve_left fun same => ?_⟩
    obtain ⟨d, there, -⟩ := configured
    cases regular.apart child id c d found there (same.trans (placed d there).symm)
    simp at waiting
  have awaited : (each nested (await id) : Act κ _).Trims :=
    Trims.composes.each _ fun child => .of_touches (.await id child) (by decide)
  refine (wp_bind _ _).mpr (wp_mono _ ?_ (awaited.wp_eases regular))
  rintro _ q ⟨regular', eases⟩
  refine wp_mono _ ?_ (wp_each_ordered (J := fun q => q.scene.Regular ∧ p.scene.Eases q.scene)
    (D := fun q other => q.scene.Configured other)
    (W := fun child other => p.scene.Precedes other child) ?_ ?_ ?_ ?_ ⟨regular', eases⟩)
  · rintro _ r ⟨⟨regular, eases⟩, done⟩
    exact ⟨regular, eases, fun other x fresh below => done other (member fresh below)⟩
  · rintro child listed other ⟨x, fresh, y, fresh', below⟩
    obtain ⟨c, found, deep⟩ := inside listed
    rw [fresh.node found] at deep
    refine member fresh' ?_
    rcases Document.Under.linear below deep with rfl | within | above
    · exact absurd fresh' (regular.not_fresh configured placed)
    · exact within
    · exact absurd ⟨y, fresh', above⟩ (clear other)
  · exact (p.scene.pairwise_precedes (regular.document.pairwise_subtree host)).filter _
  · exact fun child _ => regular.not_precedes_self
  · rintro child listed q ⟨regular', eases⟩ done
    obtain ⟨c, found, -⟩ := inside listed
    obtain ⟨d, there, -⟩ := eases.node child c found
    refine (wp_ask _).mpr ⟨⟨regular', ?_⟩, fun _ r after => ⟨trivial, fun _ => ?_⟩⟩
    · rintro _ ⟨⟩
      refine ⟨eases.loading.trans loaded, fun other precedes => precedes.stage (done other ?_)⟩
      exact eases.precedes regular.toPlaced found precedes
    · obtain ⟨regular'', eases', connected, -⟩ := after
      exact ⟨⟨regular'', IsTrans.trans _ _ _ eases eases'⟩, connected child d rfl there, eases'.configured⟩

/-- The end of an expansion. All that is not configured below the host is new or was there before. -/
theorem wp_applied {f : Component κ → Component κ} {c : Component κ} {content : NodeId} {r : Point κ σ}
    (node : ∀ c, (f c).node = c.node) (stage : ∀ c, (f c).stage = .expanded) (regular : p.scene.Regular)
    (loaded : p.scene.loading = false) (found : p.scene.component? id = some c)
    (clear : ∀ other, ¬p.scene.Covers other c.node) (regular' : r.scene.Regular)
    (breeds : p.scene.Breeds r.scene)
    (regrows : p.scene.document.Regrows c.node content r.scene.document) :
    (do
      Act.modify id f
      Act.awaitNested id c.node
      Act.ask (.release id) : Act κ Unit).wp (Gating κ σ)
        (fun _ q => q.scene.Regular ∧ p.scene.Eases q.scene) r := by
  have bound := regular.inside id c found
  obtain ⟨d, there, node_d, -⟩ := breeds.old id c found
  refine (wp_modify_bind _ _ _).mpr ?_
  generalize applied : r.scene.modify id f = u
  have here (other : ComponentId) : u.component? other =
      if id = other then (r.scene.component? other).map f else r.scene.component? other :=
    applied ▸ r.scene.component?_modify id other f
  have self : u.component? id = some (f d) := by rw [here, if_pos rfl, there, Option.map_some]
  have configured : u.Configured id := ⟨f d, self, by rw [stage]; rfl⟩
  have placed (e : Component κ) (found : u.component? id = some e) : e.node = c.node := by
    cases self.symm.trans found
    rw [node, node_d]
  have fresh (other : ComponentId) (x : NodeId) (fresh : u.Fresh other x) :
      p.scene.Fresh other x ∨ p.scene.document.size ≤ x.index := by
    have apart : id ≠ other := fun same => fresh.stage (same ▸ configured)
    obtain ⟨e, found, rest⟩ := fresh
    rw [here, if_neg apart] at found
    exact breeds.fresh ⟨e, found, rest⟩
  have document : u.document = r.scene.document := applied ▸ rfl
  rw [← document] at regrows
  refine takes regular'.toSited (Scene.Bars.admits ?_) (congrArg Document.size document).ge
    (fun x link => by rwa [document] at link) fun sited _ _ => ?_
  · rw [← applied]
    exact .modify r.scene id fun c => by rw [stage]; decide
  have regular' : u.Regular := by
    refine ⟨sited, fun other unattached => ?_⟩
    by_cases same : id = other
    · subst same
      rw [Scene.stage?, self, Option.map_some, stage] at unattached
      cases unattached
    · rw [Scene.stage?, here, if_neg same] at unattached
      exact regular'.born other unattached
  have loading : u.loading = p.scene.loading := applied ▸ breeds.loading
  have clear (other : ComponentId) : ¬u.Covers other c.node := by
    rintro ⟨x, unconfigured, below⟩
    have below := regrows.under_host regular.document bound below
    rcases fresh other x unconfigured with before | new
    · exact clear other ⟨x, before, below⟩
    · exact absurd (regular.document.bound_of_under below) (Nat.not_lt_of_le new)
  refine (wp_bind _ _).mpr (wp_mono _ ?_
    (wp_awaitNested (p := r.change u) regular' (loading.trans loaded) configured placed clear))
  rintro _ q ⟨regular'', eases, done⟩
  obtain ⟨ready, answered⟩ := takes_call (.release id) (fun same => by cases same) regular''
  refine (wp_ask _).mpr ⟨ready, fun a t after => (answered a t after).imp ?_⟩
  rintro ⟨regular'', eases'⟩
  have eases : u.Eases t.scene := IsTrans.trans _ _ _ eases eases'
  obtain ⟨due, covers⟩ := Scene.eases_of_regrows regular.toSited bound regrows fresh
    (fun other x fresh below => eases'.configured other (done other x fresh below)) eases
  have old (other : ComponentId) (e : Component κ) (found : p.scene.component? other = some e) :
      ∃ e', u.component? other = some e' ∧ e'.node = e.node ∧
        (e.stage.isConfigured = true → e'.stage.isConfigured = true) := by
    obtain ⟨e', there, node', stage'⟩ := breeds.old other e found
    by_cases same : id = other
    · refine ⟨f e', by rw [here, if_pos same, there, Option.map_some], (node e').trans node', fun _ => ?_⟩
      rw [stage]
      rfl
    · exact ⟨e', by rw [here, if_neg same, there], node', fun before => stage' ▸ before⟩
  refine ⟨regular'', regrows.size.trans eases.size, fun other e found => ?_, ?_, due, covers,
    eases.loading.trans loading, eases.pending.trans (applied ▸ breeds.pending)⟩
  · obtain ⟨e', there, node', -⟩ := old other e found
    obtain ⟨e'', later, node''⟩ := eases.node other e' there
    exact ⟨e'', later, node''.trans node'⟩
  · rintro other ⟨e, found, before⟩
    obtain ⟨e', there, -, kept⟩ := old other e found
    exact eases.configured other ⟨e', there, kept before⟩

theorem wp_configure {c : Component κ} (regular : p.scene.Regular) (loaded : p.scene.loading = false)
    (ripe : p.scene.Ripe id) (found : p.scene.component? id = some c) (created : c.stage = .created) :
    (Act.configure id).wp (Gating κ σ) (fun _ q => q.scene.Regular ∧ p.scene.Eases q.scene ∧
      q.scene.Configured id) p := by
  refine wp_withComponent (fun c' found' => ?_) fun missing => ?_
  swap
  · cases missing.symm.trans found
  cases found'.symm.trans found
  rw [wp_ite, if_pos created]
  have taken (names : List String) : (each names (configureAttribute id c.node c.schema) : Act κ _).Trims :=
    Trims.composes.each _ fun attr => .of_touches (.configureAttribute _ _ _ _) (by decide)
  refine (wp_bind _ _).mpr (wp_scene.mpr ((wp_bind _ _).mpr (wp_mono _ ?_ ((taken _).wp_eases regular))))
  rintro _ q ⟨regular', eases⟩
  obtain ⟨d, there, -⟩ := eases.node id c found
  have configures := q.scene.eases_modify id (f := fun c => { c with stage := .configured })
    (fun _ => rfl) fun _ => rfl
  have configured : (q.scene.modify id fun c => { c with stage := .configured }).Configured id :=
    ⟨{ d with stage := .configured }, by rw [Scene.component?_modify, if_pos rfl, there]; rfl, rfl⟩
  refine (wp_bind _ _).mpr ((wp_modify _ _).mpr ?_)
  refine takes_later regular' (fun _ => rfl) ⟨fun loading => ?_, fun other here => ?_⟩ fun regular' => ?_
  · cases (eases.loading.trans loaded).symm.trans loading
  · rw [Scene.stage?_setStage] at here
    split at here
    · next same =>
      subst same
      exact .inr fun upper precedes => ripe upper (eases.precedes regular.toPlaced found precedes)
    · exact .inl here
  have rest : (do
      each c.schema.toList (reflectDefault id c.node)
      resolveContext id : Act κ Unit).Trims :=
    .bind (.of_touches (.each _ fun _ => .reflectDefault _ _ _) (by decide)) fun _ =>
      .of_touches (.resolveContext id) (by decide)
  refine wp_mono _ ?_ (rest.wp_eases (p := q.change _) regular')
  rintro _ r ⟨regular'', eases'⟩
  exact ⟨regular'', IsTrans.trans _ _ _ (IsTrans.trans _ _ _ eases configures) eases',
    eases'.configured id configured⟩

variable [IsEmpty κ]

/-- A component below which all is clear takes its template and connects what lies in it. -/
theorem wp_applyTemplate (regular : p.scene.Regular) (loaded : p.scene.loading = false)
    (clear : ∀ c other, p.scene.component? id = some c → ¬p.scene.Covers other c.node) :
    (Act.applyTemplate id).wp (Gating κ σ) (fun _ q => q.scene.Regular ∧ p.scene.Eases q.scene) p := by
  refine wp_withComponent (fun c found => ?_) fun _ => ⟨regular, Std.Refl.refl _⟩
  rw [wp_ite]
  split
  swap
  · exact ⟨regular, Std.Refl.refl _⟩
  have bound := regular.inside id c found
  have clear := fun other => clear c other found
  refine (wp_bind _ _).mpr (wp_scene.mpr ?_)
  refine (wp_bind _ _).mpr (wp_mono _ ?_ (wp_expand id c _ regular bound))
  rintro template q ⟨regular', breeds, grows, links⟩
  refine (wp_bind _ _).mpr (wp_mono _ ?_
    (wp_layOut (template.getD []) regular.toSited regular' breeds grows links))
  rintro ⟨layout, tree⟩ r ⟨regular', breeds, regrows⟩
  dsimp -zeta only at regrows ⊢
  extract_lets placed
  have later (text : String) {r : Point κ σ} (regular' : r.scene.Regular) (breeds : p.scene.Breeds r.scene)
      (regrows : p.scene.document.Regrows c.node layout.content r.scene.document) :
      (placed text).wp (Gating κ σ) (fun _ q => q.scene.Regular ∧ p.scene.Eases q.scene) r := by
    unfold placed
    generalize applied : (fun c : Component κ => { c with
      stage := .expanded
      bindings := some tree
      boundProperties := tree.dependencies
      refs := layout.refs
      content := some layout.content
      lightText := text
      barrier := c.barrier.hold }) = f
    exact wp_applied (fun c => applied ▸ rfl) (fun c => applied ▸ rfl) regular loaded found clear
      regular' breeds regrows
  rw [wp_ite]
  split
  · refine (wp_bind _ _).mpr (wp_mono _ ?_
      (wp_placeLight tree regular.toSited regular' breeds regrows fun x inside => ?_))
    · rintro text t ⟨regular', breeds, regrows⟩
      exact later text regular' breeds regrows
    · exact regular.document.mem_children.mp inside
  · exact later "" regular' breeds regrows

/-- While the document is not loading a component is connected at once, if it is ripe. -/
theorem wp_connect_ripe (regular : p.scene.Regular) (loaded : p.scene.loading = false)
    (ripe : p.scene.Ripe id) : (Act.connect id).wp (Gating κ σ) (fun _ q => q.scene.Regular ∧
      p.scene.Eases q.scene ∧ ∀ c, p.scene.component? id = some c → q.scene.Configured id) p := by
  refine wp_withComponent (fun c found => ?_) fun missing =>
    ⟨regular, Std.Refl.refl _, fun _ found => absurd (missing.symm.trans found) (Option.some_ne_none _).symm⟩
  split
  · next created =>
    refine (wp_bind _ _).mpr (wp_scene.mpr ?_)
    rw [wp_ite, if_neg (by rw [loaded]; exact Bool.false_ne_true)]
    refine (wp_bind _ _).mpr (wp_mono _ ?_ (wp_configure regular loaded ripe found created))
    rintro _ q ⟨regular', eases, configured⟩
    have fresh : p.scene.Fresh id c.node := ⟨c, found, rfl, by rw [created]; rfl⟩
    refine wp_mono _ ?_ (wp_applyTemplate regular' (eases.loading.trans loaded) fun d other there covers => ?_)
    · rintro _ r ⟨regular'', eases'⟩
      exact ⟨regular'', IsTrans.trans _ _ _ eases eases', fun _ _ => eases'.configured id configured⟩
    · obtain ⟨d', there', node⟩ := eases.node id c found
      cases there'.symm.trans there
      rw [node] at covers
      exact ripe other ⟨c.node, fresh, eases.covers other _ (regular.inside id c found) covers⟩
  · next detached =>
    refine wp_mono _ ?_ ((Trims.attach id).wp_eases regular)
    rintro _ q ⟨regular', eases⟩
    exact ⟨regular', eases, fun _ _ => eases.configured id ⟨c, found, by rw [detached]; rfl⟩⟩
  · next other other' =>
    refine ⟨regular, Std.Refl.refl _, fun _ _ => ⟨c, found, ?_⟩⟩
    have born : c.stage ≠ .unattached := fun same =>
      regular.born id (by rw [Scene.stage?, found, Option.map_some, same])
    cases stage : c.stage <;> simp_all [Stage.isConfigured]

end Gating
end LiveTree
