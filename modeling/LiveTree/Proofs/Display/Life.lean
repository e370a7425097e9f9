import LiveTree.Proofs.Display.Founding

/-! Components keep their footing whatever happens to them. Where there is no consumer code, they are made
bare, get their sites when their templates are expanded, and are pushed and ready before they are completed. -/
namespace LiveTree
variable {κ σ α β : Type} {p : Point κ σ} {id : ComponentId}

namespace Founding

theorem wp_instantiate [IsEmpty κ] (x : NodeId) (d : Definition κ) (owner : Option ComponentId) {s : Scene κ}
    (founded : p.scene.Founded) (since : s.Carries p.scene) :
    (Act.instantiate x d owner).wp (Founding κ σ) (fun _ q => q.scene.Founded ∧ s.Carries q.scene) p := by
  refine (Act.wp_bind _ _).mpr (Act.wp_scene.mpr ((Act.wp_bind _ _).mpr ((Act.wp_update _).mpr ?_)))
  have pushed := Scene.Carries.push p.scene d x owner
  refine takes_carries founded pushed fun founded => (Act.wp_bind _ _).mpr ((Act.wp_modify _ _).mpr ?_)
  have staged := Scene.Carries.modify (p.change { p.scene with
    components := p.scene.components.push (.new d x owner) }).scene ⟨p.scene.components.size⟩
    (f := fun c => { c with stage := .created }) fun c found => by
      cases ((Scene.component?_push ..).trans (if_pos rfl)).symm.trans found
      rfl
  refine takes_carries founded staged fun founded => (Act.wp_bind _ _).mpr ?_
  have since := IsTrans.trans _ _ _ since (IsTrans.trans _ _ _ pushed staged)
  refine Act.wp_mono _ ?_ (Act.wp_carries ((Act.Touches.tellParts _ _).alone (by decide)) (by decide) founded since)
  rintro _ q ⟨founded, since⟩
  refine (Act.wp_bind _ _).mpr (Act.wp_mono _ (fun _ _ kept => kept) ?_)
  exact Act.wp_carries ((Act.Touches.runHook _ _ _).alone (by decide)) (by decide) founded since

/-- While a template grows, components are made, and those that were there stay what they are. -/
theorem fosters [IsEmpty κ] (s : Scene κ) :
    Fosters (Founding κ σ) (fun p => p.scene.Founded ∧ s.Carries p.scene) fun _ => True where
  edit p d here := takes_carries here.1 (.of_components rfl) fun founded =>
    ⟨founded, IsTrans.trans _ _ _ here.2 (.of_components rfl)⟩
  own p owner here := takes_carries here.1 (.of_components rfl) fun founded =>
    ⟨founded, IsTrans.trans _ _ _ here.2 (.of_components rfl)⟩
  instantiate p _ d x owner here _ _ := by
    have alone := ((Act.Touches.instantiate x d owner).alone (by decide)).wp_alone (K := Founding κ σ) (p := p)
      fun _ _ _ _ _ => trivial
    refine Act.wp_mono _ ?_ (Act.wp_and _ (wp_instantiate x d owner here.1 here.2) alone)
    rintro _ q ⟨here, alike⟩
    have same : q.scene.document = p.scene.document := alike.view .document (by decide)
    rw [same]
    exact ⟨here, .refl _, .refl _⟩

end Founding

namespace Scene
variable {s t : Scene κ} {host : NodeId} {xs : List NodeId} {tree : BindingTree}

structure Grown (id : ComponentId) (host : NodeId) (xs : List NodeId) (s : Scene κ) : Prop where
  founded : s.Founded
  component : ∃ f ∈ s.footing? id, f.node = host ∧ f.ready = false
  stands : ∃ n ms, Markup.Stands n s.document ms xs ∧ ∀ other i x, s.nodeAt? other i = some x → x.index < n
  apart : (xs.flatMap s.document.subtree).Nodup

structure Expects (id : ComponentId) (tree : BindingTree) (s : Scene κ) : Prop where
  founded : s.Founded
  component : ∃ f ∈ s.footing? id, tree.nodeAt? 0 = some f.node ∧ f.ready = false
  tidy : tree.Tidy
  inside : ∀ i x, tree.nodeAt? i = some x → x.index < s.document.size
  distinct : ∀ i j x, 0 < i → 0 < j → tree.nodeAt? i = some x → tree.nodeAt? j = some x → i = j
  fresh : ∀ i x, 0 < i → tree.nodeAt? i = some x → ∀ other j, s.nodeAt? other j ≠ some x

theorem Expects.of_carries (expects : s.Expects id tree) (founded : t.Founded) (carries : s.Carries t)
    (size : s.document.size ≤ t.document.size) : t.Expects id tree :=
  { expects with
    founded := founded
    component := expects.component.imp fun f here => ⟨carries.old id f here.1, here.2⟩
    inside := fun i x here => (expects.inside i x here).trans_le size
    fresh := fun i x new here other j there => expects.fresh i x new here other j (carries.of_nodeAt? there) }

theorem Founded.inside (founded : s.Founded) {f : Footing} (here : f ∈ s.footing? id) :
    f.node.index < s.document.size := by
  obtain ⟨c, found, rfl⟩ := Option.map_eq_some_iff.mp (Option.mem_def.mp here)
  exact founded.placed.inside id c found

end Scene

namespace Founding
variable {c : Component κ} {host : NodeId} {xs : List NodeId} {tree : BindingTree}

/-- Without a template there is nothing that could have sites. -/
theorem grown_nil {s : Scene κ} (founded : s.Founded) (component : ∃ f ∈ s.footing? id, f.node = host ∧ f.ready = false) :
    s.Grown id host [] where
  founded := founded
  component := component
  stands := ⟨s.document.size, [], .nil, fun other i x here => by
    obtain ⟨f, there, at_⟩ := Option.bind_eq_some_iff.mp here
    exact (founded.firm.each other f there).inside i x at_⟩
  apart := List.nodup_nil

theorem wp_expand [IsEmpty κ] (founded : p.scene.Founded) (found : p.scene.component? id = some c)
    (early : c.isReady = false) (light : List NodeId) :
    (Act.expand id c light).wp (Founding κ σ) (fun template q =>
      q.scene.Grown id c.node (template.getD []) ∧ p.scene.Matures q.scene) p := by
  have here : c.footing ∈ p.scene.footing? id := congrArg (Option.map Component.footing) found
  cases read : c.definition.template.map Markup.read with
  | none =>
    unfold Act.expand
    rw [read]
    exact ⟨grown_nil founded ⟨_, here, rfl, early⟩, Std.Refl.refl _⟩
  | some read? =>
    cases read? with
    | error reason =>
      unfold Act.expand
      rw [read]
      have noted : (Act.note (some id) (.badTemplate c.tag reason) : Act κ _).Founds :=
        .of_touches (.note _ _) (by decide)
      refine (Act.wp_bind _ _).mpr (Act.wp_mono _ ?_
        (Act.wp_resting (noted σ p founded) (.note _ _) (by decide)))
      rintro _ q ⟨⟨founded, since⟩, alike⟩
      obtain ⟨d, there, same⟩ := alike.component id c found
      have stage : d.stage = c.stage := same.view .stage (by decide)
      refine ⟨grown_nil founded ⟨d.footing, congrArg (Option.map Component.footing) there, same.node, ?_⟩, since⟩
      exact (congrArg Stage.isReady stage).trans early
    | ok ms =>
      have inside := founded.placed.inside id c found
      have grown := (fosters p.scene).wp_expand id light read (fun _ _ => trivial) founded.placed.document inside
        ⟨founded, Std.Refl.refl _⟩
      refine Act.wp_mono _ ?_ grown
      rintro _ q ⟨⟨founded', carries⟩, ys, rfl, below⟩
      have prunes := Document.Prunes.foldl (fun d x => d.prunes_removeChild c.node x) light p.scene.document
      refine ⟨⟨founded', ⟨c.footing, carries.old id _ here, rfl, early⟩, ?_, ?_⟩, .of_carries carries⟩
      · refine ⟨_, ms, below.stands, fun other i x there => ?_⟩
        obtain ⟨f, before, at_⟩ := Option.bind_eq_some_iff.mp (carries.of_nodeAt? there)
        exact ((founded.firm.each other f before).inside i x at_).trans_le prunes.size
      · exact below.nodup (inside.trans_le prunes.size)

theorem wp_layOut (grown : p.scene.Grown id host xs) :
    (Act.layOut host xs).wp (Founding κ σ) (fun laid q =>
      q.scene.Expects id laid.2 ∧ p.scene.Matures q.scene) p := by
  obtain ⟨founded, ⟨f, here, rfl, early⟩, ⟨n, ms, stands, old⟩, apart⟩ := grown
  refine (Act.wp_bind _ _).mpr (Act.wp_scene.mpr ?_)
  dsimp -zeta only
  refine (Act.wp_bind _ _).mpr ((Act.wp_update _).mpr ?_)
  refine takes_carries founded (.of_components rfl) fun founded' => ⟨?_, .of_carries (.of_components rfl)⟩
  obtain ⟨first, new, distinct⟩ := BindingTree.nodeAt?_laidOut (s := {
    document := (Layout.ofTemplate p.scene.document p.scene.config.stableId f.node xs).2
    stableId := p.scene.config.stableId
    host := p.scene.schemaAt f.node
    schemaAt := p.scene.schemaAt }) stands founded.placed.document apart rfl
  refine ⟨founded', ⟨f, here, first, early⟩, .ofTemplate _ _ _, fun i x at_ => ?_, distinct, ?_⟩
  · cases i with
    | zero =>
      cases first.symm.trans at_
      exact founded'.inside here
    | succ i => exact (new _ x (Nat.succ_pos i) at_).2
  · intro i x later at_ other j there
    exact Nat.lt_irrefl _ ((old other j x there).trans_le (new i x later at_).1)

/-- What keeps a component waiting for its binding tree. -/
theorem wp_awaits {F : List Field} {m : Act κ α} (touches : m.Touches F [])
    (out : (∀ f ∈ Field.founding, f ∉ F) ∧ Field.components ∉ F) {s : Scene κ}
    (expects : p.scene.Expects id tree) (since : s.Matures p.scene) :
    m.wp (Founding κ σ) (fun _ q => q.scene.Expects id tree ∧ s.Matures q.scene) p := by
  refine Act.wp_of_within (I := fun q => q.scene.Expects id tree ∧ s.Matures q.scene) ?_ ?_ ⟨expects, since⟩
    (touches p.scene)
  · rintro q t ⟨expects, since⟩ alike
    have carries : q.scene.Carries t := .of_alike alike out.1 out.2
    exact takes_carries expects.founded carries fun founded =>
      ⟨expects.of_carries founded carries alike.document.size, IsTrans.trans _ _ _ since (.of_carries carries)⟩
  · intro c q _ none
    exact absurd none List.not_mem_nil

/-- The component gets its binding tree. -/
theorem wp_applied (expects : p.scene.Expects id tree) (refs : Keyed NodeId) (content : NodeId) (text : String) :
    (Act.modify id fun c : Component κ => { c with
      stage := .expanded
      bindings := some tree
      boundProperties := tree.dependencies
      refs := refs
      content := some content
      lightText := text
      barrier := c.barrier.hold }).wp (Founding κ σ) (fun _ q =>
        q.scene.Founded ∧ p.scene.Matures q.scene) p := by
  obtain ⟨f, here, first, early⟩ := expects.component
  obtain ⟨c, found, rfl⟩ := Option.map_eq_some_iff.mp (Option.mem_def.mp here)
  have open_ : c.completed = false := by
    by_contra done
    have ready := ((expects.founded.firm.each id _ here).settled (Bool.not_eq_false _ ▸ done)).1
    cases early.symm.trans ready
  refine takes (fun _ => expects.founded.firm.plant found ⟨?_, ?_, fun x there => ?_, fun i x there => ?_, ?_⟩ ?_ ?_)
    fun founded => ⟨founded, .modify _ _ fun d there => ⟨fun ready => ?_, fun same => same⟩⟩
  · exact tree.dependencies_still.symm
  · refine Component.tidy_footing.mpr fun t own => ?_
    cases own
    exact expects.tidy
  · rw [Footing.nodeAt?, Component.footing, Option.map_some, Option.bind_some, tree.nodeAt?_still] at there
    exact Option.some.inj (there.symm.trans first)
  · rw [Footing.nodeAt?, Component.footing, Option.map_some, Option.bind_some, tree.nodeAt?_still] at there
    exact expects.inside i x there
  · exact fun done => absurd (open_.symm.trans done) Bool.false_ne_true
  · intro i j x new new' there there'
    rw [Footing.nodeAt?, Component.footing, Option.map_some, Option.bind_some, tree.nodeAt?_still] at there there'
    exact expects.distinct i j x new new' there there'
  · intro i x new there
    rw [Footing.nodeAt?, Component.footing, Option.map_some, Option.bind_some, tree.nodeAt?_still] at there
    exact expects.fresh i x new there
  · cases there.symm.trans found
    cases early.symm.trans ready

theorem wp_pushFirst (founded : p.scene.Founded) {f : Footing} (here : f ∈ p.scene.footing? id) :
    (Act.pushFirst id).wp (Founding κ σ) (fun _ q => q.scene.Founded ∧ p.scene.Matures q.scene ∧
      ∃ g ∈ q.scene.footing? id, g.pushed = true) p := by
  have matures : p.scene.Matures (p.scene.modify id fun c => { c with bindingsReady := true }) :=
    .modify _ _ fun _ _ => ⟨fun same => same, fun _ => rfl⟩
  refine (Act.wp_bind _ _).mpr ((Act.wp_modify _ _).mpr (takes (fun _ => ?_) fun founded => ?_))
  · refine founded.firm.modify id fun c _ firm => ⟨{ firm with settled := fun done => ?_ }, fun _ => rfl⟩
    exact ⟨(firm.settled done).1, rfl⟩
  obtain ⟨c, found, rfl⟩ := Option.map_eq_some_iff.mp (Option.mem_def.mp here)
  have there : { c.footing with pushed := true } ∈
      (p.scene.modify id fun c => { c with bindingsReady := true }).footing? id := by
    rw [Scene.footing?_modify, if_pos rfl, found]
    rfl
  have rest : (do Act.pushTexts id; Act.pushBound id none : Act κ Unit).Founds :=
    .bind (.of_touches (.pushTexts id) (by decide)) fun _ => .of_touches (.pushBound id none) (by decide)
  refine Act.wp_mono _ ?_ (rest σ _ founded)
  rintro _ q ⟨founded, since⟩
  obtain ⟨g, later, -, pushed⟩ := since id _ there
  exact ⟨founded, IsTrans.trans _ _ _ matures since, g, later, pushed rfl⟩

theorem wp_setReady (founded : p.scene.Founded) (pushed : ∃ f ∈ p.scene.footing? id, f.pushed = true) :
    (Act.setStage id .ready).wp (Founding κ σ) (fun _ q => q.scene.Founded ∧ p.scene.Matures q.scene ∧
      ∃ g ∈ q.scene.footing? id, g.ready = true ∧ g.pushed = true) p := by
  obtain ⟨f, here, pushed⟩ := pushed
  obtain ⟨c, found, rfl⟩ := Option.map_eq_some_iff.mp (Option.mem_def.mp here)
  refine (Act.wp_modify _ _).mpr (takes (fun _ => ?_) fun founded => ⟨founded, ?_, ?_⟩)
  · refine founded.firm.modify id fun c _ firm => ⟨{ firm with settled := fun done => ?_ }, fun _ => rfl⟩
    exact ⟨rfl, (firm.settled done).2⟩
  · exact .modify _ _ fun _ _ => ⟨fun _ => rfl, fun same => same⟩
  · refine ⟨{ c.footing with ready := true }, ?_, rfl, pushed⟩
    rw [Point.scene_change, Scene.footing?_modify, if_pos rfl, found]
    rfl

theorem wp_completed (founded : p.scene.Founded) (fit : ∃ f ∈ p.scene.footing? id, f.ready = true ∧ f.pushed = true) :
    (Act.modify id fun c : Component κ => { c with completed := true }).wp (Founding κ σ) (fun _ q =>
      q.scene.Founded ∧ p.scene.Matures q.scene) p := by
  obtain ⟨f, here, fit⟩ := fit
  refine (Act.wp_modify _ _).mpr (takes (fun _ => ?_) fun founded => ⟨founded, ?_⟩)
  · refine founded.firm.modify id fun c found firm => ⟨{ firm with settled := fun _ => ?_ }, fun _ => rfl⟩
    cases (congrArg (Option.map Component.footing) found).symm.trans here
    exact fit
  · exact .modify _ _ fun _ _ => ⟨fun same => same, fun same => same⟩

end Founding

namespace Act.Founds
variable [IsEmpty κ]

theorem createElement (tag : String) : (Act.createElement tag : Act κ _).Founds :=
  composes.createElement (fun _ => edit _)
    (fun x d owner => of_carries fun _ _ founded => Founding.wp_instantiate x d owner founded (Std.Refl.refl _)) tag

omit [IsEmpty κ] in
theorem configure (id : ComponentId) : (Act.configure id : Act κ _).Founds := by
  intro σ p founded
  refine wp_withComponent (fun c found => ?_) fun _ => ⟨founded, Std.Refl.refl _⟩
  rw [wp_ite]
  split
  · next created =>
    refine (wp_bind _ _).mpr (wp_scene.mpr ((wp_bind _ _).mpr ?_))
    have configured : (Act.each (p.scene.document.attributeNames c.node)
        (Act.configureAttribute id c.node c.schema) : Act κ Unit).Touches [.document] [.write] :=
      .each _ fun _ => .configureAttribute _ _ _ _
    refine wp_mono _ ?_ (wp_resting (of_touches configured (by decide) σ p founded) configured (by decide))
    rintro _ q ⟨⟨founded, since⟩, alike⟩
    obtain ⟨d, there, same⟩ := alike.component id c found
    have early : d.isReady = false := by
      rw [Component.isReady, show d.stage = c.stage from same.view .stage (by decide), created]
      rfl
    refine (wp_bind _ _).mpr ((wp_modify _ _).mpr (Founding.takes (fun _ => ?_) fun founded => ?_))
    · refine founded.firm.modify id fun e found firm => ⟨{ firm with settled := fun done => ?_ }, fun _ => rfl⟩
      cases found.symm.trans there
      cases early.symm.trans (firm.settled done).1
    refine ((composes.each _ fun _ => ?_).bind fun _ => ?_).after founded (IsTrans.trans _ _ _ since ?_)
    · exact of_touches (.reflectDefault _ _ _) (by decide)
    · exact of_touches (.resolveContext id) (by decide)
    · refine .modify _ _ fun e found => ⟨fun ready => ?_, fun same => same⟩
      cases found.symm.trans there
      cases early.symm.trans ready
  · exact ⟨founded, Std.Refl.refl _⟩

theorem applyTemplate (id : ComponentId) : (Act.applyTemplate id : Act κ _).Founds := by
  intro σ p founded
  refine wp_withComponent (fun c found => ?_) fun _ => ⟨founded, Std.Refl.refl _⟩
  rw [wp_ite]
  split
  · next configured =>
    have early : c.isReady = false := by rw [Component.isReady, configured]; rfl
    refine (wp_bind _ _).mpr (wp_scene.mpr ?_)
    dsimp -zeta only
    refine (wp_bind _ _).mpr (wp_mono _ ?_ (Founding.wp_expand founded found early _))
    rintro template q ⟨grown, since⟩
    refine (wp_bind _ _).mpr (wp_mono _ ?_ (Founding.wp_layOut grown))
    rintro ⟨layout, tree⟩ r ⟨expects, since'⟩
    have since := IsTrans.trans _ _ _ since since'
    dsimp -zeta only
    extract_lets placed
    have later (text : String) {r : Point κ σ} (expects : r.scene.Expects id tree)
        (since : p.scene.Matures r.scene) : (placed text).wp (Founding κ σ)
          (fun _ q => q.scene.Founded ∧ p.scene.Matures q.scene) r := by
      refine (wp_bind _ _).mpr (wp_mono _ ?_ (Founding.wp_applied expects _ _ _))
      rintro _ t ⟨founded, since'⟩
      refine ((of_touches (.awaitNested id c.node) (by decide)).bind fun _ => ask _).after founded ?_
      exact IsTrans.trans _ _ _ since since'
    rw [wp_ite]
    split
    · refine (wp_bind _ _).mpr (wp_mono _ ?_ (Founding.wp_awaits (.placeLight _ _ _) (by decide) expects since))
      exact fun text t kept => later text kept.1 kept.2
    · exact later "" expects since
  · exact ⟨founded, Std.Refl.refl _⟩

omit [IsEmpty κ] in
theorem enter (id : ComponentId) : (Act.enter id : Act κ _).Founds :=
  bind (setStage id rfl) fun _ => bind (of_touches (.tellParts _ _) (by decide)) fun _ =>
    bind (of_touches (.runHook _ _ _) (by decide)) fun _ => of_touches (.wire _) (by decide)

omit [IsEmpty κ] in
theorem pushOwner (id : ComponentId) : (Act.pushOwner id : Act κ _).Founds := by
  intro σ p founded
  refine wp_withComponent (fun c found => ?_) fun _ => ⟨founded, Std.Refl.refl _⟩
  rw [wp_ite]
  split
  · refine wp_mono _ (fun _ q kept => ⟨kept.1, kept.2.1⟩) (Founding.wp_pushFirst (f := c.footing) founded ?_)
    exact congrArg (Option.map Component.footing) found
  · exact ⟨founded, Std.Refl.refl _⟩

omit [IsEmpty κ] in
/-- The component is pushed and ready by the time it is completed. -/
theorem complete (id : ComponentId) : (Act.complete id : Act κ _).Founds := by
  intro σ p founded
  refine wp_withComponent (fun c found => ?_) fun _ => ⟨founded, Std.Refl.refl _⟩
  have here : c.footing ∈ p.scene.footing? id := congrArg (Option.map Component.footing) found
  rw [wp_ite]
  split
  · refine (wp_bind _ _).mpr (wp_scene.mpr ?_)
    refine (of_touches (.noteMissing _ _) (by decide)).wp_then founded (Std.Refl.refl _) ?_
    intro _ q founded since
    refine (composes.each _ pushOwner).wp_then founded since fun _ q founded since => ?_
    obtain ⟨f, here, -⟩ := since id _ here
    refine (wp_bind _ _).mpr (wp_mono _ ?_ (Founding.wp_pushFirst founded here))
    rintro _ q ⟨founded, since', pushed⟩
    have since := IsTrans.trans _ _ _ since since'
    refine (wp_bind _ _).mpr (wp_mono _ ?_ (Founding.wp_setReady founded pushed))
    rintro _ q ⟨founded, since', g, here, ready, pushed⟩
    have since := IsTrans.trans _ _ _ since since'
    refine (of_touches (.tellParts _ _) (by decide)).wp_then founded (Std.Refl.refl q.scene) fun _ r founded later => ?_
    refine (of_touches (.runHook _ _ _) (by decide)).wp_then founded later fun _ r founded later => ?_
    refine (enter id).wp_then founded later fun _ r founded later => ?_
    obtain ⟨f, here, ready', pushed'⟩ := later id g here
    have since := IsTrans.trans _ _ _ since later
    refine (wp_bind _ _).mpr (wp_mono _ ?_ (Founding.wp_completed founded ⟨f, here, ready' ready, pushed' pushed⟩))
    rintro _ t ⟨founded, since'⟩
    refine (bind (of_touches (.runHook _ _ _) (by decide)) fun _ => ?_).after founded (IsTrans.trans _ _ _ since since')
    exact of_touches (.tellWaiting _) (by decide)
  · exact ⟨founded, Std.Refl.refl _⟩

omit [IsEmpty κ]

theorem release (id : ComponentId) : (Act.release id : Act κ _).Founds :=
  composes.withComponent fun _ => bind (of_touches (F := [.barrier]) (C := [])
    (.modify fun c => .put c .barrier _ (by decide)) (by decide)) fun _ =>
      composes.ite (complete _) (composes.pure _)

theorem attach (id : ComponentId) : (Act.attach id : Act κ _).Founds :=
  composes.attach (enter id) fun owner => of_touches (.modifyStrays owner _) (by decide)

theorem detach (id : ComponentId) : (Act.detach id : Act κ _).Founds := by
  refine composes.withComponent fun c => ?_
  extract_lets left
  have later (r) : (left r).Founds := by
    refine bind (update fun _ => rfl) fun _ => composes.sceneBind fun s => ?_
    split
    · exact composes.ite (of_touches (.addStray _ _) (by decide)) (composes.pure _)
    · exact composes.pure _
  refine composes.ite ?_ (later ())
  refine bind (of_touches (.unwire id) (by decide)) fun _ => bind (setStage id rfl) fun _ => ?_
  exact bind (of_touches (.tellParts _ _) (by decide)) fun _ => bind (of_touches (.runHook _ _ _) (by decide)) later

theorem connect [IsEmpty κ] (id : ComponentId) : (Act.connect id : Act κ _).Founds :=
  composes.connect (fun _ => update fun _ => rfl) (configure id) (applyTemplate id) (attach id)

/-- Bindings come and go at sites that stay where they are. -/
theorem rebind (id : ComponentId) {f : BindingTree → BindingTree}
    (nodes : ∀ t i, (f t).nodeAt? i = t.nodeAt? i) (tidy : ∀ t : BindingTree, t.Tidy → (f t).Tidy) :
    (Act.modify id fun c : Component κ => (c.modifyBindings f).rebound).Founds :=
  modify id (fun _ _ firm => Component.firm_rebound firm nodes tidy)
    fun _ => ⟨fun same => same, fun same => same⟩

theorem addBinding (id : ComponentId) (expression target stableId : String) :
    (Act.addBinding id expression target stableId : Act κ _).Founds := by
  unfold Act.addBinding
  extract_lets text
  split
  · exact composes.pure _
  · refine composes.withComponent fun c => ?_
    split
    · exact composes.pure _
    · refine bind (rebind id (fun t i => t.nodeAt?_modifySite _ i fun _ => rfl) fun t tidy => tidy.insert _ _) fun _ => ?_
      refine bind (composes.each _ fun b => of_touches (.uninstallWriteBack b) (by decide)) fun _ => ?_
      exact composes.ite (bind (of_touches (.push _ _ _) (by decide)) fun _ => composes.pure _)
        (composes.pure _)

theorem removeBinding (id : ComponentId) (expression target stableId : String) :
    (Act.removeBinding id expression target stableId : Act κ _).Founds := by
  refine composes.withComponent fun c => ?_
  split
  · exact composes.pure _
  · split
    · exact composes.pure _
    · refine composes.ite (bind (rebind id (fun t i => t.nodeAt?_modifySite _ i fun _ => rfl) fun t tidy =>
        tidy.erase _ _) fun _ => ?_) (composes.pure _)
      exact bind (of_touches (.uninstallWriteBack _) (by decide)) fun _ => composes.pure _

theorem service (s : Service) (id : ComponentId) (arguments : List Value) :
    (Act.service s id arguments : Act κ _).Founds := by
  cases s with
  | addBinding => exact bind (addBinding _ _ _ _) fun _ => composes.pure _
  | removeBinding => exact bind (removeBinding _ _ _ _) fun _ => composes.pure _
  | log level => exact bind (of_touches (.log _ _ _) (by decide)) fun _ => composes.pure _
  | localize => exact bind (of_touches (.localize _ _ _) (by decide)) fun _ => composes.pure _
  | addMessages =>
    unfold Act.service
    extract_lets text
    dsimp only
    split
    · exact of_touches (.addMessages _ _ _) (by decide)
    · exact composes.pure _

theorem request [IsEmpty κ] (r : Request κ) : r.act.Founds := by
  cases r with
  | register d =>
    exact composes.register connect d (fun _ => of_touches (.note _ _) (by decide)) (fun _ => update fun _ => rfl)
      (fun k => isEmptyElim k) fun x _ owner => of_carries fun _ _ founded =>
        Founding.wp_instantiate x _ owner founded (Std.Refl.refl _)
  | createElement tag => exact createElement tag
  | appendChild parent child => exact composes.appendChild detach connect parent child (edit _)
  | removeChild parent child => exact composes.removeChild detach (fun _ => edit _) parent child
  | finishLoading =>
    exact composes.finishLoading connect (update fun _ => rfl) (of_touches .resolveWaiting (by decide))
  | addBinding id expression target stableId => exact addBinding id expression target stableId
  | removeBinding id expression target stableId => exact removeBinding id expression target stableId
  | _ =>
    refine of_touches (.request _) ?_
    dsimp only [Touches.requested]
    decide

end Act.Founds

variable [IsEmpty κ]

/-- Whatever a call does, it keeps the footings, and all but the calls that connect and release leave alone
how far components have come. -/
theorem Founding.meets (env : Environment κ σ) : env.Meets (Founding κ σ) := by
  intro c p founded
  have resting {α : Type} {m : Act κ α} {F : List Field} {C : List Call.Kind} (touches : m.Touches F C)
      (rests : (∀ f ∈ F, f ∈ Field.resting) ∧ Call.Kind.connect ∉ C ∧ Call.Kind.release ∉ C) (founds : m.Founds) :
      m.wp (Founding κ σ) (fun _ q => q.scene.Founded ∧ p.scene.Matures q.scene ∧
        (c.kind ≠ .connect → c.kind ≠ .release → p.scene.Alike Field.resting q.scene)) p :=
    Act.wp_mono m (fun _ _ kept => ⟨kept.1.1, kept.1.2, fun _ _ => kept.2⟩)
      (Act.wp_resting (founds σ p founded) touches rests)
  cases c with
  | write id name v origin =>
    exact resting (.write id name v origin) (by decide) (.of_touches (.write id name v origin) (by decide))
  | connect id =>
    exact Act.wp_mono _ (fun _ _ kept => ⟨kept.1, kept.2, fun other => absurd rfl other⟩)
      (Act.Founds.connect id σ p founded)
  | release id =>
    exact Act.wp_mono _ (fun _ _ kept => ⟨kept.1, kept.2, fun _ other => absurd rfl other⟩)
      (Act.Founds.release id σ p founded)
  | service s id arguments =>
    exact resting (.service s id arguments) (by decide) (.service s id arguments)
  | deliver x e => exact resting (.deliver x e) (by decide) (.of_touches (.deliver x e) (by decide))
  | callback k o => exact isEmptyElim k
  | apply f arguments => exact ⟨founded, Std.Refl.refl _, fun _ _ => .refl _⟩

theorem Script.wp_founding (m : Script κ σ α) {p : Point κ σ} (founded : p.scene.Founded) :
    m.wp (Founding κ σ) (fun _ q => q.scene.Founded) p :=
  wp_of_requests (I := fun q => q.scene.Founded) (fun _ _ here => here)
    (fun r q here => ⟨trivial, fun _ => Act.wp_mono _ (fun _ _ kept => kept.1)
      (Act.Founds.request r σ (q.request r) here)⟩) m founded

omit [IsEmpty κ] in
/-- Every change of a run leaves each component at a place of its own and no node of the document out. -/
theorem Environment.record_founding (env : Environment κ σ) {w : World κ σ} (placed : w.scene.Placed) (fuel : Nat)
    (m : Script κ σ α) : Along (Founding κ σ).given [] (env.record fuel m w).steps := by
  have safe := (Environment.record_fulfils (p := ⟨[], w⟩) (Placing.meets env) fuel m (Script.wp_placed m placed)
    (Along.iff_splits.mpr fun _ _ _ _ => trivial)).1
  refine Along.iff_splits.mpr fun front x back same => ?_
  cases x with
  | change s t =>
    have follows (F : List Field) (s t : Scene κ) (alike : s.Alike F t) :
        s.document.size ≤ t.document.size ∧ (⊤ : Scene κ → Scene κ → Prop) s t := ⟨alike.document.size, trivial⟩
    exact ⟨Along.iff_splits.mp safe front _ back same, env.record_changes (Call.leads_of_alike follows)
      (fun r => (Act.Touches.request r).leads follows) (by rw [same]; simp)⟩
  | _ => trivial

/-- Between operations each component has a place of its own, knows its bindings and what they read, has its
sites at nodes of their own, and is ready and pushed if it is completed. -/
theorem Scene.founded_of_reachable {env : Environment κ σ} {w : World κ σ} (reached : env.Reachable w) :
    w.scene.Founded := by
  induction reached with
  | start config journal store => exact ⟨Scene.placed_ofConfig config journal, Scene.firm_ofConfig config journal⟩
  | keep store _ ih => exact ih
  | @request w w' r fuel a _ asked ih =>
    have fulfils := Environment.record_fulfils (p := ⟨[], w⟩) (Founding.meets env) fuel (.request r)
      (Script.wp_founding _ ih)
    have ended : (env.record fuel (.request r) w).result = some (a, w') := by rw [env.result_record, asked]
    exact (fulfils (env.record_founding ih.placed fuel _)).2 a w' ended

end LiveTree
