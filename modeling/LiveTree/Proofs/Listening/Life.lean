import LiveTree.Proofs.Listening.Acts
import LiveTree.Proofs.Listening.Wiring

/-! What the acts that make, expand, complete and move components do to the books. -/
namespace LiveTree
variable {κ σ α : Type} {id whose : ComponentId}

namespace Act
variable {p : Point κ σ}

theorem wp_wireEach (whose : ComponentId) (wanted : List (NodeId × String × String)) :
    (wireEach whose wanted : Act κ _).wp (Keeping σ id) (fun ws q =>
      q.scene.components = p.scene.components ∧
      p.scene.Hears q.scene (ws.map (·.2.2)) (some (whose, .wiring)) ∧
      List.Forall₂ (fun w h => w.1 = h.1 ∧ w.2.1 = h.2.1 ∧
        q.scene.own? w.2.2 = some (.handler whose h.2.2)) ws wanted) p := by
  induction wanted generalizing p with
  | nil => exact ⟨rfl, .refl _ _, .nil⟩
  | cons h rest ih =>
    obtain ⟨x, event, method⟩ := h
    refine (wp_bind _ _).mpr (Keeping.takes ((wp_bind _ _).mpr (wp_mono _ ?_ ih)))
    rintro ws q ⟨components, hears, served⟩
    refine ⟨components, hears.cons rfl rfl, .cons ⟨rfl, rfl, ?_⟩ served⟩
    have inside : p.scene.listeners.size < (p.scene.listeners.push _).size :=
      Nat.lt_of_lt_of_eq (Nat.lt_succ_self _) (Arena.size_push _ (some (.handler whose method))).symm
    refine (hears.old ⟨p.scene.listeners.size⟩ inside).trans ?_
    exact (Scene.own?_push (s := p.scene) (k := .handler whose method) rfl _).trans (if_pos rfl)

/-- A component that is attached listens exactly once it is wired, whether it was before or not. -/
theorem wp_wire (kept : p.scene.Kept id) (attached : whose = id → p.scene.stage? id = some .attached) :
    (wire whose : Act κ _).wp (Keeping σ id) (fun _ q =>
      q.scene.Kept id ∧ p.scene.Sets whose id q.scene) p := by
  refine wp_withComponent (fun c found => ?_) fun missing => ?_
  swap
  · refine ⟨kept, Std.Refl.refl _, fun _ => Std.Refl.refl _, ?_⟩
    rintro rfl
    rw [Scene.stage?, missing] at attached
    cases attached rfl
  have own (same : whose = id) : c.stage = .attached := by
    have here := attached same
    rw [Scene.stage?, ← same, found] at here
    exact Option.some.inj here
  refine (wp_ite _ _ _).mpr ?_
  split
  · next empty =>
    have free : c.wired = [] := List.isEmpty_iff.mp empty
    refine (wp_bind _ _).mpr (wp_mono _ ?_ (wp_wireEach whose (subscriptionsOf c)))
    rintro ws q ⟨components, hears, served⟩
    refine Keeping.takes ?_
    refine kept.wire found own free ?_ (hears.congr rfl) served
    exact congrArg (Arena.modify · whose.index fun c => { c with wired := ws }) components
  · next full =>
    refine ⟨kept, Std.Refl.refl _, fun _ => Std.Refl.refl _, ?_⟩
    rintro rfl o there
    cases (congrArg (Option.map Component.outlet) found).symm.trans there
    refine (if_pos (own rfl)).mpr ((kept.wired _ there).resolve_left fun empty => full ?_)
    exact List.isEmpty_iff.mpr empty

/-- Without its listeners a component may be detached. -/
theorem wp_unwire (kept : p.scene.Kept id) {c : Component κ}
    (found : p.scene.component? whose = some c) : (do
      unwire whose
      setStage whose .detached : Act κ Unit).wp (Keeping σ id) (fun _ q =>
        q.scene.Kept id ∧ p.scene.Sets whose id q.scene) p := by
  refine (wp_bind _ _).mpr (wp_withComponent (fun d there => ?_) fun missing => ?_)
  swap
  · cases missing.symm.trans found
  cases found.symm.trans there
  refine (wp_modify_bind _ _ _).mpr (Keeping.takes (wp_mono _ ?_ (wp_unlistenAll c.wired)))
  rintro _ q ⟨components, size, own⟩
  obtain ⟨next, apart⟩ := kept.unwire found components size own
  refine Keeping.takes ?_
  by_cases same : whose = id
  · subst same
    have now : q.scene.component? whose = some { c with wired := [] } :=
      ((Scene.Replaces.modify found (fun c => { c with wired := [] }) components).component _).trans
        (if_pos rfl)
    obtain ⟨left, lasts, outlet⟩ := next.setStage now .detached Bool.noConfusion
    refine ⟨left, fun x _ => lasts _ (congrArg (Option.map Component.stage) now), ?_, fun _ => ?_⟩
    · exact fun other => absurd rfl other
    · intro o there
      cases outlet.symm.trans there
      exact (if_neg Stage.noConfusion).mpr rfl
  · obtain ⟨left, since⟩ := next.setStage_apart same .detached
    exact ⟨left, .of_apart same (IsTrans.trans _ _ _ (apart same) since)⟩

namespace Tends

theorem detach (whose : ComponentId) : (Act.detach whose : Act κ _).Tends id (Scene.Maintains id) := by
  intro σ p kept
  refine wp_withComponent (fun c found => ?_) fun _ => ⟨kept, Std.Refl.refl _⟩
  extract_lets left
  have later (r) : (left r).Tends id (Scene.Since id) := by
    refine bind (of_touches (C := []) (.update fun s => .put (F := [.pending]) s .pending _ (by decide))
      (by decide)) fun _ => composes.sceneBind fun s => ?_
    split
    · exact composes.ite (of_touches (.addStray _ _) (by decide)) (pure _)
    · exact pure _
  refine (wp_ite _ _ _).mpr ?_
  split
  · have rest : (do
        tellParts whose .detached
        runHook whose "detached" Hooks.detached
        left () : Act κ Unit).Tends id (Scene.Since id) :=
      bind (of_touches (.tellParts _ _) (by decide)) fun _ =>
        bind (of_touches (.runHook _ _ _) (by decide)) later
    have gone := (wp_bind _ _).mp (wp_unwire (σ := σ) kept found)
    refine (wp_bind _ _).mpr (wp_mono _ (fun _ q staged => ?_) gone)
    refine (wp_bind _ _).mpr (wp_mono _ (fun _ r ended => ?_) staged)
    exact rest.maintains.after ended.1 ended.2.maintains
  · exact (later ()).maintains σ p kept

end Tends

/-- A component that is there listens exactly once it has entered. -/
theorem wp_enter (kept : p.scene.Kept id) (here : whose = id → (p.scene.stage? id).isSome = true) :
    (enter whose : Act κ _).wp (Keeping σ id) (fun _ q =>
      q.scene.Kept id ∧ p.scene.Sets whose id q.scene) p := by
  -- The hooks run while the component is attached but not wired, and none of them detaches it.
  have wiring {q : Point κ σ} (next : q.scene.Kept id) (lasts : p.scene.Lasts id q.scene)
      (apart : whose ≠ id → p.scene.Since id q.scene)
      (attached : whose = id → q.scene.stage? id = some .attached) : (do
        tellParts whose .attached
        runHook whose "attached" Hooks.attached
        wire whose : Act κ Unit).wp (Keeping σ id) (fun _ r =>
          r.scene.Kept id ∧ p.scene.Sets whose id r.scene) q := by
    refine Tends.wp_then (.of_touches (.tellParts _ _) (by decide)) next (Std.Refl.refl _) ?_
    intro _ r told step
    refine Tends.wp_then (.of_touches (.runHook _ _ _) (by decide)) told step fun _ r here since => ?_
    have still (same : whose = id) : r.scene.stage? id = some .attached :=
      since.stays _ (by decide) (attached same)
    refine wp_mono _ ?_ (wp_wire here still)
    rintro _ t ⟨ended, sets⟩
    refine ⟨ended, ?_, fun other => ?_, sets.exact⟩
    · exact IsTrans.trans _ _ _ lasts (IsTrans.trans _ _ _ since.lasts sets.lasts)
    · exact IsTrans.trans _ _ _ (apart other) (IsTrans.trans _ _ _ since (sets.apart other))
  refine (wp_bind _ _).mpr (Keeping.takes ?_)
  by_cases same : whose = id
  · subst same
    obtain ⟨x, staged⟩ := Option.isSome_iff_exists.mp (here rfl)
    obtain ⟨c, found, -⟩ := Option.map_eq_some_iff.mp staged
    obtain ⟨next, lasts, outlet⟩ := kept.setStage found .attached Bool.noConfusion
    refine wiring (q := p.change _) next lasts (fun other => absurd rfl other) fun _ => ?_
    exact (Scene.stage?_eq _ _).trans (congrArg (Option.map Outlet.stage) outlet)
  · obtain ⟨next, since⟩ := kept.setStage_apart same .attached
    exact wiring (q := p.change _) next since.lasts (fun _ => since) fun equal => absurd equal same

namespace Tends

theorem wp_attach (kept : p.scene.Kept id) : (attach whose : Act κ _).wp (Keeping σ id) (fun _ q =>
    q.scene.Kept id ∧ p.scene.Sets whose id q.scene) p := by
  refine wp_withComponent (fun c found => ?_) fun missing => ⟨kept, Std.Refl.refl _, ?_, ?_⟩
  · have there (same : whose = id) : (p.scene.stage? id).isSome = true := by
      rw [Scene.stage?, ← same, found]
      rfl
    refine (wp_bind _ _).mpr (wp_mono _ ?_ (wp_enter kept there))
    rintro _ q ⟨next, sets⟩
    refine wp_mono (Q := fun _ r => r.scene.Kept id ∧ q.scene.Since id r.scene) _
      (fun _ _ ended => ⟨ended.1, sets.next ended.2⟩) ?_
    refine (composes (R := Scene.Since id)).sceneBind (fun s => ?_) σ q next
    split
    · exact composes.ite (of_touches (.modifyStrays _ _) (by decide)) (pure _)
    · exact pure _
  · exact fun _ => Std.Refl.refl _
  · rintro rfl o there
    rw [Scene.outlet?, missing] at there
    cases there

theorem pushOwner (whose : ComponentId) : (Act.pushOwner whose : Act κ _).Tends id (Scene.Since id) :=
  composes.withComponent fun _ => composes.ite (pushFirst _) (pure _)

theorem complete (whose : ComponentId) : (Act.complete whose : Act κ _).Tends id (Scene.Since id) := by
  intro σ p kept
  refine wp_withComponent (fun c found => ?_) fun _ => ⟨kept, Std.Refl.refl _⟩
  refine (wp_ite _ _ _).mpr ?_
  split
  swap
  · exact ⟨kept, Std.Refl.refl _⟩
  next due =>
  have expanded : c.stage = .expanded := by
    simp only [Bool.and_eq_true, beq_iff_eq] at due
    exact due.2
  have was (same : whose = id) : p.scene.stage? id = some .expanded := by
    rw [Scene.stage?, ← same, found, Option.map_some, expanded]
  refine wp_then (R := Scene.Since id) scene kept (Std.Refl.refl _) fun s q next step => ?_
  refine wp_then (of_touches (.noteMissing _ _) (by decide)) next step fun _ q next step => ?_
  refine wp_then (composes.each _ pushOwner) next step fun _ q next step => ?_
  refine wp_then (pushFirst _) next step fun _ q next step => ?_
  refine (wp_bind _ _).mpr (Keeping.takes ?_)
  obtain ⟨next, lasts, apart⟩ : (q.change (q.scene.modify whose fun c => { c with stage := .ready })).scene.Kept
      id ∧ p.scene.Lasts id (q.scene.modify whose fun c => { c with stage := .ready }) ∧
      (whose ≠ id → p.scene.Since id (q.scene.modify whose fun c => { c with stage := .ready })) := by
    by_cases same : whose = id
    · subst same
      obtain ⟨x, staged⟩ := step.lasts _ (was rfl)
      obtain ⟨d, there, -⟩ := Option.map_eq_some_iff.mp staged
      obtain ⟨next, lasts, -⟩ := next.setStage there .ready Bool.noConfusion
      exact ⟨next, IsTrans.trans _ _ _ step.lasts lasts, fun other => absurd rfl other⟩
    · obtain ⟨next, since⟩ := next.setStage_apart same .ready
      have since := IsTrans.trans _ _ _ step since
      exact ⟨next, since.lasts, fun _ => since⟩
  refine wp_then (of_touches (.tellParts _ _) (by decide)) next (Std.Refl.refl _) fun _ r next step => ?_
  refine wp_then (of_touches (.runHook _ _ _) (by decide)) next step fun _ r next step => ?_
  have there (same : whose = id) : (r.scene.stage? id).isSome = true := by
    obtain ⟨x, staged⟩ := IsTrans.trans _ _ _ lasts step.lasts _ (was same)
    rw [staged]
    rfl
  refine (wp_bind _ _).mpr (wp_mono _ ?_ (wp_enter next there))
  rintro _ t ⟨next, sets⟩
  have whole : p.scene.Sets whose id t.scene := by
    refine ⟨?_, fun other => ?_, sets.exact⟩
    · exact IsTrans.trans _ _ _ (IsTrans.trans _ _ _ lasts step.lasts) sets.lasts
    · exact IsTrans.trans _ _ _ (IsTrans.trans _ _ _ (apart other) step) (sets.apart other)
  have marked : (Act.modify whose fun c : Component κ => { c with completed := true }).Touches
      [.completed] [] := .modify fun c => .put c .completed _ (by decide)
  refine wp_then (of_touches marked (by decide)) next (Std.Refl.refl _) fun _ u next step => ?_
  refine wp_then (of_touches (.runHook _ _ _) (by decide)) next step fun _ u next step => ?_
  refine wp_mono _ ?_ (after (of_touches (.tellWaiting _) (by decide)) next step)
  rintro _ v ⟨ended, since⟩
  exact ⟨ended, (whole.next since).since was (by decide)⟩

theorem release (whose : ComponentId) : (Act.release whose : Act κ _).Tends id (Scene.Since id) := by
  have dropped : (Act.modify whose fun c : Component κ => { c with barrier := c.barrier.drop }).Touches
      [.barrier] [] := .modify fun c => .put c .barrier _ (by decide)
  exact composes.withComponent fun c => bind (of_touches dropped (by decide)) fun _ =>
    composes.ite (complete _) (pure _)

theorem instantiate (x : NodeId) (d : Definition κ) (owner : Option ComponentId) :
    (Act.instantiate x d owner).Tends id (Scene.Since id) := by
  intro σ p kept
  refine (wp_bind _ _).mpr (wp_scene.mpr ?_)
  extract_lets new
  refine (wp_bind _ _).mpr (Keeping.takes ?_)
  refine (wp_bind _ _).mpr (Keeping.takes ?_)
  have component (other : ComponentId) : (({ p.scene with
      components := p.scene.components.push (.new d x owner) } : Scene κ).modify new
      fun c => { c with stage := .created }).component? other =
        if other.index = p.scene.components.size then
          some { Component.new d x owner with stage := .created }
        else p.scene.component? other := by
    rw [Scene.component?_modify, Scene.component?, Arena.get?_push]
    obtain ⟨i⟩ := other
    by_cases here : i = p.scene.components.size
    · rw [if_pos (congrArg ComponentId.mk here.symm), if_pos here, if_pos here]
      rfl
    · have apart : new ≠ ⟨i⟩ := fun same => here (congrArg ComponentId.index same).symm
      rw [if_neg apart, if_neg here, if_neg here]
      rfl
  obtain ⟨next, since⟩ := kept.join component rfl
  refine after ?_ next since
  exact bind (of_touches (.tellParts _ _) (by decide)) fun _ =>
    bind (of_touches (.runHook _ _ _) (by decide)) fun _ => pure _

theorem edit (f : Document → Document) : (Act.edit f : Act κ Unit).Tends id (Scene.Since id) :=
  .update fun _ kept => kept.edit f

theorem createElement (tag : String) : (Act.createElement tag : Act κ _).Tends id (Scene.Since id) :=
  composes.createElement (fun _ => edit _) instantiate tag

theorem expand (whose : ComponentId) (c : Component κ) (light : List NodeId) :
    (Act.expand whose c light).Tends id (Scene.Since id) := by
  have owned (owner : Option ComponentId) : (Act.update fun s : Scene κ =>
      { s with templateOwner := owner }).Tends id (Scene.Since id) :=
    of_touches (F := [.templateOwner]) (C := []) (.update fun s => .put s .templateOwner owner (by decide))
      (by decide)
  have text (text : String) : (Act.createText text : Act κ _).Tends id (Scene.Since id) :=
    of_touches (.createText text) (by decide)
  have grown := composes.growBelow (fun f _ => edit f) text createElement
  exact composes.expand (fun f _ => edit f) (fun _ _ => of_touches (.note _ _) (by decide))
    (composes.growTemplate owned grown) whose c light

end Tends

theorem wp_layOut (kept : p.scene.Kept id) (x : NodeId) (template : List NodeId) :
    (layOut x template : Act κ _).wp (Keeping σ id) (fun laid q =>
      q.scene.Kept id ∧ p.scene.Since id q.scene ∧ ∃ s, laid.2 = .ofTemplate s x template) p := by
  refine (wp_bind _ _).mpr (wp_scene.mpr ?_)
  obtain ⟨layout, d⟩ := Layout.ofTemplate p.scene.document p.scene.config.stableId x template
  refine (wp_bind _ _).mpr (Keeping.takes ?_)
  obtain ⟨next, since⟩ := kept.edit fun _ => d
  exact ⟨next, since, _, rfl⟩

namespace Tends

theorem applyTemplate (whose : ComponentId) {p : Point κ σ} (kept : p.scene.Kept id) :
    (Act.applyTemplate whose : Act κ _).wp (Keeping σ id) (fun _ q =>
      q.scene.Kept id ∧ p.scene.Maintains id q.scene ∧ (whose ≠ id → p.scene.Since id q.scene)) p := by
  refine wp_withComponent (fun c found => ?_) fun _ => ⟨kept, Std.Refl.refl _, fun _ => Std.Refl.refl _⟩
  refine (wp_ite _ _ _).mpr ?_
  split
  swap
  · exact ⟨kept, Std.Refl.refl _, fun _ => Std.Refl.refl _⟩
  next configured =>
  have was (same : whose = id) : p.scene.stage? id = some .configured := by
    rw [Scene.stage?, ← same, found, Option.map_some, configured]
  refine wp_then (R := Scene.Since id) scene kept (Std.Refl.refl _) fun s q next step => ?_
  refine wp_then (expand _ _ _) next step fun template q next step => ?_
  refine (wp_bind _ _).mpr (wp_mono _ ?_ (wp_layOut next _ _))
  rintro ⟨layout, tree⟩ q' ⟨next', step', surroundings, made⟩
  have since := IsTrans.trans _ _ _ step step'
  dsimp -zeta only
  extract_lets placed
  have later (text : String) {r : Point κ σ} (next : r.scene.Kept id)
      (since : p.scene.Since id r.scene) : (placed text).wp (Keeping σ id) (fun _ q =>
        q.scene.Kept id ∧ p.scene.Maintains id q.scene ∧ (whose ≠ id → p.scene.Since id q.scene)) r := by
    refine (wp_modify_bind _ _ _).mpr (Keeping.takes ?_)
    have fresh : tree.Fresh := by
      dsimp only at made
      rw [made]
      exact fun _ _ _ held => BindingTree.coherent_ofTemplate _ _ _ held
    obtain ⟨next, sets⟩ := next.expand whose fresh (f := fun c => { c with
      stage := .expanded
      bindings := some tree
      boundProperties := tree.dependencies
      refs := layout.refs
      content := some layout.content
      lightText := text
      barrier := c.barrier.hold }) (fun _ => ⟨rfl, rfl, rfl, rfl, rfl⟩) fun same =>
        since.stays _ (by decide) (was same)
    have rest : (do
        awaitNested whose c.node
        Act.ask (.release whose) : Act κ Unit).Tends id (Scene.Since id) :=
      bind (of_touches (.awaitNested _ _) (by decide)) fun _ => ask _
    refine wp_mono _ ?_ (rest σ _ next)
    rintro _ q ⟨ended, step⟩
    have whole := sets.next step
    exact ⟨ended, IsTrans.trans _ _ _ since.toMaintains whole.maintains,
      fun other => IsTrans.trans _ _ _ since (whole.apart other)⟩
  refine (wp_ite _ _ _).mpr ?_
  split
  · exact wp_then (of_touches (.placeLight _ _ _) (by decide)) next' since fun text _ => later text
  · exact later "" next' since

/-- Only a component that is created is configured. -/
theorem setConfigured (whose : ComponentId) :
    (Act.setStage whose .configured : Act κ _).Tends id (Scene.Since id) := by
  intro σ p kept
  refine ⟨trivial, fun regular => ?_⟩
  by_cases same : whose = id
  swap
  · exact kept.setStage_apart same .configured
  subst same
  cases found : p.scene.component? whose with
  | none =>
    exact kept.missing found _
  | some c =>
    have now : (p.scene.modify whose fun c => { c with stage := .configured }).stage? whose =
        some .configured := by
      rw [Scene.stage?, Scene.component?_modify, if_pos rfl, found]
      rfl
    have was : c.stage = .created ∨ c.stage = .configured := by
      have before := regular.1 now
      rw [Scene.stage?, found] at before
      exact before.imp Option.some.inj Option.some.inj
    have early : c.stage.isEarly = true := by rcases was with here | here <;> rw [here] <;> rfl
    obtain ⟨next, lasts, outlet⟩ := kept.setStage found .configured fun _ => early
    refine ⟨next, ⟨lasts, fun _ o there => ?_⟩, fun x among here => ?_⟩
    · cases outlet.symm.trans there
      exact (if_neg Stage.noConfusion).mpr
        (kept.early c.outlet (congrArg (Option.map Component.outlet) found) early).2
    · rw [Scene.stage?, found] at here
      cases here
      rcases was with created | configured
      · rw [created] at among
        exact absurd among (by decide)
      · rw [configured]
        exact now

theorem configure (whose : ComponentId) : (Act.configure whose : Act κ _).Tends id (Scene.Since id) := by
  refine composes.withComponent fun c => composes.ite (composes.sceneBind fun s => ?_) (pure _)
  refine bind (composes.each _ fun _ => of_touches (.configureAttribute _ _ _ _) (by decide)) fun _ => ?_
  refine bind (setConfigured _) fun _ => ?_
  exact bind (composes.each _ fun _ => of_touches (.reflectDefault _ _ _) (by decide)) fun _ =>
    resolveContext _

theorem connect (whose : ComponentId) : (Act.connect whose : Act κ _).Tends id (Scene.Since id) := by
  intro σ p kept
  refine wp_withComponent (fun c found => ?_) fun _ => ⟨kept, Std.Refl.refl _⟩
  have was (same : whose = id) : p.scene.stage? id = some c.stage := by
    rw [Scene.stage?, ← same, found, Option.map_some]
  split
  · next created =>
    refine wp_then (R := Scene.Since id) scene kept (Std.Refl.refl _) fun s q next step => ?_
    refine (wp_ite _ _ _).mpr ?_
    split
    · have queued (ids : Scene κ → List ComponentId) :
          (Act.update fun s : Scene κ => { s with pending := ids s }).Touches [.pending] [] :=
        .update fun s => .put s .pending (ids s) (by decide)
      exact after (of_touches (queued _) (by decide)) next step
    · refine wp_then (configure _) next step fun _ q next step => ?_
      refine wp_mono _ ?_ (applyTemplate whose next)
      rintro _ r ⟨ended, maintains, apart⟩
      refine ⟨ended, ?_⟩
      by_cases same : whose = id
      · refine ⟨IsTrans.trans _ _ _ step.toMaintains maintains, fun x among here => ?_⟩
        cases (was same).symm.trans here
        rw [created] at among
        exact absurd among (by decide)
      · exact IsTrans.trans _ _ _ step (apart same)
  · next detached =>
    refine wp_mono _ ?_ (wp_attach kept)
    rintro _ q ⟨next, sets⟩
    refine ⟨next, sets.since was ?_⟩
    rw [detached]
    decide
  · exact ⟨kept, Std.Refl.refl _⟩

theorem appendChild (parent child : NodeId) :
    (Act.appendChild parent child : Act κ _).Tends id (Scene.Maintains id) :=
  composes.appendChild detach (fun _ => (connect _).maintains) parent child (edit _).maintains

theorem removeChild (parent child : NodeId) :
    (Act.removeChild parent child : Act κ _).Tends id (Scene.Maintains id) :=
  composes.removeChild detach (fun _ => (edit _).maintains) parent child

theorem finishLoading : (Act.finishLoading : Act κ _).Tends id (Scene.Since id) := by
  have loaded : (Act.update fun s : Scene κ => { s with loading := false, pending := [] }).Touches
      [.loading, .pending] [] := .update fun s =>
    (Scene.Alike.put s .loading false (by decide)).trans (.put _ .pending [] (by decide))
  exact composes.finishLoading connect (of_touches loaded (by decide)) resolveWaiting

theorem register (d : Definition κ) : (Act.register d).Tends id (Scene.Since id) := by
  have define (e : Definition κ) : (Act.update fun s : Scene κ => { s with
      definitions := s.definitions.insert e.tag e
      waiting := s.waiting.erase e.tag }).Touches [.definitions, .waiting] [] := .update fun s =>
    ((Scene.Alike.define s _ _).mono (by decide)).trans (.put _ .waiting _ (by decide))
  exact composes.register connect d (fun _ => of_touches (.note _ _) (by decide))
    (fun _ => of_touches (define _) (by decide)) (fun k => of_touches (.registered k) (by decide))
    fun x _ owner => instantiate x _ owner

/-- A component may take part in a larger type of the same subscriptions. -/
theorem adopt (whose : ComponentId) (d : Definition κ) (c : Capability κ) :
    (Act.modify whose fun i : Component κ => i.adopt d c).Tends id (Scene.Since id) := by
  intro σ p kept
  refine ⟨trivial, fun regular => ?_⟩
  refine kept.modify whose (fun i e => ?_) (fun _ _ listed => .inl listed)
    (fun _ _ coherent => ⟨coherent.1, coherent.2⟩) fun same i found => ?_
  · cases e <;> rfl
  · subst same
    have subscriptions := regular.2 i.definition.subscriptions (by rw [Scene.subscriptions?, found]; rfl)
    rw [Scene.subscriptions?, Scene.component?_modify, if_pos rfl, found] at subscriptions
    have same : d.subscriptions = i.definition.subscriptions := Option.some.inj subscriptions
    have wanted : subscriptionsOf (i.adopt d c) = subscriptionsOf i := by
      rw [subscriptionsOf_eq, subscriptionsOf_eq]
      exact congrArg (fun ls => List.filterMap _ ls ++ _) same
    rw [Component.outlet, wanted, Component.outlet]
    rfl

theorem addCapability (tag : String) (c : Capability κ) :
    (Act.addCapability tag c).Tends id (Scene.Since id) := by
  refine composes.sceneBind fun s => ?_
  split
  · exact pure _
  · next d _ =>
    have define : (Act.update fun s : Scene κ => { s with
        definitions := s.definitions.insert d.tag d }).Touches [.definitions] [] := .update fun s =>
      .define s _ _
    exact bind (of_touches define (by decide)) fun _ =>
      bind (composes.each _ fun _ => adopt _ _ _) fun _ => pure _

end Tends
end Act
end LiveTree
