import LiveTree.Proofs.Deferral.Ledger
import LiveTree.Proofs.Placement

/-! What the acts do to the books on deferred callbacks. Hooks are called all over, but none of them
is the callback; only completion and the request that gives the callback have entries of their own. -/
namespace LiveTree.Deferring
open Act
variable {κ σ α : Type} [DecidableEq κ] {id : ComponentId} {k : κ} {p q : Point κ σ}

/-- Other callbacks, and the callback on behalf of other components. -/
theorem hooked (whose : ComponentId) (name : String) {l : κ} {other : ComponentId}
    (apart : ¬(l = k ∧ other = id)) :
    (guarded whose name l (.hook other)).Obeys (Deferring κ σ id k) := by
  have uncounted : (.callback l (.hook other) : Call κ) ≠ .callback k (.hook id) := by
    intro same
    cases same
    exact apart ⟨rfl, rfl⟩
  have called : (Act.callback l (.hook other)).Obeys (Deferring κ σ id k) := by
    intro p accounted
    refine ⟨⟨accounted, fun same => absurd same uncounted⟩, ?_⟩
    intro a q after
    exact takes_answer uncounted accounted after.1 after.2
  refine .bind called fun r => ?_
  split
  · exact .pure _
  · exact .of_touches watches (.noteFailure _ _ _) (by decide)

theorem runHook (other : ComponentId) (name : String) {pick : Hooks κ → Option κ}
    (listed : pick ∈ Hooks.fields) :
    (Act.runHook other name pick).Obeys (Deferring κ σ id k) := by
  refine .withComponent fun p c accounted found => ?_
  split
  · next l set =>
    refine hooked other name ?_ p accounted
    rintro ⟨rfl, -⟩
    exact accounted.spares.components other c found pick listed set
  · exact Obeys.pure _ p accounted

theorem enter (other : ComponentId) : (Act.enter other).Obeys (Deferring κ σ id k) := by
  refine Obeys.composes.enter (fun _ => ?_) (fun _ => ?_) (runHook other _ (by simp [Hooks.fields])) ?_
  · exact .of_touches watches (.setStage _ _) (by decide)
  · exact .of_touches watches (.tellParts _ _) (by decide)
  · exact .of_touches watches (.wire _) (by decide)

theorem instantiate (x : NodeId) {d : Definition κ} (spares : d.Spares k)
    (owner : Option ComponentId) :
    (Act.instantiate x d owner).Obeys (Deferring κ σ id k) := by
  have made : (Act.update fun s : Scene κ => { s with
      components := s.components.push (.new d x owner) }).Obeys (Deferring κ σ id k) := by
    refine .update fun p accounted => ?_
    have fresh (last : id.index = p.scene.components.size) : p.scene.component? id = none :=
      Scene.component?_eq_none last.ge
    refine takes_change accounted ⟨accounted.spares.types, ?_⟩ ?_ ?_
    · intro other c found
      rw [Scene.component?_push] at found
      split at found
      · cases found
        exact spares
      · exact accounted.spares.components other c found
    · unfold Scene.isCompleted
      rw [Scene.component?_push]
      split
      · next last => rw [fresh last]; rfl
      · rfl
    · unfold Scene.queued
      rw [Scene.component?_push]
      split
      · next last => rw [fresh last]; rfl
      · rfl
  refine .bind .scene fun s => .bind made fun _ => ?_
  refine .bind (.of_touches watches (.setStage _ _) (by decide)) fun _ => ?_
  refine .bind (.of_touches watches (.tellParts _ _) (by decide)) fun _ => ?_
  exact .bind (runHook _ _ (by simp [Hooks.fields])) fun _ => .pure _

theorem createElement (tag : String) : (Act.createElement tag).Obeys (Deferring κ σ id k) := by
  intro p accounted
  refine (wp_bind _ _).mpr (wp_scene.mpr ?_)
  dsimp -zeta only
  have edited (d : Document) : (Act.edit fun _ => d : Act κ Unit).Obeys (Deferring κ σ id k) :=
    .update fun p accounted => takes_change accounted ⟨accounted.spares.1, accounted.spares.2⟩ rfl rfl
  refine Obeys.bind (edited _) (fun _ => ?_) p accounted
  split
  · next d found =>
    exact .bind (instantiate _ (accounted.spares.types _ d found) _) fun _ => .pure _
  · exact .pure _

theorem edit (f : Document → Document) (reworks : ∀ d : Document, d.Reworks (f d)) :
    (Act.edit f : Act κ Unit).Obeys (Deferring κ σ id k) :=
  .of_touches watches (C := []) (.edit reworks (fun _ inside => inside)) (by decide)

theorem expand (other : ComponentId) (c : Component κ) (light : List NodeId) :
    (Act.expand other c light).Obeys (Deferring κ σ id k) := by
  have composes := Obeys.composes (G := Deferring κ σ id k)
  have owned (owner : Option ComponentId) : (Act.update fun s : Scene κ =>
      { s with templateOwner := owner }).Obeys (Deferring κ σ id k) :=
    .of_touches watches (F := [.templateOwner]) (C := [])
      (.update fun s => .put s .templateOwner owner (by decide)) (by decide)
  have text (text : String) : (Act.createText text).Obeys (Deferring κ σ id k) :=
    .of_touches watches (.createText text) (by decide)
  have noted (id' : ComponentId) (fault : Fault) :
      (Act.note (some id') fault).Obeys (Deferring κ σ id k) :=
    .of_touches watches (.note _ _) (by decide)
  have grown := composes.growBelow edit text createElement
  exact composes.expand edit noted (composes.growTemplate owned grown) other c light

theorem applyTemplate (other : ComponentId) :
    (Act.applyTemplate other).Obeys (Deferring κ σ id k) := by
  refine Obeys.composes.applyTemplate expand ?_ ?_ ?_ ?_ (fun _ => .ask watches _ nofun) other
  · exact fun _ _ => .of_touches watches (.layOut _ _) (by decide)
  · exact fun _ _ _ => .of_touches watches (.placeLight _ _ _) (by decide)
  · exact fun _ _ _ _ _ =>
      .of_touches watches (C := []) (.modify fun c => .applied c _ _ _ _) (by decide)
  · exact fun _ _ => .of_touches watches (.awaitNested _ _) (by decide)

theorem detach (other : ComponentId) : (Act.detach other).Obeys (Deferring κ σ id k) := by
  refine Obeys.composes.detach (fun _ => ?_) (fun _ => ?_) (runHook other _ (by simp [Hooks.fields]))
    ?_ ?_ fun _ => ?_
  · exact .of_touches watches (.setStage _ _) (by decide)
  · exact .of_touches watches (.tellParts _ _) (by decide)
  · exact .of_touches watches (.unwire _) (by decide)
  · exact .of_touches watches (F := [.pending]) (C := [])
      (.update fun s => .put s .pending _ (by decide)) (by decide)
  · exact .of_touches watches (.addStray _ _) (by decide)

theorem connect (other : ComponentId) : (Act.connect other).Obeys (Deferring κ σ id k) := by
  refine Obeys.composes.connect (fun ids => ?_) ?_ (applyTemplate other) ?_
  · exact .of_touches watches (F := [.pending]) (C := [])
      (.update fun s => .put s .pending (ids s) (by decide)) (by decide)
  · exact .of_touches watches (.configure _) (by decide)
  · exact Obeys.composes.attach (enter other) fun _ =>
      .of_touches watches (.modifyStrays _ _) (by decide)

variable (id k) in
/-- A run of the callback settles one of the invocations that are due. -/
theorem wp_invoke (accounted : Accounted id k p) (completed : p.scene.isCompleted id = true) :
    (guarded id "when_ready" k (.hook id)).wp (Deferring κ σ id k).contract
      (fun _ q => Accounted id k q ∧ Owing id k (-1) p q) p := by
  have called : (Act.callback k (.hook id)).wp (Deferring κ σ id k).contract
      (fun _ q => Accounted id k q ∧ Owing id k (-1) p q) p := by
    refine ⟨⟨accounted, fun _ => completed⟩, ?_⟩
    rintro a q ⟨later, owing⟩
    have finished := owing.completed completed
    have done : (q.answered (.callback k (.hook id)) p.world a).past.invoked id k =
        q.past.invoked id k + 1 := by
      rw [Point.answered, History.invoked_append, Step.invokes]
      simp
    have given : (q.answered (.callback k (.hook id)) p.world a).past.entrusted id k =
        q.past.entrusted id k := History.entrusted_append id k q.past _
    have rest : Accounted id k (q.answered (.callback k (.hook id)) p.world a) := by
      refine ⟨later.spares, fun before => ?_, fun _ => finished⟩
      exact absurd finished (Bool.eq_false_iff.mp before)
    refine ⟨⟨fun _ => completed, fun before => ?_⟩, fun _ => ⟨rest, ?_⟩⟩
    · exact absurd completed (Bool.eq_false_iff.mp before)
    · refine ⟨?_, owing.cleared, owing.completed⟩
      have due := owing.due
      rw [Point.due] at due
      rw [Point.due, done, given, Point.scene_answered]
      omega
  refine (wp_bind _ _).mpr (wp_mono _ ?_ called)
  rintro r q ⟨later, owing⟩
  have noted (failure : Failure) : (noteFailure (κ := κ) id "when_ready" failure).Obeys
      (Deferring κ σ id k) := .of_touches watches (.noteFailure _ _ _) (by decide)
  cases r with
  | ok =>
    exact ⟨later, owing⟩
  | error failure =>
    refine wp_mono _ ?_ (noted failure q later)
    rintro _ t ⟨last, kept⟩
    exact ⟨last, owing.trans kept⟩

/-- Of the callbacks that were queued each is invoked as often as it was there. -/
theorem wp_invokeEach (callbacks : List κ) (accounted : Accounted id k p)
    (completed : p.scene.isCompleted id = true) :
    (each callbacks fun l => guarded id "when_ready" l (.hook id)).wp (Deferring κ σ id k).contract
      (fun _ q => Accounted id k q ∧ Owing id k (-(callbacks.count k : Int)) p q) p := by
  induction callbacks generalizing p with
  | nil => exact ⟨accounted, .refl id k p⟩
  | cons l rest ih =>
    refine (wp_actBind _ _).mpr ?_
    by_cases same : l = k
    · subst same
      refine wp_mono _ ?_ (wp_invoke id l accounted completed)
      rintro _ q ⟨later, owing⟩
      refine wp_mono _ ?_ (ih later (owing.completed completed))
      rintro _ r ⟨last, more⟩
      refine ⟨last, owing.trans more ?_⟩
      rw [List.count_cons_self]
      omega
    · refine wp_mono _ ?_ (hooked id "when_ready" (fun both => same both.1) p accounted)
      rintro _ q ⟨later, owing⟩
      refine wp_mono _ ?_ (ih later (owing.completed completed))
      rintro _ r ⟨last, more⟩
      refine ⟨last, owing.trans more ?_⟩
      rw [List.count_cons_of_ne same]
      omega

theorem takes_modify (accounted : Accounted id k p) {other : ComponentId} (apart : other ≠ id)
    {f : Component κ → Component κ} (definition : ∀ c, (f c).definition = c.definition) :
    (Deferring κ σ id k).Takes p.past (.change p.scene (p.scene.modify other f)) p
      (p.change (p.scene.modify other f)) := by
  have same : (p.scene.modify other f).component? id = p.scene.component? id := by
    rw [Scene.component?_modify, if_neg apart]
  refine takes_change accounted (accounted.spares.modify fun c found => ?_) ?_ ?_
  · rw [definition]
    exact accounted.spares.components other c found
  · rw [Scene.isCompleted, same, Scene.isCompleted]
  · rw [Scene.queued, same, Scene.queued]

theorem releaseWaiters (other : ComponentId) : (withComponent other () fun c => do
      modify other fun c => { c with waiters := [] }
      each c.waiters fun waiter => ask (.release waiter)).Obeys (Deferring κ σ id k) := by
  have touches : (withComponent other () fun c => do
      modify other fun c => { c with waiters := [] }
      each c.waiters fun waiter => ask (.release waiter) : Act κ Unit).Touches [.waiters] [.release] :=
    .withComponent fun _ => .bind (.modify fun c => .put c .waiters _ (by decide)) fun _ =>
      .each _ fun _ => .ask _ rfl
  exact .of_touches watches touches (by decide)

theorem tellWaiting {other : ComponentId} (apart : other ≠ id) :
    (Act.tellWaiting other).Obeys (Deferring κ σ id k) := by
  refine .bind (Obeys.composes.withComponent fun c => ?_) fun _ => releaseWaiters other
  refine .bind (.update fun p accounted => takes_modify accounted apart fun _ => rfl) fun _ => ?_
  exact Obeys.composes.each _ fun l => hooked other _ fun both => apart both.2

/-- What waits for a completed component is invoked, and nothing is left. -/
theorem wp_tellWaiting (accounted : Accounted id k p) (completed : p.scene.isCompleted id = true) :
    (Act.tellWaiting id).wp (Deferring κ σ id k).contract
      (fun _ q => (Accounted id k q ∧ Owing id k 0 p q) ∧ q.scene.Cleared id k) p := by
  refine (wp_bind _ _).mpr (wp_withComponent (fun c found => ?_) fun missing => ?_)
  swap
  · rw [Scene.isCompleted, missing] at completed
    cases completed
  refine (wp_modify_bind _ _ _).mpr ⟨trivial, fun _ => ?_⟩
  let emptied := p.scene.modify id fun c => { c with whenReady := [] }
  have alike : p.scene.Alike [.whenReady] emptied :=
    .modify p.scene id fun c => .put c .whenReady [] (by decide)
  have finished : emptied.isCompleted id = true := (alike.isCompleted (by decide) id).trans completed
  have empty : emptied.queued id k = 0 := by
    rw [Scene.queued, Scene.component?_modify, if_pos rfl, found]
    rfl
  have before : p.scene.queued id k = c.whenReady.count k := by
    rw [Scene.queued, found]
    rfl
  have opened : Owing id k (c.whenReady.count k) p (p.change emptied) := by
    refine ⟨?_, fun _ _ => empty, fun _ => finished⟩
    rw [due_change, before, empty]
    omega
  have next : Accounted id k (p.change emptied) :=
    ⟨alike.spares (by decide) accounted.spares,
      fun early => absurd finished (Bool.eq_false_iff.mp early), fun _ => finished⟩
  refine wp_mono _ ?_ (wp_invokeEach c.whenReady next finished)
  rintro _ q ⟨later, owing⟩
  have cleared : q.scene.Cleared id k := owing.cleared fun _ => empty
  refine wp_mono _ ?_ (releaseWaiters id q later)
  rintro _ r ⟨last, more⟩
  exact ⟨⟨last, (opened.trans owing (Int.add_right_neg _).symm).trans more⟩, more.cleared cleared⟩

/-- How completion ends: the mark is set first, so that callbacks given from then on do not wait. -/
theorem finish (other : ComponentId) : (do
      modify other fun c => { c with completed := true }
      Act.runHook other "completed" Hooks.completed
      Act.tellWaiting other : Act κ Unit).Obeys (Deferring κ σ id k) := by
  have hook : (Act.runHook other "completed" Hooks.completed).Obeys (Deferring κ σ id k) :=
    runHook other "completed" (by simp [Hooks.fields])
  by_cases apart : other ≠ id
  · refine .bind (.update fun p accounted => takes_modify accounted apart fun _ => rfl) fun _ => ?_
    exact .bind hook fun _ => tellWaiting apart
  rw [not_not.mp apart] at hook ⊢
  intro p accounted
  let marked := p.scene.modify id fun c => { c with completed := true }
  have alike : p.scene.Alike [.completed] marked :=
    .modify p.scene id fun c => .put c .completed true (by decide)
  have spares := alike.spares (by decide) accounted.spares
  cases there : p.scene.component? id with
  | none =>
    have missing : marked.component? id = none := by
      rw [Scene.component?_modify, there, Option.map_none, ite_self]
    have blank : marked.isCompleted id = p.scene.isCompleted id := by
      rw [Scene.isCompleted, missing, Scene.isCompleted, there]
    have taken := takes_change accounted spares blank (alike.queued (by decide) id)
    refine (wp_modify_bind _ _ _).mpr (taken.imp fun kept => ?_)
    refine (wp_bind _ _).mpr (wp_withComponent_none missing ((wp_bind _ _).mpr ?_))
    exact wp_withComponent_none missing (wp_withComponent_none missing kept)
  | some c =>
    have finished : marked.isCompleted id = true := by
      rw [Scene.isCompleted_mark, if_pos rfl, there]
      rfl
    have next : Accounted id k (p.change marked) :=
      ⟨spares, fun early => absurd finished (Bool.eq_false_iff.mp early), fun _ => finished⟩
    have due : (p.change marked).due id k = p.due id k := by
      rw [due_change, alike.queued (by decide) id]
      omega
    refine (wp_modify_bind _ _ _).mpr ⟨trivial, fun _ => ?_⟩
    refine (wp_bind _ _).mpr (wp_mono _ ?_ (hook _ next))
    rintro _ q ⟨later, owing⟩
    refine wp_mono _ ?_ (wp_tellWaiting later (owing.completed finished))
    rintro _ r ⟨⟨last, more⟩, cleared⟩
    have rest : Owing id k 0 (p.change marked) r := owing.trans more
    refine ⟨last, ?_, fun _ => cleared, fun _ => rest.completed finished⟩
    rw [rest.due, due]

theorem complete (other : ComponentId) : (Act.complete other).Obeys (Deferring κ σ id k) := by
  refine Obeys.composes.withComponent fun c => Obeys.composes.ite (.bind .scene fun s => ?_) (.pure _)
  refine .bind (.of_touches watches (.noteMissing _ _) (by decide)) fun _ => ?_
  refine .bind (.of_touches watches (.each _ fun o => .pushOwner o) (by decide)) fun _ => ?_
  refine .bind (.of_touches watches (.pushFirst _) (by decide)) fun _ => ?_
  refine .bind (.of_touches watches (.setStage _ _) (by decide)) fun _ => ?_
  refine .bind (.of_touches watches (.tellParts _ _) (by decide)) fun _ => ?_
  refine .bind (runHook other _ (by simp [Hooks.fields])) fun _ => ?_
  exact .bind (enter other) fun _ => finish other

theorem release (other : ComponentId) : (Act.release other).Obeys (Deferring κ σ id k) := by
  refine Obeys.composes.withComponent fun c => ?_
  refine .bind (.of_touches watches (touches_drop other) (by decide)) fun _ => ?_
  exact Obeys.composes.ite (complete other) (.pure _)

end LiveTree.Deferring
