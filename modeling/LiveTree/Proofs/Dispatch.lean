import LiveTree.Proofs.Dispatch.Journey

/-! What an event comes to. Which listeners hear an event is settled at each node when the event
reaches it, but for those that are removed before their turn, and none hears it twice, whatever the
listeners add, remove, write and dispatch meanwhile. -/
namespace LiveTree
variable {κ σ α : Type}

/-! Removal of listeners. A listener that is there when its removal is asked for is gone when the
request is answered, and since it never comes back only one such request is answered with yes. -/

def Step.Removes (l : ListenerId) : Step κ σ → Prop
  | .request (.unlisten _ _ k) s => k = l ∧ (s.listener? l).isSome = true
  | _ => False

def Step.Unlistens (env : Environment κ σ) (l : ListenerId) : Step κ σ → Prop
  | .request (.unlisten x event k) s => k = l ∧ ∃ fuel store w,
      env.play fuel (.request (.unlisten x event k)) ⟨s, store⟩ = some (true, w)
  | _ => False

theorem Step.Unlistens.removes {env : Environment κ σ} {l : ListenerId} {x : Step κ σ}
    (unlistens : x.Unlistens env l) : x.Removes l := by
  cases x with
  | request r s =>
    cases r with
    | unlisten x event k =>
      obtain ⟨rfl, fuel, store, w, played⟩ := unlistens
      exact ⟨rfl, congrArg Prod.fst (Option.some.inj played)⟩
    | _ => exact unlistens.elim
  | change s t => exact unlistens.elim
  | answer c before a after => exact unlistens.elim

def Removed (l : ListenerId) (p : Point κ σ) : Prop :=
  ∀ x ∈ p.past, x.Removes l → p.scene.listeners.get? l.index = some none

def Removing (κ σ : Type) (l : ListenerId) : Contract κ σ :=
  Preserving (fun _ _ => True) (fun past x => x.Removes l → ∀ y ∈ past, ¬y.Removes l) (Removed l)

namespace Removing
variable {l : ListenerId} {p q : Point κ σ}

/-- After a step that removes nothing what was gone is still gone. -/
theorem removed_snoc (removed : Removed l p) {x : Step κ σ} {w : World κ σ} (still : ¬x.Removes l)
    (enrols : p.scene.Enrols w.scene) : Removed l ⟨p.past ++ [x], w⟩ := by
  intro y step asked
  rcases List.mem_append.mp step with before | last
  · exact enrols.gone (removed y before asked)
  · rw [List.mem_singleton.mp last] at asked
    exact absurd asked still

theorem change (F : List Field) (p : Point κ σ) (t : Scene κ) (removed : Removed l p)
    (alike : p.scene.Alike F t) :
    (Removing κ σ l).Takes p.past (.change p.scene t) (Removed l (p.change t)) :=
  ⟨False.elim, fun _ => removed_snoc removed not_false alike.enrols⟩

theorem answer (c : Call κ) (p : Point κ σ) (a : c.Answer) (q : Point κ σ) (_ : Removed l p)
    (removed : Removed l q) : (Removing κ σ l).Takes q.past (.answer c p.world a q.world)
      (Removed l (q.answered c p.world a)) :=
  ⟨False.elim, fun _ => removed_snoc removed not_false (.refl _)⟩

/-- The removal itself: the gap is there before anything else is done. -/
theorem wp_unlisten (x : NodeId) (event : String) (p : Point κ σ)
    (there : (p.scene.listener? l).isSome = true) :
    (Act.unlisten x event l).wp (Removing κ σ l) (fun _ q => Removed l q) p := by
  refine ⟨False.elim, fun _ y step asked => ?_⟩
  obtain ⟨k, held⟩ := Option.isSome_iff_exists.mp there
  change (p.scene.listeners.modify l.index fun _ => none).get? l.index = some none
  rw [Arena.get?_modify, if_pos rfl, Option.join_eq_some_iff.mp held]
  rfl

theorem request (r : Request κ) (p : Point κ σ) (removed : Removed l p) :
    (Removing κ σ l).Takes p.past (.request r p.scene)
      (r.act.wp (Removing κ σ l) (fun _ q => Removed l q) (p.request r)) := by
  constructor
  · intro asked y step before
    cases r with
    | unlisten x event k =>
      have gone : p.scene.listener? l = none := by
        rw [Scene.listener?, removed y step before]
        rfl
      exact absurd asked.2 (by simp [gone])
    | _ => exact asked
  · intro _
    by_cases asked : (Step.request r p.scene : Step κ σ).Removes l
    · cases r with
      | unlisten x event k =>
        obtain ⟨rfl, there⟩ := asked
        exact wp_unlisten x event _ there
      | _ => exact asked.elim
    · exact Preserving.wp_act change answer (.request r) (removed_snoc removed asked (.refl _))

end Removing

/-- Of the requests for the removal of a listener one at most is answered with yes. -/
theorem unlistens_once (env : Environment κ σ) (fuel : Nat) (m : Script κ σ α) (w : World κ σ)
    (l : ListenerId) : (env.record fuel m w).steps.Pairwise fun x y =>
      ¬(x.Unlistens env l ∧ y.Unlistens env l) := by
  have start : Removed l (⟨[], w⟩ : Point κ σ) := fun _ step => absurd step List.not_mem_nil
  have kept := Preserving.record_fulfils (Removing.change (l := l)) Removing.answer
    (fun _ _ removed => removed) Removing.request env fuel m start
  have safe := (kept (Along.iff_splits.mpr fun _ _ _ _ => trivial)).1
  have along : Along (fun past x => ∀ y ∈ past, ¬(y.Unlistens env l ∧ x.Unlistens env l)) []
      (env.record fuel m w).steps := by
    refine Along.iff_splits.mpr fun front x back same y before both => ?_
    exact Along.iff_splits.mp safe front x back same both.2.removes y before both.1.removes
  exact along.pairwise

instance : IsPreorder (Scene κ) Scene.Enrols where
  refl := .refl
  trans _ _ _ := .trans

namespace Scene

def Rests (n : Nat) (s t : Scene κ) : Prop :=
  ∀ i < n, t.document.parent? ⟨i⟩ = s.document.parent? ⟨i⟩

instance (n : Nat) (s t : Scene κ) : Decidable (Rests n s t) :=
  Nat.decidableBallLT n fun i _ => t.document.parent? ⟨i⟩ = s.document.parent? ⟨i⟩

instance (n : Nat) : IsPreorder (Scene κ) (Rests n) where
  refl _ _ _ := rfl
  trans _ _ _ first second i inside := (second i inside).trans (first i inside)

def Adds (s t : Scene κ) (l : ListenerId) : Prop :=
  s.listeners.get? l.index = none ∧ (t.listeners.get? l.index).isSome

end Scene

namespace Environment.Round
variable {env : Environment κ σ} {e : Event} {ids : List ListenerId} {w v : World κ σ}
  {turns : List (Turn κ σ)}

theorem ids_eq (round : env.Round e ids w turns v) : turns.map Turn.id = ids := by
  induction round with
  | done => rfl
  | heard _ _ _ ih => exact congrArg (_ :: ·) ih
  | removed _ _ ih => exact congrArg (_ :: ·) ih

/-- A relation that the changes of a round keep holds from its start to all that is met in it. -/
theorem leads {R : Scene κ → Scene κ → Prop} [IsPreorder (Scene κ) R]
    (round : env.Round e ids w turns v) (keeps : ∀ x ∈ turns.flatMap Turn.steps, x.Keeps R) :
    R w.scene v.scene ∧ ∀ t ∈ turns, R w.scene t.before.scene ∧
      ∀ x ∈ t.steps, ∀ s ∈ x.scenes, R w.scene s := by
  induction round with
  | done => exact ⟨Std.Refl.refl _, fun _ inside => absurd inside List.not_mem_nil⟩
  | @heard id ids w l fuel steps u turns v there ran rest ih =>
    rw [List.flatMap_cons] at keeps
    obtain ⟨met, ends⟩ := env.trace_leads (R := R) fuel (.hear l e) (w := w) fun x step =>
      keeps x (List.mem_append_left _ (by simpa [ran] using step))
    have here : R w.scene u.scene := ends () u (by rw [ran])
    obtain ⟨last, later⟩ := ih fun x step => keeps x (List.mem_append_right _ step)
    refine ⟨IsTrans.trans _ _ _ here last, fun t inside => ?_⟩
    rcases List.mem_cons.mp inside with rfl | after
    · exact ⟨Std.Refl.refl _, fun x step => met x (by rw [ran]; exact step)⟩
    · obtain ⟨before, scenes⟩ := later t after
      exact ⟨IsTrans.trans _ _ _ here before,
        fun x step s met => IsTrans.trans _ _ _ here (scenes x step s met)⟩
  | removed gone rest ih =>
    obtain ⟨last, later⟩ := ih keeps
    refine ⟨last, fun t inside => ?_⟩
    rcases List.mem_cons.mp inside with rfl | after
    · exact ⟨Std.Refl.refl _, fun x step => absurd step List.not_mem_nil⟩
    · exact later t after

end Environment.Round

theorem Document.mem_listeners {d : Document} {x : NodeId} {event : String} {l : ListenerId} :
    l ∈ d.listeners x event ↔ (event, l) ∈ d.listed x := by
  rw [listeners_eq, List.mem_map]
  constructor
  · rintro ⟨⟨name, l⟩, inside, rfl⟩
    obtain ⟨listed, same⟩ := List.mem_filter.mp inside
    cases (eq_of_beq same : name = event)
    exact listed
  · intro listed
    exact ⟨_, List.mem_filter.mpr ⟨listed, BEq.rfl⟩, rfl⟩

structure Visit.Orderly (visit : Visit κ σ) : Prop where
  order : visit.ids.Pairwise fun l k => l.index < k.index
  there : ∀ t ∈ visit.turns, ∀ l, t.before.scene.listener? t.id = some l →
    visit.arrival.scene.listener? t.id = some l
  fresh : ∀ t ∈ visit.turns, ∀ s u, .change s u ∈ visit.steps → ¬s.Adds u t.id

theorem Scene.Enlisted.orderly {env : Environment κ σ} {e : Event} {visit : Visit κ σ}
    (enlisted : visit.arrival.scene.Enlisted) {event : String}
    (round : env.Round e (visit.arrival.scene.document.listeners visit.node event) visit.arrival
      visit.turns visit.departure) (keeps : ∀ x ∈ visit.steps, x.Keeps Scene.Enrols) :
    visit.Orderly := by
  have known (t : Turn κ σ) (inside : t ∈ visit.turns) :
      t.id.index < visit.arrival.scene.listeners.size := by
    have listed : t.id ∈ visit.arrival.scene.document.listeners visit.node event := by
      rw [← round.ids_eq]
      exact List.mem_map_of_mem inside
    exact enlisted.known _ _ (Document.mem_listeners.mp listed)
  refine ⟨?_, fun t inside l held => ?_, fun t inside s u step added => ?_⟩
  · rw [Visit.ids, round.ids_eq, Document.listeners_eq, List.pairwise_map]
    exact (enlisted.ordered visit.node).filter _
  · rcases ((round.leads keeps).2 t inside).1.slot _ (known t inside) with same | gone
    · rw [Scene.listener?, ← same]
      exact held
    · rw [Scene.listener?, gone] at held
      cases held
  · obtain ⟨t', inside', step⟩ := List.mem_flatMap.mp step
    have since := ((round.leads keeps).2 t' inside').2 _ step s List.mem_cons_self
    have bound : s.listeners.size ≤ t.id.index := Array.getElem?_eq_none_iff.mp added.1
    have := since.size
    have := known t inside
    omega

namespace Environment.Journey
variable {env : Environment κ σ} {e : Event} {x : NodeId} {w v : World κ σ}
  {route : List (Visit κ σ)} {steps : History κ σ}

/-- Each visit is a round of those who listen at the node on arrival. -/
theorem round (journey : env.Journey e x w route steps v) : ∀ visit ∈ route,
    env.Round { e with current := visit.node }
      (visit.arrival.scene.document.listeners visit.node e.kind) visit.arrival visit.turns
      visit.departure ∧ ∀ x ∈ visit.steps, x ∈ steps := by
  induction journey with
  | last round top =>
    intro visit inside
    cases List.mem_singleton.mp inside
    exact ⟨round, fun x step => step⟩
  | on round bubbles above rest ih =>
    intro visit inside
    rcases List.mem_cons.mp inside with rfl | later
    · exact ⟨round, fun x step => List.mem_append_left _ step⟩
    · obtain ⟨round, within⟩ := ih visit later
      exact ⟨round, fun x step =>
        List.mem_append_right _ (List.mem_append_left _ (within x step))⟩

/-- A relation that the changes on the way keep holds from each arrival to the later ones. -/
theorem leads {R : Scene κ → Scene κ → Prop} [IsPreorder (Scene κ) R]
    (journey : env.Journey e x w route steps v) (keeps : ∀ y ∈ steps, y.Keeps R) :
    (∀ visit ∈ route, R w.scene visit.arrival.scene) ∧
      route.Pairwise fun first second => R first.arrival.scene second.arrival.scene := by
  induction journey with
  | last round top =>
    refine ⟨fun visit inside => ?_, List.pairwise_singleton _ _⟩
    cases List.mem_singleton.mp inside
    exact Std.Refl.refl _
  | on round bubbles above rest ih =>
    obtain ⟨later, pairwise⟩ := ih fun y step =>
      keeps y (List.mem_append_right _ (List.mem_append_left _ step))
    have next := (round.leads fun y step => keeps y (List.mem_append_left _ step)).1
    have since (visit) (inside) := IsTrans.trans _ _ _ next (later visit inside)
    refine ⟨fun visit inside => ?_, List.pairwise_cons.mpr ⟨since, pairwise⟩⟩
    rcases List.mem_cons.mp inside with rfl | after
    · exact Std.Refl.refl _
    · exact since visit after

/-- If no node of a sound document is moved, the way leads through the ancestors. -/
theorem nodes (journey : env.Journey e x w route steps v) {d : Document} (sound : d.Sound)
    (inside : x.index < d.size) (start : ∀ i < d.size, w.scene.document.parent? ⟨i⟩ = d.parent? ⟨i⟩)
    (keeps : ∀ y ∈ steps, y.Keeps (Scene.Rests d.size)) :
    route.map Visit.node = x :: if e.bubbles then d.ancestors x else [] := by
  induction journey with
  | @last x w turns v round top =>
    have rests := (round.leads keeps).1 x.index inside
    split
    · next bubbles =>
      have above : d.parent? x = none := by rw [← start x.index inside, ← rests, top bubbles]
      rw [Document.ancestors_of_top above]
      rfl
    · rfl
  | @on x w turns v p route steps u round bubbles above rest ih =>
    have rests := (round.leads fun y step => keeps y (List.mem_append_left _ step)).1
    have parent : d.parent? x = some p := by
      rw [← start x.index inside, ← rests x.index inside, above]
    have nodes := ih (Document.bound_of_child (sound.listed x p parent))
      (fun i bound => (rests i bound).trans (start i bound))
      fun y step => keeps y (List.mem_append_right _ (List.mem_append_left _ step))
    rw [if_pos bubbles] at nodes ⊢
    rw [List.map_cons, nodes, sound.ancestors_of_parent? parent]

/-- At a node that is not there nothing is done. -/
theorem nodes_of_missing (journey : env.Journey e x w route steps v)
    (missing : w.scene.document.node? x = none) : route.map Visit.node = [x] := by
  cases journey with
  | last round top => rfl
  | on round bubbles above rest =>
    rw [Document.listeners, missing] at round
    cases round
    rw [Document.parent?, missing] at above
    cases above

/-- If no node is moved, the way leads from the node through its ancestors, or ends at once. -/
theorem path (journey : env.Journey e x w route steps v) (sound : w.scene.document.Sound)
    (keeps : ∀ y ∈ steps, y.Keeps (Scene.Rests w.scene.document.size)) :
    route.map Visit.node = x :: if e.bubbles then w.scene.document.ancestors x else [] := by
  by_cases inside : x.index < w.scene.document.size
  · exact journey.nodes sound inside (fun _ _ => rfl) keeps
  · have missing : w.scene.document.node? x = none :=
      Array.getElem?_eq_none (Nat.le_of_not_lt inside)
    have top : w.scene.document.parent? x = none := by rw [Document.parent?, missing]; rfl
    rw [journey.nodes_of_missing missing, Document.ancestors_of_top top, ite_self]

/-- No listener has a turn at two nodes. -/
theorem nodup (journey : env.Journey e x w route steps v) (enlisted : w.scene.Enlisted)
    (keeps : ∀ y ∈ steps, y.Keeps Scene.Enrols) (apart : (route.map Visit.node).Nodup) :
    (route.flatMap Visit.ids).Nodup := by
  obtain ⟨since, pairwise⟩ := journey.leads keeps
  have listed (visit) (inside : visit ∈ route) (l) (turn : l ∈ visit.ids) :
      (e.kind, l) ∈ visit.arrival.scene.document.listed visit.node := by
    rw [Visit.ids, (journey.round visit inside).1.ids_eq] at turn
    exact Document.mem_listeners.mp turn
  have here (visit) (inside : visit ∈ route) := (since visit inside).enlisted enlisted
  refine List.nodup_flatMap.mpr ⟨fun visit inside => ?_, ?_⟩
  · obtain ⟨round, within⟩ := journey.round visit inside
    have orderly := (here visit inside).orderly round fun y step => keeps y (within y step)
    exact orderly.order.imp fun less same => by simp [same] at less
  · refine (pairwise.and (List.pairwise_map.mp apart)).imp_of_mem ?_
    intro first second inside inside' both l turn turn'
    -- The second node would have got a listener that had its number before.
    have first' := listed first inside l turn
    have second' := both.1.listed _ _ (listed second inside' l turn')
      ((here first inside).known _ _ first')
    exact both.2 ((here first inside).single _ _ _ first' _ second' rfl)

end Environment.Journey

/-- Wherever a run is, its document is sound and the rosters are in order. -/
theorem enlisted_of_step (env : Environment κ σ) {w : World κ σ} (reached : env.Reachable w)
    {fuel : Nat} {m : Script κ σ α} {x : Step κ σ} (step : x ∈ (env.record fuel m w).steps)
    {s : Scene κ} (met : s ∈ x.scenes) : s.document.Sound ∧ s.Enlisted := by
  have keeps (F : List Field) (s t : Scene κ) (alike : s.Alike F t)
      (holds : s.document.Sound ∧ s.Enlisted) : t.document.Sound ∧ t.Enlisted :=
    ⟨alike.document.sound holds.1, alike.enrols.enlisted holds.2⟩
  have start := reached.keeps (I := fun s => s.document.Sound ∧ s.Enlisted) keeps
    fun config journal => ⟨Document.sound_empty, Scene.enlisted_ofConfig config journal⟩
  exact env.record_keeps (I := fun s => s.document.Sound ∧ s.Enlisted) keeps start step met

/-- An event that is delivered in a run, dispatched there or come from below, makes a journey. At each
node those have their turns who listen there when the event comes; each hears it unless it has been
removed by then, and nothing else is done. They have their turns in the order in which they were
added, and none is among them that was added since the event came to the node. If meanwhile no node
is moved that was there when the delivery began, the journey leads from the node of the delivery, if
the event bubbles, through all its ancestors, and no listener has two turns on the way. Of the
requests in a run to remove a certain listener one at most is answered with yes. -/
theorem delivered_of_reachable (env : Environment κ σ) {w : World κ σ} (reached : env.Reachable w)
    {fuel : Nat} {m : Script κ σ α} :
    (∀ x e before after,
      .answer (.deliver x e) before () after ∈ (env.record fuel m w).steps →
      ∃ n course route, env.trace n (.deliver x e) before = ⟨course, some ((), after)⟩ ∧
        course.Sublist (env.record fuel m w).steps ∧ env.Journey e x before route course after ∧
        (∀ visit ∈ route, visit.Orderly) ∧
        ((∀ y ∈ course, y.Keeps (Scene.Rests before.scene.document.size)) →
          route.map Visit.node =
            x :: (if e.bubbles then before.scene.document.ancestors x else []) ∧
          (route.flatMap Visit.ids).Nodup)) ∧
    ∀ l, (env.record fuel m w).steps.Pairwise fun x y =>
      ¬(x.Unlistens env l ∧ y.Unlistens env l) := by
  refine ⟨fun x e before after step => ?_, fun l => unlistens_once env fuel m w l⟩
  obtain ⟨n, answered, within⟩ := env.encloses_record fuel m w _ _ _ _ step
  obtain ⟨sound, enlisted⟩ := enlisted_of_step env reached step List.mem_cons_self
  cases ran : env.trace n (.deliver x e) before with
  | mk course result =>
    obtain rfl : result = some ((), after) := by
      rw [← answered, ← env.result_trace, ran]
    have enrols : ∀ y ∈ course, y.Keeps Scene.Enrols := by
      have kept := env.trace_keeps (fun F s t alike => alike.enrols) n (.deliver x e) before
      rwa [ran] at kept
    obtain ⟨route, journey⟩ := Environment.Journey.of_trace ran
    refine ⟨n, course, route, ran, by rwa [ran] at within, journey, fun visit inside => ?_,
      fun rests => ?_⟩
    · obtain ⟨round, inside'⟩ := journey.round visit inside
      have here := ((journey.leads enrols).1 visit inside).enlisted enlisted
      exact here.orderly round fun y step => enrols y (inside' y step)
    · have path := journey.path sound rests
      refine ⟨path, journey.nodup enlisted enrols ?_⟩
      rw [path]
      split
      · exact sound.nodup_path _ x
      · exact List.nodup_singleton x

def removing : Environment Nat (List Nat) where
  script k o := match k, o with
    | 0, .event e => do
      Script.modifyStore (· ++ [0])
      let _ ← Script.request (.unlisten e.current e.kind ⟨0⟩)
      let _ ← Script.request (.unlisten e.current e.kind ⟨0⟩)
      let _ ← Script.request (.unlisten e.current e.kind ⟨1⟩)
      let _ ← Script.request (.listen e.current e.kind 3)
      return .ok .undefined
    | k, _ => do
      Script.modifyStore (· ++ [k])
      return .ok .undefined
  apply _ _ store := (.undefined, store)

def assembling : Script Nat (List Nat) Unit := do
  let panel ← Script.request (.createElement "div")
  let button ← Script.request (.createElement "button")
  Script.request (.appendChild Document.root panel)
  Script.request (.appendChild panel button)
  let _ ← Script.request (.listen button "click" 0)
  let _ ← Script.request (.listen button "click" 1)
  let _ ← Script.request (.listen panel "click" 2)

def clicking : Script Nat (List Nat) Unit :=
  Script.request (.dispatch ⟨2⟩
    { kind := "click", target := ⟨2⟩, current := ⟨2⟩, detail := .undefined, bubbles := true })

def Step.clicked : Step Nat (List Nat) → Bool
  | .answer (.deliver x e) before _ after =>
    x == ⟨2⟩ && e.bubbles && before.scene.document.size == 3 &&
      before.scene.document.ancestors x == [⟨1⟩, ⟨0⟩] && after.store == [0, 2]
  | _ => false

theorem delivered_of_reachable_removing : ∃ w x e before after route,
    removing.Reachable w ∧
      .answer (.deliver x e) before () after ∈ (removing.record 30 clicking w).steps ∧
      (∃ course, removing.Journey e x before route course after) ∧
      route.map Visit.node = [⟨2⟩, ⟨1⟩, ⟨0⟩] ∧ after.store = [0, 2] := by
  have ran : (removing.play 30 assembling ⟨.ofConfig {} none, []⟩).map (fun r =>
      let h := (removing.record 30 clicking r.2).steps
      (h.any Step.clicked, h.all fun x => x.Keeps (Scene.Rests 3))) = some (true, true) := by
    decide +kernel
  obtain ⟨⟨_, w⟩, played, same⟩ := Option.map_eq_some_iff.mp ran
  obtain ⟨found, still⟩ := Prod.mk.inj same
  have reached : removing.Reachable w :=
    (Environment.Reachable.start _ none []).play assembling played
  obtain ⟨y, step, clicked⟩ := List.any_eq_true.mp found
  obtain ⟨x, e, before, after, rfl⟩ : ∃ x e before after,
      y = .answer (.deliver x e) before () after := by
    cases y with
    | answer c before a after =>
      cases c with
      | deliver x e => exact ⟨x, e, before, after, rfl⟩
      | _ => cases clicked
    | _ => cases clicked
  simp only [Step.clicked, Bool.and_eq_true, beq_iff_eq] at clicked
  obtain ⟨⟨⟨⟨rfl, bubbles⟩, size⟩, ancestors⟩, heard⟩ := clicked
  obtain ⟨n, course, route, -, inside, journey, -, path⟩ :=
    (delivered_of_reachable removing reached).1 ⟨2⟩ e before after step
  refine ⟨w, ⟨2⟩, e, before, after, route, reached, step, ⟨course, journey⟩, ?_, heard⟩
  rw [(path fun y step => ?_).1, if_pos bubbles, ancestors]
  rw [size]
  exact of_decide_eq_true (List.all_eq_true.mp still y (inside.subset step))

end LiveTree
