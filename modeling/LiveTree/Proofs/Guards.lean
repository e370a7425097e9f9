import LiveTree.Proofs.Guards.Acts
import LiveTree.Proofs.Reachable

/-! Guards are always lowered. However deep consumer code comes back to the tree, and whether the
operations it asks for succeed or fail, an operation leaves raised only what it found raised;
between operations from outside that is nothing. -/
namespace LiveTree
variable {κ σ : Type}

namespace Act.Releases
variable {α : Type}

theorem instantiate (x : NodeId) (d : Definition κ) (owner : Option ComponentId) :
    (Act.instantiate x d owner : Act κ _).Releases := by
  refine .bind .scene fun s => .bind (.update (fun _ => trivial) fun s => .push s d x owner) fun _ => ?_
  refine .bind (of_touches (.setStage _ _) (by decide)) fun _ => ?_
  refine .bind (of_touches (.tellParts _ _) (by decide)) fun _ => ?_
  exact .bind (of_touches (.runHook _ _ _) (by decide)) fun _ => .pure _

theorem edit (f : Document → Document) : (Act.edit f : Act κ _).Releases :=
  .update (fun _ => trivial) fun s => .refl s

theorem createElement (tag : String) : (Act.createElement tag : Act κ _).Releases :=
  Leads.composes.createElement (fun _ => edit _) instantiate tag

/-- The owner of what is made is noted for the time of an expansion. Templates may be expanded in the
midst of others, whose owners are noted again afterwards. -/
theorem growTemplate (id : ComponentId) (x : NodeId) (template : List Markup) :
    (Act.growTemplate id x template : Act κ _).Releases := fun σ p => by
  refine (wp_bind _ _).mpr (wp_scene.mpr ?_)
  have text (text : String) : (Act.createText text : Act κ _).Releases :=
    of_touches (.createText text) (by decide)
  have grown : (Act.growBelow x template : Act κ _).Releases :=
    Leads.composes.growBelow (fun f _ => edit f) text createElement x template
  refine wp_raise (.template p.scene (some id)) (.bind grown fun nodes => ?_)
  refine .before (.update (fun t => .template t p.scene.templateOwner) ?_) fun _ => .pure _
  intro t g member here
  obtain rfl := List.mem_singleton.mp member
  exact here

theorem expand (id : ComponentId) (c : Component κ) (light : List NodeId) :
    (Act.expand id c light).Releases := by
  have noted (id : ComponentId) (fault : Fault) : (Act.note (some id) fault : Act κ _).Releases :=
    of_touches (.note _ _) (by decide)
  exact Leads.composes.expand (fun f _ => edit f) noted growTemplate id c light

theorem wp_layOut (x : NodeId) (template : List NodeId) (p : Point κ σ) :
    (Act.layOut x template).wp (Leading σ ⊤ (Scene.Raises []))
      (fun laid q => laid.2.Quiet ∧ p.scene.Raises [] q.scene) p :=
  ⟨trivial, fun _ => ⟨BindingTree.quiet_ofTemplate _ _ _, .refl p.scene⟩⟩

/-- What goes on from the layout of a template may count on bindings at rest. -/
theorem layOut {x : NodeId} {template : List NodeId} {next : Layout × BindingTree → Act κ α}
    (rest : ∀ laid, laid.2.Quiet → (next laid).Releases) :
    (Act.layOut x template >>= next).Releases := fun _ p =>
  (wp_bind _ _).mpr (wp_mono _ (fun laid _ reached => (rest laid reached.1).keeps reached.2)
    (wp_layOut x template p))

theorem applied (id : ComponentId) {t : BindingTree} (quiet : t.Quiet) (refs : Keyed NodeId)
    (content : NodeId) (text : String) : (Act.modify id fun c : Component κ => { c with
      stage := .expanded
      bindings := some t
      boundProperties := t.dependencies
      refs := refs
      content := some content
      lightText := text
      barrier := c.barrier.hold }).Releases := by
  refine .modify fun c m => Component.marked_of_bindings (by rfl) (by rfl) (by rfl) ?_
  exact fun i target b found => .inl (quiet i target b found)

theorem applyTemplate (id : ComponentId) : (Act.applyTemplate id : Act κ _).Releases := by
  refine .withComponent fun c => .ite ?_ (.pure _)
  refine .bind .scene fun s => .bind (expand _ _ _) fun template => layOut fun laid quiet => ?_
  obtain ⟨layout, tree⟩ := laid
  dsimp -zeta only
  extract_lets placed
  have later (text) : (placed text).Releases :=
    .bind (applied id quiet _ _ text) fun _ =>
      .bind (of_touches (.awaitNested _ _) (by decide)) fun _ => .ask _
  exact .ite (.bind (of_touches (.placeLight _ _ _) (by decide)) later) (later _)

theorem complete (id : ComponentId) : (Act.complete id : Act κ _).Releases := by
  refine .withComponent fun c => .ite (.bind .scene fun s => ?_) (.pure _)
  refine .bind (of_touches (.noteMissing _ _) (by decide)) fun _ => ?_
  refine .bind (.each _ fun o => pushOwner o) fun _ => .bind (pushFirst _) fun _ => ?_
  refine .bind (of_touches (.setStage _ _) (by decide)) fun _ => ?_
  refine .bind (of_touches (.tellParts _ _) (by decide)) fun _ => ?_
  refine .bind (of_touches (.runHook _ _ _) (by decide)) fun _ => ?_
  refine .bind (of_touches (.enter _) (by decide)) fun _ => ?_
  refine .bind (modify fun _ _ raised => raised) fun _ => ?_
  refine .bind (of_touches (.runHook _ _ _) (by decide)) fun _ => ?_
  exact of_touches (.tellWaiting _) (by decide)

theorem release (id : ComponentId) : (Act.release id : Act κ _).Releases :=
  .withComponent fun _ => .bind (modify fun _ _ raised => raised) fun _ =>
    .ite (complete _) (.pure _)

theorem connect (id : ComponentId) : (Act.connect id : Act κ _).Releases := by
  refine .withComponent fun c => ?_
  split
  · refine .bind .scene fun s => .ite (.update (fun _ => trivial) fun s => .refl s) ?_
    exact .bind (of_touches (.configure _) (by decide)) fun _ => applyTemplate _
  · exact of_touches (.attach _) (by decide)
  · exact .pure _

theorem addCapability (tag : String) (c : Capability κ) : (Act.addCapability tag c).Releases := by
  refine .bind .scene fun s => ?_
  split
  · exact .pure _
  · refine .bind (.update (fun _ => trivial) fun s => .refl s) fun _ => ?_
    exact .bind (.each _ fun _ => modify fun c _ => c.marked_of_adopt) fun _ => .pure _

theorem request (r : Request κ) : r.act.Releases := by
  cases r with
  | register d =>
    exact Leads.composes.register connect d (fun _ => of_touches (.note _ _) (by decide))
      (fun _ => .update (fun _ => trivial) fun s => .refl s)
      (fun k => of_touches (.registered k) (by decide)) fun x _ owner => instantiate x _ owner
  | addCapability tag c => exact addCapability tag c
  | createElement tag => exact createElement tag
  | appendChild parent child =>
    have detach (id : ComponentId) : (Act.detach id : Act κ _).Releases :=
      of_touches (.detach id) (by decide)
    exact Leads.composes.appendChild detach connect parent child (edit _)
  | finishLoading =>
    exact Leads.composes.finishLoading connect (.update (fun _ => trivial) fun s => .refl s)
      (of_touches .resolveWaiting (by decide))
  | refresh id => exact refresh id
  | addBinding id e target stableId => exact addBinding id e target stableId
  | removeBinding id e target stableId => exact removeBinding id e target stableId
  | _ =>
    refine of_touches (.request _) ?_
    dsimp only [Touches.requested]
    decide

theorem call (c : Call κ) : c.Leads ⊤ (Scene.Raises []) := by
  cases c with
  | write id name v origin => exact write id name v origin
  | connect id => exact connect id
  | release id => exact release id
  | service s id arguments => exact service s id arguments
  | deliver x e => exact deliver x e
  | callback k o => trivial
  | apply f arguments => trivial

end Act.Releases

structure Component.Idle (c : Component κ) : Prop where
  slots : ∀ name slot, Keyed.get? c.slots name = some slot → slot.busy = false
  handlers : c.changing = false
  context : c.writingBack = false
  bindings : ∀ site target b, c.binding? site target = some b → b.updating = false

structure Scene.Idle (s : Scene κ) : Prop where
  components : ∀ id c, s.component? id = some c → c.Idle
  template : s.templateOwner = none

theorem Component.idle_iff (c : Component κ) : c.Idle ↔ ∀ m, c.marked m = false := by
  constructor
  · intro idle m
    cases m with
    | slot name => exact (Option.any_eq_false _ _).mpr (idle.slots name)
    | handlers => exact idle.handlers
    | context => exact idle.context
    | binding site target => exact (Option.any_eq_false _ _).mpr (idle.bindings site target)
  · intro still
    exact {
      slots := fun name slot found => by simpa [marked, found] using still (.slot name)
      handlers := still .handlers
      context := still .context
      bindings := fun site target b found => by
        simpa [marked, found] using still (.binding site target) }

theorem Scene.idle_iff (s : Scene κ) : s.Idle ↔ ∀ g, s.raised g = false := by
  constructor
  · intro idle g
    cases g with
    | component id m =>
      exact (Option.any_eq_false _ _).mpr fun c found => c.idle_iff.mp (idle.components id c found) m
    | template => rw [raised, idle.template, Option.isSome_none]
  · intro lowered
    refine ⟨fun id c found => c.idle_iff.mpr fun m => ?_, Option.not_isSome_iff_eq_none.mp ?_⟩
    · simpa [raised, found] using lowered (.component id m)
    · exact Bool.eq_false_iff.mp (lowered .template)

theorem Scene.idle_ofConfig (config : Config) (journal : Option Journal) :
    (ofConfig config journal : Scene κ).Idle :=
  ⟨fun _ _ found => (nomatch found), rfl⟩

theorem Scene.Idle.of_raises {s t : Scene κ} (idle : s.Idle) (raises : s.Raises [] t) : t.Idle := by
  refine t.idle_iff.mpr fun g => Bool.eq_false_iff.mpr fun here => ?_
  have before := (raises g here).resolve_left List.not_mem_nil
  exact nomatch (s.idle_iff.mp idle g).symm.trans before

theorem Environment.Reachable.idle {env : Environment κ σ} {w : World κ σ} (reached : env.Reachable w) :
    w.scene.Idle :=
  reached.invariant Act.Releases.call Act.Releases.request Scene.idle_ofConfig fun _ _ idle raises =>
    idle.of_raises raises

/-- Between operations nothing is under way: no property is being written, no handlers run, nothing
is on its way to a context or through a binding, and no template is being expanded. -/
theorem idle_of_reachable (env : Environment κ σ) {w : World κ σ} (reached : env.Reachable w) :
    w.scene.Idle := reached.idle

def faltering : Environment Unit Unit where
  script _ o := match o with
    | .change id name _ _ => do
      let _ ← Script.request (.set id name (.string "again") true)
      return .error (.other "no")
    | _ => return .ok .undefined
  apply _ _ store := (.undefined, store)

def linking : Script Unit Unit (Bool × String) := do
  let _ ← Script.request (.register (Declaration.define {
    tag := "x-in"
    properties := [.ofKind "v" .string] }))
  let _ ← Script.request (.register (Declaration.define {
    tag := "x-out"
    properties := [.ofKind "a" .string]
    template := some "<x-in v=\"\x7b\x7ba\x7d\x7d\"></x-in>"
    hooks := { changed := some () } }))
  let x ← Script.request (.createElement "x-out")
  Script.request (.appendChild Document.root x)
  let refused ← Script.request (.set ⟨0⟩ "a" (.bool true) true)
  let _ ← Script.request (.set ⟨1⟩ "v" (.string "once") true)
  let s ← Script.scene
  return (match refused with | .error _ => true | .ok _ => false, (s.property ⟨0⟩ "a").display)

theorem idle_of_reachable_linking : ∃ w,
    faltering.play 40 linking ⟨.ofConfig { faults := .escalate } none, ()⟩ =
      some ((true, "once"), w) ∧ faltering.Reachable w ∧ w.scene.Idle := by
  have answered : (faltering.play 40 linking ⟨.ofConfig { faults := .escalate } none, ()⟩).map
      Prod.fst = some (true, "once") := by decide +kernel
  obtain ⟨⟨answer, w⟩, played, same⟩ := Option.map_eq_some_iff.mp answered
  obtain rfl : answer = (true, "once") := same
  have reached : faltering.Reachable w := (Environment.Reachable.start _ none ()).play linking played
  exact ⟨w, played, reached, idle_of_reachable faltering reached⟩

/-- A call in the midst of others, whoever makes it and whatever it answers, leaves no guard raised
that it did not find raised. -/
theorem raises_of_answer (env : Environment κ σ) {fuel : Nat} {c : Call κ} {w w' : World κ σ}
    {a : c.Answer} (answered : env.answer fuel c w = some (a, w')) : w.scene.Raises [] w'.scene :=
  env.answer_leads Act.Releases.call Act.Releases.request answered

theorem raises_of_answer_faltering : ∃ w a w',
    faltering.play 40 linking ⟨.ofConfig {} none, ()⟩ = some ((false, "once"), w) ∧
      faltering.answer 20 (.write ⟨0⟩ "a" (.string "twice") .code) w = some (a, w') ∧
      w.scene.Raises [] w'.scene := by
  have answered : (faltering.play 40 linking ⟨.ofConfig {} none, ()⟩).map (fun r =>
      (r.1, (faltering.answer 20 (.write ⟨0⟩ "a" (.string "twice") .code) r.2).isSome)) =
        some ((false, "once"), true) := by decide +kernel
  obtain ⟨⟨answer, w⟩, played, same⟩ := Option.map_eq_some_iff.mp answered
  obtain ⟨rfl, written⟩ := Prod.mk.inj same
  obtain ⟨⟨a, w'⟩, written⟩ := Option.isSome_iff_exists.mp written
  exact ⟨w, a, w', played, written, raises_of_answer faltering written⟩

end LiveTree
