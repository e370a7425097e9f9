import LiveTree.Proofs.Footprint.Closed
import LiveTree.Proofs.Paths
import LiveTree.Proofs.Reachable

/-! Contexts know the components that are bound to them. A component comes into the list of a context
when it is bound, once, and goes when it is unbound. The other half does not hold: a component whose
host node names a context that is not registered yet is tied to the name without being unbound, and
stays in the list of the context that it was bound to. -/
namespace LiveTree
variable {κ σ α : Type}

namespace Scene

structure Subscribed (s : Scene κ) : Prop where
  distinct : ∀ context c, s.contextAt? context = some c → c.subscribers.Nodup
  listed : ∀ id context, s.boundContext? id = some context →
    ∃ c, s.contextAt? context = some c ∧ id ∈ c.subscribers

def Subscribes (s t : Scene κ) : Prop := s.Subscribed → t.Subscribed

instance : IsPreorder (Scene κ) Subscribes where
  refl _ := id
  trans _ _ _ first second := second ∘ first

variable {s t : Scene κ} {id : ComponentId} {context : ContextId}

theorem exists_contextAt? : (∃ c, s.contextAt? context = some c) ↔
    context.index < s.contexts.size := by
  constructor
  · rintro ⟨c, found⟩
    exact (Array.getElem?_eq_some_iff.mp found).1
  · intro inside
    exact ⟨_, Array.getElem?_eq_getElem inside⟩

theorem boundContext?_modify (s : Scene κ) (id other : ComponentId) (f : Component κ → Component κ) :
    (s.modify id f).boundContext? other = if id = other then
      (((s.component? other).map f).bind Component.link).bind Link.context? else
        s.boundContext? other := by
  unfold boundContext?
  rw [component?_modify]
  split <;> rfl

theorem Alike.boundContext? {F : List Field} (alike : s.Alike F t)
    (out : ∀ f ∈ [Field.components, .link], f ∉ F) (id : ComponentId) :
    t.boundContext? id = s.boundContext? id := by
  have links : (t.component? id).map Component.link = (s.component? id).map Component.link :=
    alike.map_component? (out _ (by decide)) _ (fun _ _ same => same.view .link (out _ (by decide))) id
  have join (o : Option (Component κ)) : o.bind Component.link = (o.map Component.link).join := by
    cases o <;> rfl
  rw [Scene.boundContext?, Scene.boundContext?, join, join, links]

/-- What is asked of the contexts is not more than before. -/
theorem Subscribed.of_bound (subscribed : s.Subscribed) (contexts : t.contexts = s.contexts)
    (bound : ∀ id context, t.boundContext? id = some context → s.boundContext? id = some context) :
    t.Subscribed := by
  have same (context : ContextId) : t.contextAt? context = s.contextAt? context := by
    rw [contextAt?, contexts, contextAt?]
  constructor
  · intro context c found
    exact subscribed.distinct context c ((same context).symm.trans found)
  · intro id context asked
    obtain ⟨c, found, listed⟩ := subscribed.listed id context (bound id context asked)
    exact ⟨c, (same context).trans found, listed⟩

theorem Subscribed.of_alike {F : List Field} (subscribed : s.Subscribed) (alike : s.Alike F t)
    (out : ∀ f ∈ [Field.components, .link, .contexts], f ∉ F) : t.Subscribed := by
  refine subscribed.of_bound (alike.view .contexts (out _ (by decide))) fun id context bound => ?_
  rwa [alike.boundContext? fun f inside => out f (by grind)] at bound

/-- A context may change as long as it keeps the subscribers that are still bound to it. -/
theorem Subscribed.modifyContext (subscribed : s.Subscribed) {f : Context → Context}
    (distinct : ∀ c, s.contextAt? context = some c → (f c).subscribers.Nodup)
    (listed : ∀ c id, s.contextAt? context = some c → s.boundContext? id = some context →
      id ∈ (f c).subscribers) : (s.modifyContext context f).Subscribed := by
  constructor
  · intro other c found
    rw [contextAt?_modifyContext] at found
    split at found
    · next same =>
      subst same
      obtain ⟨d, here, rfl⟩ := Option.map_eq_some_iff.mp found
      exact distinct d here
    · exact subscribed.distinct other c found
  · intro id other bound
    obtain ⟨c, found, here⟩ := subscribed.listed id other bound
    rw [contextAt?_modifyContext]
    split
    · next same =>
      subst same
      exact ⟨f c, by rw [found]; rfl, listed c id found bound⟩
    · exact ⟨c, found, here⟩

/-- A component may be tied to whatever context lists it. -/
theorem Subscribed.relink (subscribed : s.Subscribed) {link : Option Link}
    (listed : ∀ context, link.bind Link.context? = some context →
      ∃ c, s.contextAt? context = some c ∧ id ∈ c.subscribers) :
    (s.modify id fun c => { c with link := link }).Subscribed := by
  constructor
  · intro context c found
    exact subscribed.distinct context c found
  · intro other context bound
    rw [boundContext?_modify] at bound
    split at bound
    · next same =>
      subst same
      cases here : s.component? id with
      | none => simp [here] at bound
      | some c =>
        rw [here] at bound
        exact listed context bound
    · exact subscribed.listed other context bound

theorem Subscribed.pushContext (subscribed : s.Subscribed) {c : Context} (fresh : c.subscribers = []) :
    ({ s with contexts := s.contexts.push c } : Scene κ).Subscribed := by
  have here (context : ContextId) : ({ s with contexts := s.contexts.push c } : Scene κ).contextAt?
      context = if context.index = s.contexts.size then some c else s.contextAt? context :=
    Arena.get?_push _ _ _
  constructor
  · intro context d found
    rw [here] at found
    split at found
    · cases found
      rw [fresh]
      exact .nil
    · exact subscribed.distinct context d found
  · intro id context bound
    obtain ⟨d, found, listed⟩ := subscribed.listed id context bound
    obtain ⟨inside, -⟩ := Array.getElem?_eq_some_iff.mp found
    have old : context.index ≠ s.contexts.size := Nat.ne_of_lt inside
    exact ⟨d, by rw [here, if_neg old, found], listed⟩

theorem subscribed_ofConfig (config : Config) (journal : Option Journal) :
    (ofConfig config journal : Scene κ).Subscribed := by
  constructor
  · intro context c found
    cases found
  · intro id context bound
    cases bound

end Scene

def Context.enter (c : Context) (id : ComponentId) : Context :=
  if c.subscribers.contains id then c else { c with subscribers := c.subscribers ++ [id] }

theorem Context.mem_enter {c : Context} {id other : ComponentId} :
    other ∈ (c.enter id).subscribers ↔ other ∈ c.subscribers ∨ other = id := by
  unfold enter
  split
  · next there =>
    have there : id ∈ c.subscribers := List.contains_iff_mem.mp there
    constructor
    · exact .inl
    · rintro (listed | rfl)
      · exact listed
      · exact there
  · simp

theorem Context.nodup_enter {c : Context} (distinct : c.subscribers.Nodup) (id : ComponentId) :
    (c.enter id).subscribers.Nodup := by
  unfold enter
  split
  · exact distinct
  · next apart =>
    have new : id ∉ c.subscribers := fun there => apart (List.contains_iff_mem.mpr there)
    exact List.nodup_append.mpr ⟨distinct, List.nodup_singleton id, fun a member b single same =>
      new (List.mem_singleton.mp single ▸ same ▸ member)⟩

theorem Context.subscribers_set? {c d : Context} {path : String} {v : Value}
    (written : c.set? path v = some d) : d.subscribers = c.subscribers := by
  unfold set? at written
  split at written
  · cases written
    rfl
  · obtain ⟨_, -, rest⟩ := Option.bind_eq_some_iff.mp written
    obtain ⟨_, -, same⟩ := Option.bind_eq_some_iff.mp rest
    cases same
    rfl

abbrev Act.Subscribes (m : Act κ α) : Prop := m.Leads ⊤ Scene.Subscribes

namespace Act.Subscribes

theorem of_touches {F : List Field} {C : List Call.Kind} {m : Act κ α} (touches : m.Touches F C)
    (out : ∀ f ∈ [Field.components, .link, .contexts], f ∉ F) : m.Subscribes :=
  .of_within (fun _ _ alike => ⟨trivial, fun subscribed => subscribed.of_alike alike out⟩) touches

theorem update {f : Scene κ → Scene κ} (keeps : ∀ s : Scene κ, s.Subscribed → (f s).Subscribed) :
    (Act.update f).Subscribes := Leads.update (fun _ => trivial) keeps

theorem closed : Closed fun {_} (m : Act κ _) => m.Subscribes where
  of_touches touches out := by
    have sub : ∀ f ∈ [Field.components, .link, .contexts], f ∈ Field.telling := by decide
    exact of_touches touches fun f inside => out f (sub f inside)
  bind := .bind

theorem createContext (fields : Keyed Value) : (Act.createContext fields : Act κ _).Subscribes := by
  refine .bind .scene fun _ => .bind (update fun s subscribed => ?_) fun _ => .pure _
  exact subscribed.pushContext rfl

theorem setContextField (context : ContextId) (path : String) (v : Value) :
    (Act.setContextField context path v : Act κ _).Subscribes := by
  intro σ p
  refine (wp_bind _ _).mpr (wp_scene.mpr ?_)
  split
  · exact fun subscribed => subscribed
  · next c written =>
    obtain ⟨d, found, set⟩ := Option.bind_eq_some_iff.mp written
    have same := Context.subscribers_set? set
    have told : (do
        Act.each c.subscribers fun id => Act.routeChange id context (headAndRest path).1
        return true : Act κ Bool).Subscribes :=
      .bind (.each _ fun _ => of_touches (.routeChange _ _ _) (by decide)) fun _ => .pure _
    refine (wp_bind _ _).mpr ⟨trivial, fun _ => told.after fun subscribed => ?_⟩
    refine subscribed.modifyContext (fun e here => ?_) fun e id here bound => ?_
    · rw [same]
      exact subscribed.distinct context d found
    · obtain ⟨e, here, listed⟩ := subscribed.listed id context bound
      cases found.symm.trans here
      rwa [same]

theorem writeBackProperty (id : ComponentId) (property : String) :
    (Act.writeBackProperty id property : Act κ _).Subscribes := by
  refine .withComponent fun c => ?_
  split
  · split
    · have marking (b : Bool) :
          (Act.modify id fun c : Component κ => { c with writingBack := b }).Subscribes :=
        of_touches (F := [.writingBack]) (C := []) (.modify fun c => .put c .writingBack _ (by decide))
          (by decide)
      exact .ite (.bind (marking _) fun _ => .bind (setContextField _ _ _) fun _ => marking _) (.pure _)
    · exact .pure _
  · exact .pure _

theorem write (id : ComponentId) (name : String) (v : Value) (origin : Origin) :
    (Act.write id name v origin : Act κ _).Subscribes := by
  have values {name : String} {f : Slot → Slot} (keeps : ∀ slot, (f slot).notify = slot.notify) :
      (Act.modify id fun c : Component κ => c.modifySlot name f).Subscribes :=
    of_touches (.modifyValue id name keeps) (by decide)
  have spread (p : Property) (old v : Value) (c : Component κ) (slot : Slot) :
      (Act.spread id p c slot old v origin).Subscribes :=
    Leads.composes.spread (of_touches (.reflect _ _ _) (by decide))
      (of_touches (.tellOfChange _ _ _ _) (by decide)) (of_touches (.announce _ _ _ _) (by decide))
      (of_touches (.pushBound _ _) (by decide)) (writeBackProperty _ _) slot
  refine Leads.composes.write (fun _ => values fun _ => rfl) fun p => ?_
  refine Leads.composes.attempt (fun _ => of_touches (.refuse _ _) (by decide))
    (fun _ => of_touches (.validated _ _ _ _) (by decide)) fun old x => ?_
  exact Leads.composes.commit (values fun _ => rfl) (spread p old x)

theorem wp_unbindContext (id : ComponentId) (p : Point κ σ) :
    (Act.unbindContext id).wp (Leading σ ⊤ Scene.Subscribes) (fun _ q =>
      p.scene.Subscribes q.scene ∧ q.scene.contexts.size = p.scene.contexts.size) p := by
  refine wp_withComponent (fun c found => ?_) fun _ => ⟨fun subscribed => subscribed, rfl⟩
  refine (wp_modify_bind _ _ _).mpr ⟨trivial, fun _ => ?_⟩
  have free : (p.scene.modify id fun c => { c with link := none }).boundContext? id = none := by
    rw [Scene.boundContext?_modify, if_pos rfl, found]
    rfl
  have left : p.scene.Subscribes (p.scene.modify id fun c => { c with link := none }) :=
    fun subscribed => subscribed.relink nofun
  split
  · next context feeds listeners _ =>
    refine (wp_bind _ _).mpr (wp_mono _ ?_ (Touches.wp_alone (.unlistenAll _) fun _ _ _ _ _ => trivial))
    intro _ q alike
    refine ⟨trivial, fun _ => ⟨fun subscribed => ?_, ?_⟩⟩
    · -- The component is tied to nothing by now, so that no one else is lost from the list.
      have here := (left subscribed).of_alike alike (by decide)
      refine here.modifyContext (fun c there => (here.distinct _ c there).filter _) ?_
      intro c other there bound
      obtain ⟨d, there', listed⟩ := here.listed other _ bound
      cases there.symm.trans there'
      refine List.mem_filter.mpr ⟨listed, decide_eq_true ?_⟩
      rintro rfl
      rw [alike.boundContext? (by decide)] at bound
      exact nomatch bound.symm.trans free
    · have same : q.scene.contexts = p.scene.contexts := alike.view .contexts (by decide)
      exact (Arena.size_modify _ _ _).trans (congrArg Arena.size same)
  · exact ⟨left, rfl⟩

theorem unbindContext (id : ComponentId) : (Act.unbindContext id : Act κ _).Subscribes := fun _ p =>
  wp_mono _ (fun _ _ kept => kept.1) (wp_unbindContext id p)

theorem bindContext (id : ComponentId) (context : ContextId) :
    (Act.bindContext id context : Act κ _).Subscribes := by
  intro σ p
  refine (wp_bind _ _).mpr (wp_scene.mpr ?_)
  rw [wp_ite]
  split
  · exact fun subscribed => subscribed
  next there =>
  refine wp_withComponent (fun c found => ?_) fun _ subscribed => subscribed
  refine (wp_bind _ _).mpr (wp_mono _ ?_ (wp_unbindContext id p))
  rintro _ q ⟨kept, size⟩
  refine (wp_bind _ _).mpr (wp_scene.mpr ((wp_bind _ _).mpr (wp_mono _ ?_
    (Touches.wp_alone (.listenForContext _ _ _) fun _ _ _ _ _ => trivial))))
  intro listeners r alike
  extract_lets feeds
  have fed : (do Act.pushFeeds id; return true : Act κ Bool).Subscribes :=
    .bind (of_touches (.pushFeeds _) (by decide)) fun _ => .pure _
  refine (wp_modify_bind _ _ _).mpr ⟨trivial, fun _ => (wp_bind _ _).mpr ⟨trivial, fun _ => ?_⟩⟩
  refine fed.after fun subscribed => ?_
  have here : r.scene.Subscribed := (kept subscribed).of_alike alike (by decide)
  have inside : context.index < r.scene.contexts.size := by
    have same : r.scene.contexts = q.scene.contexts := alike.view .contexts (by decide)
    rw [same, size]
    apply Scene.exists_contextAt?.mp
    rwa [Option.isNone_iff_eq_none, ← ne_eq, Option.ne_none_iff_exists'] at there
  -- The component enters the list after it is tied. As a tie needs its entry, take them the other
  -- way round: the scene is the same.
  have entered : (r.scene.modifyContext context (·.enter id)).Subscribed := by
    refine here.modifyContext (fun c there => Context.nodup_enter (here.distinct _ c there) id) ?_
    intro c other there bound
    obtain ⟨d, there', listed⟩ := here.listed other _ bound
    cases there.symm.trans there'
    exact Context.mem_enter.mpr (.inl listed)
  refine entered.relink fun wanted same => ?_
  cases same
  obtain ⟨d, found⟩ := Scene.exists_contextAt?.mpr inside
  rw [Scene.contextAt?_modifyContext, if_pos rfl, found]
  exact ⟨d.enter id, rfl, Context.mem_enter.mpr (.inr rfl)⟩

theorem resolveContext (id : ComponentId) : (Act.resolveContext id : Act κ _).Subscribes := by
  refine .bind .scene fun s => ?_
  split
  · exact .pure _
  · split
    · exact .bind (bindContext _ _) fun _ => .pure _
    · exact update fun s subscribed => subscribed.relink nofun

theorem registerContext (name : String) (context : ContextId) :
    (Act.registerContext name context : Act κ _).Subscribes := by
  refine .bind (of_touches (F := [.namedContexts]) (C := [])
    (.update fun s => .put s .namedContexts _ (by decide)) (by decide)) fun _ => .bind .scene fun s => ?_
  exact .each _ fun w => .bind (bindContext _ _) fun _ => .pure _

theorem resolveWaiting : (Act.resolveWaiting : Act κ _).Subscribes := by
  refine .bind .scene fun s => .each _ fun w => .bind .scene fun s => ?_
  split
  · exact .bind (bindContext _ _) fun _ => .pure _
  · exact .pure _

theorem instantiate (x : NodeId) (d : Definition κ) (owner : Option ComponentId) :
    (Act.instantiate x d owner : Act κ _).Subscribes := by
  refine .bind .scene fun s => .bind (update fun s subscribed => ?_) fun _ => ?_
  · refine subscribed.of_bound rfl fun other context bound => ?_
    have here : ({ s with components := s.components.push (.new d x owner) } : Scene κ).component?
        other = if other.index = s.components.size then some (.new d x owner) else
          s.component? other := Arena.get?_push _ _ _
    rw [Scene.boundContext?, here] at bound
    split at bound
    · cases bound
    · exact bound
  · refine .bind (of_touches (.setStage _ _) (by decide)) fun _ => ?_
    refine .bind (of_touches (.tellParts _ _) (by decide)) fun _ => ?_
    exact .bind (of_touches (.runHook _ _ _) (by decide)) fun _ => .pure _

theorem createElement (tag : String) : (Act.createElement tag : Act κ _).Subscribes := by
  have edit (d : Document) : (Act.edit fun _ => d : Act κ Unit).Subscribes :=
    update fun s subscribed => subscribed.of_bound rfl fun _ _ bound => bound
  exact Leads.composes.createElement edit instantiate tag

theorem configure (id : ComponentId) : (Act.configure id : Act κ _).Subscribes := by
  refine .withComponent fun c => .ite (.bind .scene fun s => ?_) (.pure _)
  refine .bind (.each _ fun _ => of_touches (.configureAttribute _ _ _ _) (by decide)) fun _ => ?_
  refine .bind (of_touches (.setStage _ _) (by decide)) fun _ => ?_
  refine .bind (.each _ fun _ => of_touches (.reflectDefault _ _ _) (by decide)) fun _ => ?_
  exact resolveContext id

theorem connect (id : ComponentId) : (Act.connect id : Act κ _).Subscribes :=
  closed.connect createElement configure id

theorem request (r : Request κ) : r.act.Subscribes := by
  cases r with
  | register d =>
    have noted (fault : Fault) : (Act.note none fault : Act κ _).Subscribes :=
      of_touches (.note _ _) (by decide)
    have defined (e : Definition κ) : (Act.update fun s : Scene κ => { s with
        definitions := s.definitions.insert e.tag e
        waiting := s.waiting.erase e.tag }).Subscribes :=
      update fun s subscribed => subscribed.of_bound rfl fun _ _ bound => bound
    exact Leads.composes.register connect d noted (fun _ => defined _)
      (fun k => of_touches (.registered k) (by decide)) fun x _ owner => instantiate x _ owner
  | createElement tag => exact createElement tag
  | appendChild parent child => exact closed.appendChild createElement configure parent child
  | finishLoading => exact closed.finishLoading createElement configure resolveWaiting
  | createContext fields => exact createContext fields
  | registerContext name context => exact registerContext name context
  | setContextField context path v => exact setContextField context path v
  | bindContext id context => exact bindContext id context
  | unbindContext id => exact unbindContext id
  | _ =>
    refine of_touches (.request _) ?_
    dsimp only [Touches.requested]
    decide

theorem call (c : Call κ) : c.Leads ⊤ Scene.Subscribes := by
  cases c with
  | write id name v origin => exact write id name v origin
  | connect id => exact connect id
  | release id => exact of_touches (.release id) (by decide)
  | service x id arguments => exact of_touches (.service x id arguments) (by decide)
  | deliver x e => exact of_touches (.deliver x e) (by decide)
  | callback k o => trivial
  | apply f arguments => trivial

end Act.Subscribes

/-- A component that is bound to a context is in its list of subscribers, once. -/
theorem subscribed_of_reachable (env : Environment κ σ) {w : World κ σ} (reached : env.Reachable w)
    {id : ComponentId} {context : ContextId} (bound : w.scene.boundContext? id = some context) :
    ∃ c, w.scene.contextAt? context = some c ∧ c.subscribers.count id = 1 := by
  have subscribed : w.scene.Subscribed := reached.invariant Act.Subscribes.call
    Act.Subscribes.request Scene.subscribed_ofConfig fun _ _ holds keeps => keeps holds
  obtain ⟨c, found, listed⟩ := subscribed.listed id context bound
  exact ⟨c, found, List.count_eq_one_of_mem (subscribed.distinct context c found) listed⟩

def readable : Script Empty Unit ContextId := do
  let _ ← Script.request (.register (Declaration.define {
    tag := "x-a"
    properties := [.ofKind "name" .string] }))
  let x ← Script.request (.createElement "x-a")
  let _ ← Script.request (.setAttribute x "name" "\x7b\x7bname\x7d\x7d")
  Script.request (.createContext [("name", .string "Ada")])

def reading : Script Empty Unit Bool := do
  let context ← readable
  Script.request (.bindContext ⟨0⟩ context)

theorem subscribed_of_reachable_reading : ∃ w c,
    silent.play 20 reading ⟨.ofConfig {} none, ()⟩ = some (true, w) ∧
      w.scene.boundContext? ⟨0⟩ = some ⟨0⟩ ∧ w.scene.contextAt? ⟨0⟩ = some c ∧
      c.subscribers.count ⟨0⟩ = 1 := by
  have answered : (silent.play 20 reading ⟨.ofConfig {} none, ()⟩).map
      (fun r => decide (r.1 = true ∧ r.2.scene.boundContext? ⟨0⟩ = some ⟨0⟩)) = some true := by
    decide +kernel
  obtain ⟨⟨_, w⟩, played, same⟩ := Option.map_eq_some_iff.mp answered
  obtain ⟨rfl, bound⟩ := of_decide_eq_true same
  have reached : silent.Reachable w := (Environment.Reachable.start _ none ()).play reading played
  obtain ⟨c, there, once⟩ := subscribed_of_reachable silent reached bound
  exact ⟨w, c, played, bound, there, once⟩

end LiveTree
