import LiveTree.Proofs.Contract.Outline
import LiveTree.Proofs.Holding
import LiveTree.Proofs.Reachable

/-! What a write dispatches by itself. A write that changed a property which notifies announces the
change by one event if the component is settled, and all other writes dispatch nothing. What its
handlers, bindings and contexts dispatch or write meanwhile counts as theirs. -/
namespace LiveTree
variable {κ σ α : Type}

def Step.news (id : ComponentId) (name : String) : Step κ σ → List (Value × Value)
  | .answer (.write other key _ _) before (.ok true) after =>
    if other = id ∧ key = name then
      [(before.scene.property id name, after.scene.property id name)]
    else []
  | _ => []

def Step.dispatched : Step κ σ → List (NodeId × Event)
  | .answer (.deliver x e) _ _ _ => [(x, e)]
  | _ => []

def History.news (id : ComponentId) (name : String) (h : History κ σ) : List (Value × Value) :=
  h.flatMap (Step.news id name)

def History.dispatched (h : History κ σ) : List (NodeId × Event) := h.flatMap Step.dispatched

theorem History.dispatched_append (h k : History κ σ) :
    (h ++ k).dispatched = h.dispatched ++ k.dispatched := List.flatMap_append

theorem History.dispatched_change (h : History κ σ) (s t : Scene κ) :
    (h ++ [Step.change s t]).dispatched = h.dispatched :=
  (dispatched_append _ _).trans (List.append_nil _)

structure Scene.Stays (id : ComponentId) (s t : Scene κ) : Prop where
  config : t.config = s.config
  node : ∀ c, s.component? id = some c → ∃ d, t.component? id = some d ∧ d.node = c.node

namespace Scene.Stays
variable {id : ComponentId} {s t u : Scene κ}

theorem of_alike {F : List Field} (alike : s.Alike F t) : s.Stays id t where
  config := alike.config
  node c found := by
    obtain ⟨d, there, same⟩ := alike.component id c found
    exact ⟨d, there, same.node⟩

theorem refl (s : Scene κ) : s.Stays id s := .of_alike (.refl (F := []) s)

theorem trans (first : s.Stays id t) (second : t.Stays id u) : s.Stays id u where
  config := second.config.trans first.config
  node c found := by
    obtain ⟨d, there, same⟩ := first.node c found
    obtain ⟨e, later, same'⟩ := second.node d there
    exact ⟨e, later, same'.trans same⟩

instance : IsPreorder (Scene κ) (Scene.Stays id) where
  refl := refl
  trans _ _ _ := trans

end Scene.Stays

theorem stays_of_answer (env : Environment κ σ) (id : ComponentId) {fuel : Nat} {c : Call κ}
    {w w' : World κ σ} {a : c.Answer} (answered : env.answer fuel c w = some (a, w')) :
    w.scene.Stays id w'.scene :=
  have follows (F : List Field) (s t : Scene κ) (alike : s.Alike F t) :
      (⊤ : Scene κ → Scene κ → Prop) s t ∧ s.Stays id t := ⟨trivial, .of_alike alike⟩
  env.answer_leads (Call.leads_of_alike follows)
    (fun r => (Act.Touches.request r).leads follows) answered

def Announcing (κ σ : Type) (id : ComponentId) (name : String) : Contract κ σ where
  given _ _ := True
  safe _ _ := True
  before _ p := p.scene.Busy id name
  after _ p _ q := q.past = p.past ∧ q.scene.held? id name = p.scene.held? id name ∧
    p.scene.Stays id q.scene

namespace Announcing
variable {id : ComponentId} {name : String} {p q r : Point κ σ}

theorem calls (env : Environment κ σ) (fuel : Nat) (c : Call κ) (p : Point κ σ)
    (busy : p.scene.Busy id name) : (Announcing κ σ id name).Fulfils p
      ⟨[], env.answer fuel c p.world⟩ ((Announcing κ σ id name).after c p) := by
  refine fun _ => ⟨trivial, fun a w answered => ⟨List.append_nil _, ?_, ?_⟩⟩
  · have kept := Environment.meets (Guarded.meets env id name) fuel c p busy
      (Along.iff_splits.mpr fun _ _ _ _ => trivial)
    exact (kept.2 a w ((env.result_trace fuel c p.world).trans answered)).1
  · exact stays_of_answer env id answered

structure Silent (id : ComponentId) (name : String) (p q : Point κ σ) : Prop where
  dispatched : q.past.dispatched = p.past.dispatched
  held : q.scene.held? id name = p.scene.held? id name
  stays : p.scene.Stays id q.scene

theorem Silent.refl (p : Point κ σ) : Silent id name p p := ⟨rfl, rfl, .refl _⟩

theorem Silent.trans (first : Silent id name p q) (second : Silent id name q r) :
    Silent id name p r :=
  ⟨second.dispatched.trans first.dispatched, second.held.trans first.held,
    first.stays.trans second.stays⟩

theorem wp_silent {F : List Field} {C : List Call.Kind} {m : Act κ α} (touches : m.Touches F C)
    (out : .values ∉ F ∧ .deliver ∉ C) (busy : p.scene.Busy id name) :
    m.wp (Announcing κ σ id name) (fun _ q => Silent id name p q) p := by
  refine Act.wp_of_within (I := fun q => Silent id name p q) ?_ ?_ (.refl p) (touches p.scene)
  · intro q t silent alike
    refine ⟨trivial, fun _ => silent.trans ⟨?_, ?_, .of_alike alike⟩⟩
    · exact History.dispatched_change _ _ _
    · exact Leaves.of_alike alike out.1 (busy.of_held? silent.held)
  · intro c q silent kind
    refine ⟨busy.of_held? silent.held, fun a r after => ⟨trivial, fun _ => silent.trans ?_⟩⟩
    obtain ⟨past, held, stays⟩ := after
    refine ⟨?_, held, stays⟩
    have still : (Step.answer c q.world a r.world).dispatched = [] := by
      cases c with
      | deliver x e => exact absurd kind out.2
      | _ => rfl
    change (r.past ++ [Step.answer c q.world a r.world]).dispatched = q.past.dispatched
    rw [History.dispatched_append, past]
    simp [History.dispatched, still]

structure Reached (id : ComponentId) (name : String) (p : Point κ σ) (v : Value)
    (events : List (NodeId × Event)) (q : Point κ σ) : Prop where
  dispatched : q.past.dispatched = p.past.dispatched ++ events
  held : q.scene.held? id name = some (v, true)
  stays : p.scene.Stays id q.scene

namespace Reached
variable {v : Value} {events : List (NodeId × Event)}

theorem busy (reached : Reached id name p v events q) : q.scene.Busy id name :=
  (Scene.busy_iff_of_held? reached.held).mpr rfl

theorem silently (reached : Reached id name p v events q) {F : List Field} {C : List Call.Kind}
    {m : Act κ α} (touches : m.Touches F C) (out : .values ∉ F ∧ .deliver ∉ C) :
    m.wp (Announcing κ σ id name) (fun _ r => Reached id name p v events r) q := by
  refine Act.wp_mono m (fun _ r silent => ?_) (wp_silent touches out reached.busy)
  exact ⟨silent.dispatched.trans reached.dispatched, silent.held.trans reached.held,
    reached.stays.trans silent.stays⟩

end Reached

def tidings (x : NodeId) (p : Property) (old v : Value) : NodeId × Event :=
  (x, .changed p.attributeName x old v)

section Writing
variable {prop : Property} {c : Component κ} {x : NodeId} {old v : Value} {origin : Origin}
  {slot : Slot}

theorem wp_announce {events : List (NodeId × Event)} (reached : Reached id name p v events q)
    (told : p.scene.config.changeEvents = true) : (Act.announce x prop old v).wp
      (Announcing κ σ id name) (fun _ r => Reached id name p v (events ++ [tidings x prop old v]) r) q := by
  unfold Act.announce
  rw [Act.wp_bind, Act.wp_scene, reached.stays.config, told]
  refine ⟨reached.busy, fun a r after => ⟨trivial, fun _ => ?_⟩⟩
  obtain ⟨past, held, stays⟩ := after
  refine ⟨?_, held.trans reached.held, reached.stays.trans stays⟩
  change (r.past ++ [Step.answer _ q.world a r.world]).dispatched = _
  rw [History.dispatched_append, past, reached.dispatched, List.append_assoc]
  rfl

/-- A committed change of a property that notifies is announced if the component is settled. -/
theorem wp_spread (notify : prop.notify = true) (told : p.scene.config.changeEvents = true)
    (reached : Reached id name p v [] q) :
    (Act.spread id prop c slot old v origin).wp (Announcing κ σ id name) (fun _ r =>
      ∃ events, Reached id name p v events r ∧
        (r.scene.isSettled id = true → events = [tidings c.node prop old v])) q := by
  unfold Act.spread
  extract_lets bound written pushed announced toldOf
  have writing (events) (u) (r) (reached : Reached id name p v events r) :
      (written u).wp (Announcing κ σ id name) (fun _ t => Reached id name p v events t) r := by
    unfold written
    split
    · exact reached.silently (.writeBackProperty _ _) (by decide)
    · exact reached
  have pushing (events) (u) (r) (reached : Reached id name p v events r) :
      (pushed u).wp (Announcing κ σ id name) (fun _ t => Reached id name p v events t) r := by
    unfold pushed
    split
    · refine (Act.wp_bind _ _).mpr ?_
      exact Act.wp_mono _ (fun u t reached => writing events u t reached)
        (reached.silently (.pushBound _ _) (by decide))
    · exact writing events () r reached
  have announcing (u) (r) (reached : Reached id name p v [] r) :
      (announced u).wp (Announcing κ σ id name)
        (fun _ t => Reached id name p v [tidings c.node prop old v] t) r := by
    unfold announced
    rw [notify]
    refine (Act.wp_bind _ _).mpr ?_
    exact Act.wp_mono _ (fun u t reached => pushing _ u t reached) (wp_announce reached told)
  have telling (u) (r) (reached : Reached id name p v [] r) :
      (toldOf u).wp (Announcing κ σ id name) (fun _ t => ∃ events, Reached id name p v events t ∧
        (t.scene.isSettled id = true → events = [tidings c.node prop old v])) r := by
    unfold toldOf
    rw [Act.wp_bind, Act.wp_scene]
    split
    · refine Act.wp_mono _ (fun _ t reached => ⟨_, reached, fun _ => rfl⟩) ?_
      split
      · refine (Act.wp_bind _ _).mpr ?_
        exact Act.wp_mono _ (fun u t reached => announcing u t reached)
          (reached.silently (.tellOfChange _ _ _ _) (by decide))
      · exact announcing () r reached
    · next unsettled => exact ⟨[], reached, fun settled => absurd settled unsettled⟩
  split
  · refine (Act.wp_bind _ _).mpr ?_
    exact Act.wp_mono _ (fun u t reached => telling u t reached)
      (reached.silently (.reflect _ _ _) (by decide))
  · exact telling () q reached

def Ended (id : ComponentId) (prop : Property) (x : NodeId) (old : Value) (busy : Bool)
    (p : Point κ σ) (r : Except Fault Bool) (q : Point κ σ) : Prop :=
  match r with
  | .ok true => ∃ v, q.scene.held? id prop.name = some (v, busy) ∧
      (q.scene.isSettled id = true →
        q.past.dispatched = p.past.dispatched ++ [tidings x prop old v])
  | _ => q.past.dispatched = p.past.dispatched

theorem wp_commit (notify : prop.notify = true) (told : p.scene.config.changeEvents = true)
    (there : p.scene.component? id = some c) (reached : Reached id prop.name p old [] q) :
    (Act.commit id prop old v origin).wp (Announcing κ σ id prop.name)
      (Ended id prop c.node old true p) q := by
  obtain ⟨d, here, node⟩ := reached.stays.node c there
  refine Act.wp_commit reached.held fun e slot same t put held => ⟨trivial, fun _ => ?_⟩
  cases here.symm.trans same
  have kept : q.scene.Stays id t := by
    rw [put]
    exact .of_alike (.modify (F := [.values]) _ _ fun c => .slotValues c _ fun _ => rfl)
  refine Act.wp_mono _ ?_ (wp_spread (p := p) notify told ⟨?_, held, reached.stays.trans kept⟩)
  · rintro _ r ⟨events, reached, news⟩
    refine ⟨v, reached.held, fun settled => ?_⟩
    rw [reached.dispatched, news settled, node]
  · exact (History.dispatched_change _ _ _).trans reached.dispatched

theorem wp_attempt (notify : prop.notify = true) (told : p.scene.config.changeEvents = true)
    (there : p.scene.component? id = some c) (reached : Reached id prop.name p old [] q) :
    (Act.attempt id prop v origin).wp (Announcing κ σ id prop.name)
      (Ended id prop c.node old true p) q := by
  refine Act.wp_attempt (R := Reached id prop.name p old []) (fun r => Reached.held) ?_ ?_
    (fun x r => wp_commit notify told there) reached
  · intro α F C m touches fields calls r reached
    exact reached.silently touches ⟨fun inside => by simpa using fields inside, calls⟩
  · intro a r reached failed
    unfold Ended
    split
    · exact absurd rfl failed
    · exact reached.dispatched.trans (List.append_nil _)

/-- To be settled does not depend on slots. -/
theorem isSettled_modifySlot (s : Scene κ) (id : ComponentId) (name : String) (f : Slot → Slot) :
    (s.modify id fun c => c.modifySlot name f).isSettled id = s.isSettled id := by
  have ready (owner : Option ComponentId) :
      (owner.bind (s.modify id fun c => c.modifySlot name f).component?).map Component.isReady =
        (owner.bind s.component?).map Component.isReady := by
    cases owner with
    | none => rfl
    | some other =>
      rw [Option.bind_some, Option.bind_some, Scene.component?_modify]
      split
      · rw [Option.map_map]
        rfl
      · rfl
  unfold Scene.isSettled
  rw [Scene.component?_modify, if_pos rfl, Option.any_map]
  simp only [ready]
  rfl

theorem Ended.freed {r : Except Fault Bool} (ended : Ended id prop x old true p r q) :
    Ended id prop x old false p r (q.change (q.scene.modify id fun c =>
      c.modifySlot prop.name fun slot => { slot with busy := false })) := by
  unfold Ended at ended ⊢
  rw [Point.change, History.dispatched_change]
  split at ended
  · obtain ⟨v, held, news⟩ := ended
    refine ⟨v, Scene.freed held, fun settled => news ?_⟩
    rwa [Point.scene, isSettled_modifySlot] at settled
  · exact ended

theorem wp_write (notify : prop.notify = true) (told : p.scene.config.changeEvents = true)
    (there : p.scene.component? id = some c) (declared : c.schema.get? prop.name = some prop) :
    (Act.write id prop.name v origin).wp (Announcing κ σ id prop.name)
      (Ended id prop c.node (p.scene.property id prop.name) false p) p := by
  refine Act.wp_write_or rfl fun d _ slot here _ held idle => ?_
  cases there.symm.trans here
  have old : p.scene.property id prop.name = slot.value := Scene.property_of_held? (by
    rw [Scene.held?, Scene.slot?, there, Option.bind_some, held, Option.map_some])
  refine Act.wp_write there declared held idle fun t changed busy => ⟨trivial, fun _ => ?_⟩
  have start : Reached id prop.name p slot.value [] (p.change t) := by
    refine ⟨(History.dispatched_change _ _ _).trans (List.append_nil _).symm, busy, ?_⟩
    subst changed
    exact .of_alike (.modify (F := [.values]) _ _ fun c => .slotValues c _ fun _ => rfl)
  rw [old]
  exact Act.wp_mono _ (fun a r ended => ⟨trivial, fun _ => ended.freed⟩)
    (wp_attempt notify told there start)

end Writing
end Announcing

/-- What a write to a property that notifies dispatches by itself is the news of its change. -/
theorem Environment.dispatched_of_write (env : Environment κ σ) {fuel : Nat} {id : ComponentId}
    {p : Property} {v : Value} {origin : Origin} {before after : World κ σ} {a : Except Fault Bool}
    (ended : (env.outline fuel (Act.write id p.name v origin) before).result = some (a, after))
    {c : Component κ} (there : before.scene.component? id = some c)
    (declared : c.schema.get? p.name = some p) (notify : p.notify = true)
    (told : before.scene.config.changeEvents = true) (settled : after.scene.isSettled id = true) :
    (env.outline fuel (Act.write id p.name v origin) before).steps.dispatched =
      ((Step.answer (.write id p.name v origin) before a after).news id p.name).map fun n =>
        (c.node, .changed p.attributeName c.node n.1 n.2) := by
  have kept : (Announcing κ σ id p.name).Fulfils ⟨[], before⟩
      (env.outline fuel (Act.write id p.name v origin) before)
      (Announcing.Ended id p c.node (before.scene.property id p.name) false ⟨[], before⟩) :=
    Act.fulfils (Announcing.calls env fuel) _ (Announcing.wp_write notify told there declared)
  have reached := (kept (Along.iff_splits.mpr fun _ _ _ _ => trivial)).2 a after ended
  cases a with
  | error fault => exact reached
  | ok changed =>
    cases changed with
    | false => exact reached
    | true =>
      obtain ⟨x, held, news⟩ := reached
      have value : after.scene.property id p.name = x := Scene.property_of_held? held
      simp only [Step.news, and_self, ↓reduceIte, List.map_cons, List.map_nil, value]
      exact news settled

end LiveTree
