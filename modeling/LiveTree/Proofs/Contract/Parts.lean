import LiveTree.Proofs.Contract.Invariant
import LiveTree.Proofs.Footprint.Acts

/-! Invariants and the acts that a write is made of. What a push, the news of a change, a validation and a
delivery need of their parts is said once here, whatever the invariant is and whichever calls may be made. -/
namespace LiveTree
variable {κ : Type} {I : Scene κ → Prop} {R : Scene κ → Scene κ → Prop} {A : Call κ → Prop} {s : Scene κ}

def Scene.bound? (s : Scene κ) (id : ComponentId) (site : Nat) (target : String) : Option (NodeId × Binding) := do
  let t ← (← s.component? id).bindings
  return ((← t.site? site).node, ← t.binding? site target)

theorem Scene.component_of_bound? {id : ComponentId} {site : Nat} {target : String} {x : NodeId} {b : Binding}
    (bound : s.bound? id site target = some (x, b)) :
    ∃ c t, s.component? id = some c ∧ c.bindings = some t ∧ (t.site? site).map Site.node = some x ∧
      t.binding? site target = some b := by
  obtain ⟨c, found, bound⟩ := Option.bind_eq_some_iff.mp bound
  obtain ⟨t, own, bound⟩ := Option.bind_eq_some_iff.mp bound
  obtain ⟨y, here, bound⟩ := Option.bind_eq_some_iff.mp bound
  obtain ⟨d, held, same⟩ := Option.bind_eq_some_iff.mp bound
  cases same
  exact ⟨c, t, found, own, by rw [here]; rfl, held⟩

theorem Scene.binding?_of_bound? {id : ComponentId} {site : Nat} {target : String} {x : NodeId} {b : Binding}
    (bound : s.bound? id site target = some (x, b)) :
    ∃ c, s.component? id = some c ∧ c.binding? site target = some b := by
  obtain ⟨c, t, found, own, -, held⟩ := s.component_of_bound? bound
  exact ⟨c, found, Option.bind_eq_some_iff.mpr ⟨t, own, held⟩⟩

namespace Act.Upholds
variable {id : ComponentId}

theorem notify {method : String} {arguments : List Value}
    (invoke : (Act.invoke id method arguments : Act κ _).Upholds I R A s)
    (note : ∀ failure, (Act.noteFailure id method failure : Act κ _).Upholds I R A s) :
    (Act.notify id method arguments : Act κ _).Upholds I R A s := by
  refine .bind invoke fun result => ?_
  split
  · exact .pure _
  · exact note _

theorem guarded {name : String} {k : κ} {o : Occasion} (callback : (Act.callback k o).Upholds I R A s)
    (note : ∀ failure, (Act.noteFailure id name failure : Act κ _).Upholds I R A s) :
    (Act.guarded id name k o).Upholds I R A s := by
  refine .bind callback fun result => ?_
  split
  · exact .pure _
  · exact note _

theorem validated {p : Property} {old v : Value}
    (invoke : ∀ method, p.validator = some method →
      (Act.invoke id method [old, v] : Act κ _).Upholds I R A s)
    (note : ∀ method failure, (Act.noteFailure id method failure : Act κ _).Upholds I R A s) :
    (Act.validated id p old v : Act κ _).Upholds I R A s := by
  unfold Act.validated
  split
  · exact .pure _
  · next method named =>
    refine .bind (invoke method named) fun result => ?_
    split
    · exact .pure _
    · exact .bind (note _ _) fun _ => .pure _

variable [IsPreorder (Scene κ) R]

theorem evaluate {source : Source} (invoke : ∀ t method arguments values, I t → R s t →
      source = .call method arguments → (Act.invoke id method values : Act κ _).Upholds I R A t) :
    (Act.evaluate id source : Act κ _).Upholds I R A s := by
  refine .sceneBind fun t holds since => ?_
  split
  · exact .pure _
  · exact .pure _
  · next method arguments =>
    refine .bind (invoke t method arguments _ holds since rfl) fun result => ?_
    split <;> exact .pure _

theorem installWriteBack {site : Nat} {x : NodeId} {b : Binding}
    (heard : ∀ t child, (Act.modify child fun c : Component κ => c.modifySlot b.target fun slot =>
      { slot with notify := true }).Upholds I R A t)
    (listen : ∀ t event, (Act.listen x event (.writeBack id site b.target) : Act κ _).Upholds I R A t)
    (noted : ∀ t l, (Act.modifyBinding id site b.target fun b => { b with listener := l } :
      Act κ _).Upholds I R A t) :
    (Act.installWriteBack id site x b : Act κ _).Upholds I R A s := by
  refine .sceneBind fun t _ _ => ?_
  split
  · exact .pure _
  · extract_lets installed
    have later (r) : (installed r).Upholds I R A t := .bind (listen t _) fun _ => noted t _
    split
    · exact .bind (heard t _) later
    · exact later ()

/-- The binding is looked up once, before anything is marked. -/
theorem push {site : Nat} {target : String}
    (install : ∀ t x b, I t → R s t → t.bound? id site target = some (x, b) →
      (Act.installWriteBack id site x b : Act κ _).Upholds I R A t)
    (mark : ∀ t {f : Binding → Binding}, (∀ b, (f b).still = b.still) →
      (Act.modifyBinding id site target f : Act κ _).Upholds I R A t)
    (evaluate : ∀ t x b, I t → R s t → t.bound? id site target = some (x, b) →
      (Act.evaluate id b.source : Act κ _).Upholds I R A t)
    (assign : ∀ t x b v, I t → R s t → t.bound? id site target = some (x, b) →
      (Act.assign x b v : Act κ _).Upholds I R A t) :
    (Act.push id site target : Act κ _).Upholds I R A s := by
  refine .sceneBind fun t holds since => ?_
  extract_lets found
  cases here : found with
  | none => exact .pure _
  | some y =>
    obtain ⟨x, b⟩ := y
    refine .ite (fun _ => .pure _) fun _ => ?_
    extract_lets ready marked
    have pushing (r) : (ready r).Upholds I R A t := by
      refine .bind (evaluate t x b holds since here) fun v => .ite (fun _ => .pure _) fun _ => ?_
      refine .bind (mark t fun _ => rfl) fun _ => .bind (assign t x b _ holds since here) fun _ => ?_
      exact mark t fun _ => rfl
    have marking (r) : (marked r).Upholds I R A t := .bind (mark t fun _ => rfl) pushing
    refine .ite (fun _ => .ite (fun _ => ?_) fun _ => marking ()) fun _ => pushing ()
    exact .bind (install t x b holds since here) marking

theorem tellOfChange {p : Property} {old new : Value}
    (mark : ∀ t (f : Component κ → Bool),
      (Act.modify id fun c : Component κ => { c with changing := f c }).Upholds I R A t)
    (hook : ∀ t c k, I t → R s t → t.component? id = some c → c.definition.hooks.changed = some k →
      (Act.guarded id "property_changed" k (.change id p.name old new)).Upholds I R A t)
    (observer : ∀ t method, I t → R s t → p.observer = some method →
      (Act.notify id method [old, new] : Act κ _).Upholds I R A t)
    (watcher : ∀ t c x, I t → R s t → t.component? id = some c → c.watcher = some x →
      (Act.callback x.callback (.change id p.name old new)).Upholds I R A t) :
    (Act.tellOfChange id p old new : Act κ _).Upholds I R A s := by
  refine .withComponent fun t c holds since found => .bind (mark t _) fun _ => ?_
  extract_lets restored watched observed
  have restoring (r) : (restored r).Upholds I R A t := mark t _
  have watching (r) : (watched r).Upholds I R A t := by
    unfold watched
    split
    · next x named =>
      have own : c.watcher = some x := (Option.filter_eq_some_iff.mp named).1
      exact .bind (watcher t c x holds since found own) fun _ => restoring ()
    · exact restoring ()
  have observing (r) : (observed r).Upholds I R A t := by
    unfold observed
    split
    · next method named => exact .bind (observer t method holds since named) watching
    · exact watching ()
  split
  · next k set => exact .bind (hook t c k holds since found set) observing
  · exact observing ()

/-- An event that does not bubble is heard where it is. -/
theorem deliver {x : NodeId} {e : Event} (stays : e.bubbles = false)
    (hear : ∀ t i l e, I t → R s t → t.listeners.get? i = some (some l) → (Act.hear l e).Upholds I R A t) :
    (Act.deliver x e : Act κ _).Upholds I R A s := by
  unfold Act.deliver
  extract_lets e'
  have stays' : ¬e'.bubbles = true := by simpa [e'] using stays
  refine .sceneBind fun t holds since => .bind (.each _ fun id => ?_) fun _ => ?_
  · refine .sceneBind fun u holds since' => ?_
    split
    · next l found =>
      exact hear u _ l _ holds (IsTrans.trans _ _ _ since since') (Option.join_eq_some_iff.mp found)
    · exact .pure _
  · exact .sceneBind fun u _ _ => .ite (fun bubbles => absurd bubbles stays') fun _ => .pure _

end Act.Upholds
end LiveTree
