import LiveTree.Proofs.Listening.Life
import LiveTree.Proofs.Readiness

/-! Listening is exact. Provided that no callback moves components, that nobody else removes listeners
that the tree added and that the component is not configured a second time, a component has between
operations one listener for each of its event handlers while it is attached and none at other times,
and it listens for what its two-way bindings write back, for nothing less and nothing more. -/
namespace LiveTree
variable {κ σ α : Type} {id : ComponentId}

def Request.moves : Request κ → Bool
  | .appendChild .. | .removeChild .. => true
  | _ => false

def Script.Asks (allowed : Request κ → Prop) : Script κ σ α → Prop
  | done _ => True
  | look next => ∀ s store, (next s store).Asks allowed
  | keep _ next => next.Asks allowed
  | ask r next => allowed r ∧ ∀ a, (next a).Asks allowed

namespace Keeping
open Act
variable {p : Point κ σ}

theorem wp_unlisten (kept : p.scene.Kept id) (x : NodeId) (event : String) (l : ListenerId)
    (foreign : p.scene.own? l = none) : (Act.unlisten x event l).wp (Keeping σ id) (fun _ q =>
      q.scene.Kept id ∧ p.scene.Since id q.scene) p := by
  refine Keeping.takes ?_
  refine kept.of_quiet rfl (fun other => ?_) (Nat.le_of_eq (Arena.size_modify _ _ _).symm)
  refine (Scene.own?_remove (s := p.scene) rfl other).trans ?_
  split
  · next same => rw [same, foreign]
  · rfl

theorem wp_request (kept : p.scene.Kept id) (r : Request κ)
    (regular : Regular id p.past (.request r p.scene : Step κ σ)) :
    r.act.wp (Keeping σ id) (fun _ q => q.scene.Kept id ∧ p.scene.Maintains id q.scene ∧
      (r.moves = false → p.scene.Since id q.scene)) p := by
  have calm {β : Type} {m : Act κ β} (tends : m.Tends id (Scene.Since id)) :
      m.wp (Keeping σ id) (fun _ q => q.scene.Kept id ∧ p.scene.Maintains id q.scene ∧
        (r.moves = false → p.scene.Since id q.scene)) p :=
    wp_mono m (fun _ _ ended => ⟨ended.1, ended.2.toMaintains, fun _ => ended.2⟩) (tends σ p kept)
  cases r with
  | register d => exact calm (.register d)
  | addCapability tag c => exact calm (.addCapability tag c)
  | createElement tag => exact calm (.createElement tag)
  | appendChild parent child =>
    refine wp_mono _ ?_ (Tends.appendChild parent child σ p kept)
    exact fun _ _ ended => ⟨ended.1, ended.2, Bool.noConfusion⟩
  | removeChild parent child =>
    refine wp_mono _ ?_ (Tends.removeChild parent child σ p kept)
    exact fun _ _ ended => ⟨ended.1, ended.2, Bool.noConfusion⟩
  | finishLoading => exact calm .finishLoading
  | refresh whose => exact calm (.refresh whose)
  | listen x event k => exact calm (.listen x event k)
  | unlisten x event l =>
    refine wp_mono _ ?_ (wp_unlisten kept x event l (Option.isNone_iff_eq_none.mp (regular l rfl)))
    exact fun _ _ ended => ⟨ended.1, ended.2.toMaintains, fun _ => ended.2⟩
  | registerContext name context => exact calm (.registerContext name context)
  | bindContext whose context => exact calm (.bindContext whose context)
  | unbindContext whose => exact calm (.unbindContext whose)
  | addBinding whose expression target stableId => exact calm (.addBinding _ _ _ _)
  | removeBinding whose expression target stableId => exact calm (.removeBinding _ _ _ _)
  | _ =>
    refine calm (.of_touches (.request _) ?_)
    dsimp only [Touches.requested]
    decide

end Keeping

namespace Script

/-- Whatever is asked for leaves the books in order, and listening as exact as it was. -/
theorem wp_maintaining (m : Script κ σ α) {p : Point κ σ} (kept : p.scene.Kept id) :
    m.wp (Keeping σ id) (fun _ q => q.scene.Kept id ∧ p.scene.Maintains id q.scene) p := by
  refine wp_of_requests (I := fun q => q.scene.Kept id ∧ p.scene.Maintains id q.scene)
    (fun _ _ here => here) (fun r q here => ⟨trivial, fun regular => ?_⟩) m ⟨kept, Std.Refl.refl _⟩
  refine Act.wp_mono _ (fun _ _ ended => ⟨ended.1, ?_⟩)
    (Keeping.wp_request (p := q.request r) here.1 r regular)
  exact IsTrans.trans _ _ _ here.2 ended.2.1

/-- Code that moves nothing leaves the stage of the component as it is while it is called. -/
theorem wp_staying (m : Script κ σ α) (still : m.Asks fun r => r.moves = false) {p : Point κ σ}
    (kept : p.scene.Kept id) :
    m.wp (Keeping σ id) (fun _ q => q.scene.Kept id ∧ p.scene.Since id q.scene) p := by
  induction m generalizing p with
  | done a => exact ⟨kept, Std.Refl.refl _⟩
  | look next ih => exact ih _ _ (still _ _) kept
  | keep store next ih => exact ih (p := p.keep store) still kept
  | ask r next ih =>
    refine ⟨trivial, fun regular => ?_⟩
    refine Act.wp_mono _ (fun a q ended => ?_) (Keeping.wp_request (p := p.request r) kept r regular)
    refine wp_mono _ (fun _ _ rest => ⟨rest.1, ?_⟩) (ih a (still.2 a) ended.1)
    exact IsTrans.trans _ _ _ (ended.2.2 still.1) rest.2

end Script

theorem Keeping.meets (env : Environment κ σ)
    (still : ∀ k o, (env.script k o).Asks fun r => r.moves = false) : env.Meets (Keeping σ id) := by
  intro c p kept
  cases c with
  | write whose name v origin => exact Act.Tends.write whose name v origin σ p kept
  | connect whose => exact Act.Tends.connect whose σ p kept
  | release whose => exact Act.Tends.release whose σ p kept
  | service x whose arguments => exact Act.Tends.service x whose arguments σ p kept
  | deliver x e => exact Act.Tends.deliver x e σ p kept
  | callback k o => exact Script.wp_staying _ (still k o) kept
  | apply f arguments => exact ⟨kept, Std.Refl.refl _⟩

namespace Scene

theorem kept_ofConfig (config : Config) (journal : Option Journal) :
    (ofConfig config journal : Scene κ).Kept id := by
  have missing (other : ComponentId) (c : Component κ)
      (found : (ofConfig config journal : Scene κ).component? other = some c) : False := by
    cases found
  have unlisted (other : ComponentId) (e : Entry) :
      (ofConfig config journal : Scene κ).entries other e = [] := rfl
  have untied (other : ComponentId) : (ofConfig config journal : Scene κ).ties other = [] := rfl
  refine ⟨⟨fun other e l listed => ?_, fun e l k own => ?_, fun e => ?_, fun other l listed => ?_⟩,
    fun other c found => (missing other c found).elim, fun o found => ?_, fun o found => ?_⟩
  · rw [unlisted] at listed
    cases listed
  · cases own
  · rw [unlisted]
    exact List.nodup_nil
  · rw [untied] at listed
    cases listed
  all_goals cases found

theorem exact_ofConfig (config : Config) (journal : Option Journal) :
    (ofConfig config journal : Scene κ).Exact id := by
  intro o found
  cases found

end Scene

section Between
variable {env : Environment κ σ} (still : ∀ k o, (env.script k o).Asks fun r => r.moves = false)
  {fuel : Nat} {m : Script κ σ α} {config : Config} {journal : Option Journal} {store : σ}
  {a : α} {w : World κ σ} (played : env.play fuel m ⟨.ofConfig config journal, store⟩ = some (a, w))
  (regular : Along (Regular id) [] (env.record fuel m ⟨.ofConfig config journal, store⟩).steps)
  {c : Component κ} (found : w.scene.component? id = some c)
include still played regular

theorem Scene.kept_of_play : w.scene.Kept id ∧ w.scene.Exact id := by
  have meets : env.Meets (Keeping σ id) := Keeping.meets env still
  have fulfils := Environment.record_fulfils (p := ⟨[], ⟨.ofConfig config journal, store⟩⟩) meets
    fuel m (Script.wp_maintaining m (Scene.kept_ofConfig config journal))
  have ended := (env.result_record fuel m ⟨.ofConfig config journal, store⟩).trans played
  obtain ⟨kept, maintains⟩ := (fulfils regular).2 a w ended
  exact ⟨kept, maintains.exact (Scene.exact_ofConfig config journal)⟩

include found

/-- The live listeners of a component's event handlers are those in its wiring, each of them once.
While it is attached these are one for each handler, at its node and for its event, and at other times
there are none. -/
theorem wiring_of_play :
    (∀ l, (∃ method, w.scene.listener? l = some (.handler id method)) ↔ l ∈ c.wired.map (·.2.2)) ∧
      (c.wired.map (·.2.2)).Nodup ∧
      if c.stage = .attached then List.Forall₂ (fun wired wanted => wired.1 = wanted.1 ∧
        wired.2.1 = wanted.2.1 ∧ w.scene.listener? wired.2.2 = some (.handler id wanted.2.2))
          c.wired (Act.subscriptionsOf c)
      else c.wired = [] := by
  obtain ⟨kept, exact⟩ := Scene.kept_of_play still played regular
  have own {l : ListenerId} {method : String} :
      w.scene.own? l = some (.handler id method) ↔ w.scene.listener? l = some (.handler id method) :=
    Scene.own?_eq_some rfl
  have listed : w.scene.entries id .wiring = c.wired.map (·.2.2) := by
    rw [Scene.entries, found]
    rfl
  refine ⟨fun l => ⟨?_, fun inside => ?_⟩, listed ▸ kept.booked.distinct .wiring, ?_⟩
  · rintro ⟨method, here⟩
    rw [← listed]
    exact kept.booked.complete .wiring l _ (own.mpr here) rfl
  · rw [← listed] at inside
    obtain ⟨k, alive, belongs⟩ := kept.booked.kept id .wiring l inside
    obtain ⟨method, rfl⟩ := k.eq_handler belongs
    exact ⟨method, own.mp alive⟩
  · have now := exact c.outlet (congrArg (Option.map Component.outlet) found)
    split at now
    · next attached =>
      refine (if_pos (attached : c.stage = .attached)).mpr ?_
      exact now.imp fun _ _ same => ⟨same.1, same.2.1, own.mp same.2.2⟩
    · next other => exact (if_neg (other : c.stage ≠ .attached)).mpr now

/-- The live listeners that write back through a component's bindings are those that the bindings have
on record. A pushed binding of a property or an event that goes both ways has one, and the component
knows which properties its bindings read. -/
theorem writeBacks_of_play :
    (∀ l i target, w.scene.listener? l = some (.writeBack id i target) ↔
      ∃ b x event, c.binding? i target = some b ∧ b.listener = some (x, event, l)) ∧
      (∀ i target b, c.binding? i target = some b → b.ready = true → b.Listens →
        b.listener.isSome = true) ∧
      c.boundProperties = (c.bindings.map BindingTree.dependencies).getD [] := by
  obtain ⟨kept, -⟩ := Scene.kept_of_play still played regular
  have own {l : ListenerId} {i : Nat} {target : String} : w.scene.own? l = some (.writeBack id i target) ↔
      w.scene.listener? l = some (.writeBack id i target) := Scene.own?_eq_some rfl
  have listed (i target) : w.scene.entries id (.binding i target) =
      c.entries (.binding i target) := by
    rw [Scene.entries, found]
    rfl
  have recorded {l : ListenerId} {i : Nat} {target : String} : l ∈ c.entries (.binding i target) ↔
      ∃ b x event, c.binding? i target = some b ∧ b.listener = some (x, event, l) := by
    simp [Component.entries, Option.bind_eq_some_iff]
  refine ⟨fun l i target => ?_, fun i target b held ready listens => ?_, (kept.coherent id c found).1⟩
  · rw [← own, ← recorded, ← listed]
    constructor
    · exact fun here => kept.booked.complete _ l _ here rfl
    · intro inside
      obtain ⟨k, alive, belongs⟩ := kept.booked.kept id _ l inside
      rwa [k.eq_writeBack belongs] at alive
  · exact ((kept.coherent id c found).2 i target b held).ready ready listens

end Between

def returning : Script Empty Unit Unit := do
  let _ ← Script.request (.register (Declaration.define {
    tag := "x-box"
    properties := [.ofKind "name" .string]
    template := some "<input value=\"\x7b\x7bname::change\x7d\x7d\" (focus)=\"look\">"
    subscriptions := [("click", "go")] }))
  let x ← Script.request (.createElement "x-box")
  Script.request (.appendChild Document.root x)
  let _ ← Script.request (.removeChild Document.root x)
  Script.request (.appendChild Document.root x)

theorem still_silent (k : Empty) (o : Occasion) : (silent.script k o).Asks fun r => r.moves = false :=
  k.elim

set_option maxRecDepth 100000 in
theorem regular_returning :
    Along (Regular ⟨0⟩) [] (silent.record 20 returning ⟨.ofConfig {} none, ()⟩).steps := by
  decide +kernel

set_option maxRecDepth 100000 in
theorem wiring_of_play_returning : ∃ w c,
    silent.play 20 returning ⟨.ofConfig {} none, ()⟩ = some ((), w) ∧
      w.scene.component? ⟨0⟩ = some c ∧ c.stage = .attached ∧ c.wired.length = 2 ∧
      (∀ l, (∃ method, w.scene.listener? l = some (.handler ⟨0⟩ method)) ↔
        l ∈ c.wired.map (·.2.2)) := by
  have ended : (silent.play 20 returning ⟨.ofConfig {} none, ()⟩).map (fun r =>
      (r.2.scene.component? ⟨0⟩).map fun c => (c.stage, c.wired.length)) =
        some (some (.attached, 2)) := by
    decide +kernel
  obtain ⟨⟨_, w⟩, played, there⟩ := Option.map_eq_some_iff.mp ended
  obtain ⟨c, found, same⟩ := Option.map_eq_some_iff.mp there
  obtain ⟨attached, two⟩ := Prod.mk.inj same
  exact ⟨w, c, played, found, attached, two,
    (wiring_of_play still_silent played regular_returning found).1⟩

set_option maxRecDepth 100000 in
theorem writeBacks_of_play_returning : ∃ w c b,
    silent.play 20 returning ⟨.ofConfig {} none, ()⟩ = some ((), w) ∧
      w.scene.component? ⟨0⟩ = some c ∧ c.binding? 1 "value" = some b ∧ b.ready = true ∧
      b.Listens ∧ b.listener.isSome = true := by
  have ended : ((silent.play 20 returning ⟨.ofConfig {} none, ()⟩).any fun r =>
      (r.2.scene.component? ⟨0⟩).any fun c => (c.binding? 1 "value").any fun b =>
        b.ready ∧ b.Listens) = true := by
    decide +kernel
  obtain ⟨⟨_, w⟩, played, there⟩ := (Option.any_eq_true _ _).mp ended
  obtain ⟨c, found, bound⟩ := (Option.any_eq_true _ _).mp there
  obtain ⟨b, held, pushed⟩ := (Option.any_eq_true _ _).mp bound
  obtain ⟨ready, listens⟩ := of_decide_eq_true pushed
  exact ⟨w, c, b, played, found, held, ready, listens,
    (writeBacks_of_play still_silent played regular_returning found).2.1 1 "value" b held ready listens⟩

end LiveTree
