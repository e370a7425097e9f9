import LiveTree.Proofs.Cascade.Acts
import LiveTree.Proofs.Contract.Serving

/-! Cascades of writes end. While a write is under way its slot takes no other, so that each nested
write has fewer slots left, and from one write to the next there are at most two other calls. -/
namespace LiveTree
variable {κ σ α : Type} {env : Environment κ σ} {fuel k r : Nat} {w : World κ σ}

theorem Scene.admits_iff {s : Scene κ} {id : ComponentId} {name : String} :
    s.admits id name = true ↔ ∃ c p slot, s.component? id = some c ∧ c.schema.get? name = some p ∧
      Keyed.get? c.slots name = some slot ∧ slot.busy = false := by
  simp only [admits, Option.any_eq_true, Bool.and_eq_true, Option.isSome_iff_exists, Bool.not_eq_true']
  constructor
  · rintro ⟨c, found, ⟨p, declared⟩, slot, held, free⟩
    exact ⟨c, p, slot, found, declared, held, free⟩
  · rintro ⟨c, p, slot, found, declared, held, free⟩
    exact ⟨c, found, ⟨p, declared⟩, slot, held, free⟩

namespace Act
variable {K : Contract κ σ} {Q : Except Fault Bool → Point κ σ → Prop} {p : Point κ σ}
  {id : ComponentId} {name : String}

theorem wp_write_discarded (out : p.scene.admits id name = false) (v : Value) (origin : Origin)
    (done : Q (.ok false) p) : (Act.write id name v origin).wp K Q p := by
  refine wp_withComponent (fun c found => ?_) fun _ => done
  split
  · next prop slot declared held =>
    rw [wp_ite]
    split
    · exact done
    · next free =>
      have admits := Scene.admits_iff.mpr ⟨c, prop, slot, found, declared, held, by simpa using free⟩
      exact nomatch admits.symm.trans out
  · exact done

end Act

namespace Environment

abbrev Settles (env : Environment κ σ) (fuel k : Nat) (c : Call κ) (w : World κ σ) : Prop :=
  Contract.Serves (fun _ q => w.scene.Persists q.scene) (env.answer fuel c w) (env.nesting fuel c w) k
    (3 * k + c.rank < fuel)

section Step
variable (settles : ∀ k c w, w.scene.Calm env k → c.Harmless env → env.Settles fuel k c w)
include settles

theorem served (k r : Nat) :
    (Upholding σ (Scene.Calm env k) Scene.Persists (Call.Admitted env r)).Served
      (env.answer fuel) (env.nesting fuel) k (3 * k + r < fuel) where
  kept c p a w ready answered := by
    obtain ⟨calm, admitted⟩ := ready
    obtain ⟨_, persists⟩ := (settles k c p.world calm admitted.harmless).kept a w answered
    exact ⟨calm.later persists, persists⟩
  ends enough c p ready := by
    obtain ⟨calm, admitted⟩ := ready
    have rank := admitted.rank
    exact (settles k c p.world calm admitted.harmless).ends (by omega)
  bound c p ready := (settles k c p.world ready.1 ready.2.harmless).bound

theorem serves_act {m : Act κ α} (calm : w.scene.Calm env k)
    (cascades : m.Cascades env k r w.scene) :
    Contract.Serves (fun _ q => w.scene.Persists q.scene) (m.run (env.answer fuel) w)
      (m.nesting (env.answer fuel) (env.nesting fuel) w) k (3 * k + (r + 1) < fuel + 1) := by
  have here := cascades σ ⟨[], w⟩ calm (.refl _)
  exact (m.serves (served settles k r) (fun _ _ => trivial) here).imp (fun _ _ kept => kept.2)
    Nat.lt_of_succ_lt_succ

theorem serves_script {m : Script κ σ α} (calm : w.scene.Calm env k) (writes : m.Writes) :
    Contract.Serves (fun _ q => w.scene.Persists q.scene) (m.run (env.answer fuel) w)
      (m.nesting (env.answer fuel) (env.nesting fuel) w) k (3 * k + 1 < fuel + 1) := by
  have here := m.wp_writes writes (p := ⟨[], w⟩) calm (.refl _)
  exact (m.serves (served settles k 0) (fun _ _ => trivial) here).imp (fun _ _ kept => kept.2)
    Nat.lt_of_succ_lt_succ

/-- A write that is not discarded goes on with one slot less. -/
theorem serves_attempt {id : ComponentId} {name : String} (v : Value) (origin : Origin)
    (calm : w.scene.Calm env k) (admitted : w.scene.admits id name = true) :
    ∃ n, k = n + 1 ∧ Contract.Serves (fun _ q => w.scene.Persists q.scene)
      ((Act.write id name v origin).run (env.answer fuel) w)
      ((Act.write id name v origin).nesting (env.answer fuel) (env.nesting fuel) w) n
      (3 * n + 2 < fuel) := by
  obtain ⟨c, prop, slot, found, declared, held, free⟩ := Scene.admits_iff.mp admitted
  have own : w.scene.slot? id name = some slot := by rw [Scene.slot?, found, Option.bind_some, held]
  obtain ⟨n, rfl, marked⟩ := calm.mark own free
  have here : w.scene.Declares id prop := ⟨c, found, by rw [Schema.name_of_get? declared]; exact declared⟩
  have persists := Scene.Persists.mark w.scene id name
  refine ⟨n, rfl, Act.serves (served settles n 2).unwatched (p := ⟨[], w⟩) (fun _ _ => trivial) _ ?_⟩
  refine Act.wp_withComponent (fun d there => ?_) fun out => by cases out.symm.trans found
  cases there.symm.trans found
  simp only [declared, held, free, Bool.false_eq_true, ↓reduceIte, Act.wp_bind, Act.wp_modify]
  refine ⟨trivial, fun _ => ?_⟩
  have attempted : (Act.attempt id prop v origin).Cascades env n 2 _ :=
    .attempt (persists.declares.mp here) marked.tame v origin
  refine Act.wp_mono _ ?_ (Act.wp_unwatched _ (attempted σ _ marked (.refl _)))
  rintro _ q ⟨-, since⟩
  exact ⟨trivial, fun _ => (persists.trans since).unmark own free⟩

omit settles in
theorem settles_discarded {id : ComponentId} {name : String} (v : Value) (origin : Origin)
    (out : w.scene.admits id name = false) : env.Settles (fuel + 1) k (.write id name v origin) w := by
  have served : (Upholding σ (fun _ => True) (fun _ _ => True) fun _ => False).Served
      (env.answer fuel) (env.nesting fuel) 0 True :=
    ⟨fun _ _ _ _ ready => ready.2.elim, fun _ _ _ ready => ready.2.elim, fun _ _ ready => ready.2.elim⟩
  have here := Act.wp_write_discarded (p := ⟨[], w⟩) out v origin
    (K := Upholding σ (fun _ => True) (fun _ _ => True) fun _ => False)
    (Q := fun _ q => w.scene.Persists q.scene) (.refl _)
  obtain ⟨kept, ends, bound⟩ := Act.serves served (fun _ _ => trivial) _ here
  refine ⟨kept, fun _ => ends trivial, ?_⟩
  simp only [nesting, out, Bool.false_eq_true, ↓reduceIte, Nat.zero_add]
  exact bound.trans (Nat.zero_le k)

theorem settles_write (id : ComponentId) (name : String) (v : Value) (origin : Origin)
    (calm : w.scene.Calm env k) : env.Settles (fuel + 1) k (.write id name v origin) w := by
  cases admitted : w.scene.admits id name with
  | true =>
    obtain ⟨n, rfl, kept, ends, bound⟩ := serves_attempt settles v origin calm admitted
    refine ⟨kept, ?_, ?_⟩
    · intro enough
      exact ends (by simp only [Call.rank] at enough; omega)
    · simp only [nesting, admitted, ↓reduceIte]
      omega
  | false => exact settles_discarded v origin admitted

end Step

theorem settles (env : Environment κ σ) (fuel k : Nat) (c : Call κ) (w : World κ σ)
    (calm : w.scene.Calm env k) (harmless : c.Harmless env) : env.Settles fuel k c w := by
  -- A call spends a unit of fuel. It makes calls of lower rank with the same slots left, and only a
  -- write, which takes a slot, makes some of rank two again: hence three units a slot.
  induction fuel generalizing k c w with
  | zero => exact ⟨nofun, fun enough => absurd enough (Nat.not_lt_zero _), Nat.zero_le k⟩
  | succ fuel ih =>
    cases c with
    | write id name v origin => exact settles_write ih id name v origin calm
    | service x id arguments => exact serves_act ih calm (r := 0) (.service harmless id arguments)
    | deliver x e => exact serves_act ih calm (.deliver x harmless)
    | callback x o => exact serves_script ih calm harmless
    | apply f arguments =>
      refine ⟨?_, fun _ => rfl, Nat.zero_le k⟩
      intro a w' answered
      cases answered
      exact ⟨[], .refl _⟩
    | connect id => exact harmless.elim
    | release id => exact harmless.elim

end Environment

/-- Where all code that a write may set off does nothing but look and write, and nothing that it calls is the
library's method that adds a binding, every write ends, whatever cycles handlers, bindings, events and
contexts form. At no time are there more writes under way than slots, those included that were when it
began. -/
theorem write_terminates (env : Environment κ σ) {w : World κ σ} (tame : w.scene.Tame env)
    (id : ComponentId) (name : String) (v : Value) (origin : Origin) :
    (∃ r w', ∀ fuel, 3 * w.scene.idle.card < fuel →
      env.answer fuel (.write id name v origin) w = some (r, w')) ∧
    ∀ fuel, (w.scene.slots \ w.scene.idle).card + env.nesting fuel (.write id name v origin) w ≤
      w.scene.slots.card := by
  have calm : w.scene.Calm env w.scene.idle.card := ⟨tame, le_rfl⟩
  have settles (fuel : Nat) := env.settles fuel _ (.write id name v origin) w calm trivial
  constructor
  · have answered := (settles (3 * w.scene.idle.card + 1)).ends (Nat.lt_succ_self _)
    obtain ⟨⟨r, w'⟩, answer⟩ := Option.isSome_iff_exists.mp answered
    refine ⟨r, w', ?_⟩
    intro fuel enough
    exact env.answer_mono enough _ answer
  · intro fuel
    have bound := (settles fuel).bound
    have parts : (w.scene.slots \ w.scene.idle).card + w.scene.idle.card = w.scene.slots.card :=
      Finset.card_sdiff_add_card_eq_card (Finset.filter_subset _ _)
    omega

def passing : Environment Unit Unit where
  script _ o := match o with
    | .change id name _ new => do
      let _ ← Script.request (.set ⟨1 - id.index⟩ name (.string (new.display ++ "!")) true)
      return .ok .undefined
    | _ => return .ok .undefined
  apply _ _ store := (.undefined, store)

def gossip (x : NodeId) : Component Unit :=
  { Component.new (Declaration.define {
      tag := "x-gossip"
      properties := [.ofKind "heard" .string]
      hooks := { changed := some () } }) x none with stage := .attached }

def pair : World Unit Unit where
  scene := { components := ⟨#[gossip ⟨1⟩, gossip ⟨2⟩]⟩ }
  store := ()

theorem write_terminates_passing : ∃ w',
    (∀ fuel, 6 < fuel →
      passing.answer fuel (.write ⟨0⟩ "heard" (.string "hi") .code) pair = some (.ok true, w')) ∧
    (w'.scene.property ⟨0⟩ "heard").display = "hi" ∧
    (w'.scene.property ⟨1⟩ "heard").display = "hi!" ∧
    ∀ fuel, passing.nesting fuel (.write ⟨0⟩ "heard" (.string "hi") .code) pair ≤ 2 := by
  have tame : pair.scene.Tame passing := by
    constructor
    · intro id method _ c found
      have member : c ∈ [gossip ⟨1⟩, gossip ⟨2⟩] := Array.mem_def.mp (Array.mem_of_getElem? found)
      rcases List.mem_pair.mp member with rfl | rfl <;> trivial
    · intro x o _
      cases o with
      | change id name old new => exact ⟨trivial, fun _ => trivial⟩
      | _ => trivial
  have idle : pair.scene.idle.card = 2 := by decide +kernel
  have slots : pair.scene.slots.card = 2 := by decide +kernel
  have told : (passing.answer 7 (.write ⟨0⟩ "heard" (.string "hi") .code) pair).map (fun r =>
      (match r.1 with | .ok b => b | .error _ => false,
        (r.2.scene.property ⟨0⟩ "heard").display, (r.2.scene.property ⟨1⟩ "heard").display)) =
      some (true, "hi", "hi!") := by decide +kernel
  obtain ⟨⟨r, w', answered⟩, bound⟩ := write_terminates passing tame ⟨0⟩ "heard" (.string "hi") .code
  rw [idle] at answered
  rw [slots] at bound
  rw [answered 7 (by decide), Option.map_some, Option.some.injEq, Prod.mk.injEq, Prod.mk.injEq] at told
  obtain ⟨changed, first, second⟩ := told
  cases r with
  | error fault => cases changed
  | ok b =>
    cases changed
    exact ⟨w', answered, first, second, fun fuel => (Nat.le_add_left _ _).trans (bound fuel)⟩

end LiveTree
