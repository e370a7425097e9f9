import LiveTree.Proofs.Contract.Relation
import LiveTree.Proofs.Document.Traversal
import LiveTree.Proofs.Footprint.Life

/-! The worlds between operations: what a live tree can come to when operations are asked of it from
outside one after the other. Within an operation consumer code may ask for others; what holds then
is told by contracts. -/
namespace LiveTree
variable {κ σ α : Type}

/-- A script that goes on after a request is played from the world that the request left. -/
theorem Environment.play_ask {env : Environment κ σ} {fuel : Nat} {r : Request κ}
    {next : r.Answer → Script κ σ α} {w w' : World κ σ} {a : α}
    (played : env.play fuel (.ask r next) w = some (a, w')) :
    ∃ b v, env.play fuel (.request r) w = some (b, v) ∧ env.play fuel (next b) v = some (a, w') := by
  rw [play, Script.run] at played
  cases answered : r.act.run (env.answer fuel) w with
  | none =>
    rw [answered] at played
    cases played
  | some x =>
    rw [answered] at played
    refine ⟨x.1, x.2, ?_, played⟩
    rw [play, Script.request, Script.run, answered]
    rfl

inductive Environment.Reachable (env : Environment κ σ) : World κ σ → Prop
  | start (config : Config) (journal : Option Journal) (store : σ) :
    env.Reachable ⟨.ofConfig config journal, store⟩
  /-- Consumers may change what they keep for themselves at any time. -/
  | keep {w : World κ σ} (store : σ) : env.Reachable w → env.Reachable { w with store := store }
  | request {w w' : World κ σ} (r : Request κ) {fuel : Nat} {a : r.Answer} : env.Reachable w →
    env.play fuel (.request r) w = some (a, w') → env.Reachable w'

namespace Environment.Reachable
variable {env : Environment κ σ} {w w' : World κ σ}

/-- What comes of a script that is played from outside, whatever its requests answered. -/
theorem play (reached : env.Reachable w) {fuel : Nat} (m : Script κ σ α) {a : α}
    (played : env.play fuel m w = some (a, w')) : env.Reachable w' := by
  -- Each request of the script is one from outside, made in the world the ones before it left.
  induction m generalizing w with
  | done b =>
    cases played
    exact reached
  | look next ih => exact ih _ _ reached played
  | keep store next ih => exact ih (reached.keep store) played
  | ask r next ih =>
    obtain ⟨b, v, asked, rest⟩ := env.play_ask played
    exact ih b (reached.request r asked) rest

/-- A condition that holds at the start and goes over to related scenes holds between operations,
if these lead to related scenes. -/
theorem invariant {D R : Scene κ → Scene κ → Prop} [IsPreorder (Scene κ) R]
    (calls : ∀ c : Call κ, c.Leads D R) (requests : ∀ r : Request κ, r.act.Leads D R)
    {I : Scene κ → Prop} (start : ∀ config journal, I (.ofConfig config journal))
    (kept : ∀ s t, I s → R s t → I t) (reached : env.Reachable w) : I w.scene := by
  induction reached with
  | start config journal store => exact start config journal
  | keep store _ ih => exact ih
  | request r _ asked ih => exact kept _ _ ih (env.play_leads calls requests asked)

end Environment.Reachable

section Alike
variable {D R : Scene κ → Scene κ → Prop} [IsPreorder (Scene κ) R]
  (follows : ∀ F s t, s.Alike F t → D s t ∧ R s t)
include follows

theorem Act.Touches.leads {F : List Field} {C : List Call.Kind} {m : Act κ α}
    (touches : m.Touches F C) : m.Leads D R :=
  .of_within (fun s t alike => follows F s t alike) touches

theorem Call.leads_of_alike (c : Call κ) : c.Leads D R := by
  cases c with
  | write id name v origin => exact (Act.Touches.write id name v origin).leads follows
  | connect id => exact (Act.Touches.connect id).leads follows
  | release id => exact (Act.Touches.release id).leads follows
  | service s id arguments => exact (Act.Touches.service s id arguments).leads follows
  | deliver x e => exact (Act.Touches.deliver x e).leads follows
  | callback k o => trivial
  | apply f arguments => trivial

end Alike

/-- What goes over between any two scenes that agree on all but some fields holds of whatever a tree
comes to if it holds at the start. -/
theorem Environment.Reachable.keeps {env : Environment κ σ} {w : World κ σ} {I : Scene κ → Prop}
    (keeps : ∀ F s t, s.Alike F t → I s → I t)
    (start : ∀ config journal, I (.ofConfig config journal)) (reached : env.Reachable w) :
    I w.scene := by
  have : IsPreorder (Scene κ) fun s t => I s → I t :=
    { refl := fun _ holds => holds, trans := fun _ _ _ first second holds => second (first holds) }
  have follows (F : List Field) (s t : Scene κ) (alike : s.Alike F t) :
      (⊤ : Scene κ → Scene κ → Prop) s t ∧ (I s → I t) := ⟨trivial, keeps F s t alike⟩
  exact reached.invariant (Call.leads_of_alike follows)
    (fun r => (Act.Touches.request r).leads follows) start fun _ _ holds next => next holds

/-- Whatever is asked of a live tree, its document is a forest. -/
theorem forest_of_reachable (env : Environment κ σ) {w : World κ σ} (reached : env.Reachable w) :
    w.scene.document.Forest :=
  Document.Sound.forest <| reached.keeps (I := fun s => s.document.Sound)
    (fun _ _ _ alike sound => alike.document.sound sound) fun _ _ => Document.sound_empty

theorem forest_of_reachable_planted : ∃ w,
    silent.play 5 (.request (.createElement "p") >>= fun x => .request (.appendChild Document.root x))
        ⟨.ofConfig {} none, ()⟩ = some ((), w) ∧
      w.scene.document.parent? ⟨1⟩ = some Document.root ∧ w.scene.document.Forest := by
  have answered : (silent.play 5 (.request (.createElement "p") >>= fun x =>
      .request (.appendChild Document.root x)) ⟨.ofConfig {} none, ()⟩).map
        (fun r => r.2.scene.document.parent? ⟨1⟩) = some (some Document.root) := by decide +kernel
  obtain ⟨⟨_, w⟩, played, below⟩ := Option.map_eq_some_iff.mp answered
  have reached : silent.Reachable w := (Environment.Reachable.start _ none ()).play _ played
  exact ⟨w, played, below, forest_of_reachable silent reached⟩

end LiveTree
