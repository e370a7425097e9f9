import LiveTree.Proofs.Contract.Composite
import LiveTree.Script

/-! Runs that come to their end. A contract tells what holds if a run ends; where the calls of an act go
no deeper than is known, its end can be told outright, together with what it comes to. The rules follow
the ways in which acts and scripts are put together. -/
namespace LiveTree
variable {κ σ α β : Type}

def Act.Gives (answer : (c : Call κ) → World κ σ → Option (c.Answer × World κ σ)) (m : Act κ α)
    (s : Scene κ) (Q : α → Scene κ → Prop) : Prop :=
  ∀ store, ∃ a w, m.run answer ⟨s, store⟩ = some (a, w) ∧ Q a w.scene

namespace Act.Gives
variable {answer : (c : Call κ) → World κ σ → Option (c.Answer × World κ σ)} {s : Scene κ}
  {Q R : α → Scene κ → Prop}

theorem pure {a : α} (here : Q a s) : (Pure.pure a : Act κ α).Gives answer s Q :=
  fun store => ⟨a, ⟨s, store⟩, rfl, here⟩

theorem mono {m : Act κ α} (gives : m.Gives answer s R) (weaker : ∀ a t, R a t → Q a t) :
    m.Gives answer s Q := fun store => by
  obtain ⟨a, w, ran, here⟩ := gives store
  exact ⟨a, w, ran, weaker a _ here⟩

theorem bind {m : Act κ β} {f : β → Act κ α} {R : β → Scene κ → Prop} (first : m.Gives answer s R)
    (second : ∀ b t, R b t → (f b).Gives answer t Q) : (m >>= f).Gives answer s Q := by
  intro store
  obtain ⟨b, v, ran, mid⟩ := first store
  obtain ⟨a, w, rest, here⟩ := second b v.scene mid v.store
  exact ⟨a, w, (run_bind answer m f _).trans (by rw [ran]; exact rest), here⟩

theorem scene {f : Scene κ → Act κ α} (rest : (f s).Gives answer s Q) :
    (Act.scene >>= f).Gives answer s Q := rest

theorem update {f : Scene κ → Scene κ} {Q : Unit → Scene κ → Prop} (here : Q () (f s)) :
    (Act.update f).Gives answer s Q := fun store => ⟨(), ⟨f s, store⟩, rfl, here⟩

theorem withComponent {id : ComponentId} {a : α} {f : Component κ → Act κ α} {c : Component κ}
    (found : s.component? id = some c) (rest : (f c).Gives answer s Q) :
    (Act.withComponent id a f).Gives answer s Q := by
  intro store
  rw [Act.withComponent, run, found]
  exact rest store

/-- A loop keeps what holds before each item. -/
theorem each {I : Scene κ → Prop} {f : β → Act κ Unit} (items : List β)
    (step : ∀ b ∈ items, ∀ t, I t → (f b).Gives answer t fun _ u => I u) (start : I s) :
    (Act.each items f).Gives answer s fun _ t => I t := by
  induction items generalizing s with
  | nil => exact pure start
  | cons b rest ih =>
    exact bind (step b List.mem_cons_self s start) fun _ t kept =>
      ih (fun b inside => step b (List.mem_cons_of_mem _ inside)) kept

/-- A call is answered by what stands behind it, with one level of calls less. -/
theorem ask {env : Environment κ σ} {n : Nat} {c : Call κ} {Q : c.Answer → Scene κ → Prop}
    (answered : ∀ store, ∃ a w, env.answer n c ⟨s, store⟩ = some (a, w) ∧ Q a w.scene) :
    (Act.ask c).Gives (env.answer n) s Q := by
  intro store
  obtain ⟨a, w, ran, here⟩ := answered store
  exact ⟨a, w, by rw [Act.ask, run, ran]; rfl, here⟩

end Act.Gives

def Act.Returns (answer : (c : Call κ) → World κ σ → Option (c.Answer × World κ σ))
    (I : Scene κ → Prop) (m : Act κ α) : Prop :=
  ∀ s, I s → m.Gives answer s fun _ t => I t

namespace Act.Returns
variable {answer : (c : Call κ) → World κ σ → Option (c.Answer × World κ σ)} {I : Scene κ → Prop}

theorem composes : Composes fun {_} (m : Act κ _) => m.Returns answer I where
  pure _ _ here := .pure here
  scene _ here := .scene (.pure here)
  bind first second s here := .bind (first s here) fun b t kept => second b t kept

theorem update {f : Scene κ → Scene κ} (kept : ∀ s, I s → I (f s)) : (Act.update f).Returns answer I :=
  fun s here => .update (kept s here)

/-- Of a component that is there more is known than that it is there. -/
theorem withComponent {id : ComponentId} {a : α} {f : Component κ → Act κ α}
    {C : Component κ → Prop} (found : ∀ s, I s → ∃ c, s.component? id = some c ∧ C c)
    (body : ∀ c, C c → (f c).Returns answer I) : (Act.withComponent id a f).Returns answer I := by
  intro s here
  obtain ⟨c, there, known⟩ := found s here
  exact .withComponent there (body c known s here)

end Act.Returns

def Script.Gives (env : Environment κ σ) (fuel : Nat) (m : Script κ σ α) (s : Scene κ)
    (Q : α → Scene κ → Prop) : Prop :=
  ∀ store, ∃ a w, env.play fuel m ⟨s, store⟩ = some (a, w) ∧ Q a w.scene

namespace Script.Gives
variable {env : Environment κ σ} {fuel : Nat} {s : Scene κ} {Q R : α → Scene κ → Prop}

theorem pure {a : α} (here : Q a s) : (Pure.pure a : Script κ σ α).Gives env fuel s Q :=
  fun store => ⟨a, ⟨s, store⟩, rfl, here⟩

theorem mono {m : Script κ σ α} (gives : m.Gives env fuel s R) (weaker : ∀ a t, R a t → Q a t) :
    m.Gives env fuel s Q := fun store => by
  obtain ⟨a, w, ran, here⟩ := gives store
  exact ⟨a, w, ran, weaker a _ here⟩

theorem bind {m : Script κ σ β} {f : β → Script κ σ α} {R : β → Scene κ → Prop}
    (first : m.Gives env fuel s R) (second : ∀ b t, R b t → (f b).Gives env fuel t Q) :
    (m >>= f).Gives env fuel s Q := by
  intro store
  obtain ⟨b, v, ran, mid⟩ := first store
  obtain ⟨a, w, rest, here⟩ := second b v.scene mid v.store
  exact ⟨a, w, (run_bind (env.answer fuel) m f _).trans (by rw [← Environment.play, ran]; exact rest), here⟩

theorem request {r : Request κ} {Q : r.Answer → Scene κ → Prop}
    (act : r.act.Gives (env.answer fuel) s Q) : (Script.request r).Gives env fuel s Q := by
  intro store
  obtain ⟨a, w, ran, here⟩ := act store
  exact ⟨a, w, by rw [Environment.play, Script.request, run, ran]; rfl, here⟩

end Script.Gives
end LiveTree
