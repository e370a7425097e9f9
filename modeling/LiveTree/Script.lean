import LiveTree.Request

/-!
Scripts: consumer code. A script looks at the scene and at its own store, keeps something in the
store, and makes requests. An `Environment` says which script stands behind each handle, and what
the functions held as values do; they see nothing but their arguments and the store.

Calls are answered with fuel, one unit a level of calls, because consumer code may come back to the
tree without end. A run that ran out of fuel has no answer.
-/
namespace LiveTree

inductive Script (κ σ α : Type)
  | done (a : α)
  | look (next : Scene κ → σ → Script κ σ α)
  | keep (store : σ) (next : Script κ σ α)
  | ask (r : Request κ) (next : r.Answer → Script κ σ α)

namespace Script
variable {κ σ α β : Type}

def bind : Script κ σ α → (α → Script κ σ β) → Script κ σ β
  | done a, f => f a
  | look next, f => look fun s store => (next s store).bind f
  | keep store next, f => keep store (next.bind f)
  | ask r next, f => ask r fun a => (next a).bind f

instance : Monad (Script κ σ) where
  pure := done
  bind := bind

instance [Inhabited α] : Inhabited (Script κ σ α) := ⟨done default⟩

def scene : Script κ σ (Scene κ) := look fun s _ => done s

def store : Script κ σ σ := look fun _ store => done store

def modifyStore (f : σ → σ) : Script κ σ Unit := look fun _ store => keep (f store) (done ())

def request (r : Request κ) : Script κ σ r.Answer := ask r done

def run (answer : (c : Call κ) → World κ σ → Option (c.Answer × World κ σ)) :
    Script κ σ α → World κ σ → Option (α × World κ σ)
  | done a, w => some (a, w)
  | look next, w => (next w.scene w.store).run answer w
  | keep store next, w => next.run answer { w with store := store }
  | ask r next, w =>
    match r.act.run answer w with
    | some (a, w) => (next a).run answer w
    | none => none

theorem run_bind (answer : (c : Call κ) → World κ σ → Option (c.Answer × World κ σ))
    (m : Script κ σ α) (f : α → Script κ σ β) (w : World κ σ) :
    (m.bind f).run answer w = (m.run answer w).bind fun r => (f r.1).run answer r.2 := by
  induction m generalizing w with
  | done a => rfl
  | look next ih => exact ih _ _ _
  | keep store next ih => exact ih _
  | ask r next ih =>
    simp only [bind, run]
    cases r.act.run answer w with
    | none => rfl
    | some x => exact ih _ _

end Script

structure Environment (κ σ : Type) where
  script : κ → Occasion → Script κ σ (Except Failure Value)
  apply : FunctionRef → List Value → σ → Value × σ

namespace Environment
variable {κ σ α : Type}

def answer (env : Environment κ σ) :
    (fuel : Nat) → (c : Call κ) → World κ σ → Option (c.Answer × World κ σ)
  | 0, _, _ => none
  | fuel + 1, c, w =>
    match c with
    | .write id property v origin => (Act.write id property v origin).run (env.answer fuel) w
    | .connect id => (Act.connect id).run (env.answer fuel) w
    | .release id => (Act.release id).run (env.answer fuel) w
    | .service s id arguments => (Act.service s id arguments).run (env.answer fuel) w
    | .deliver x e => (Act.deliver x e).run (env.answer fuel) w
    | .callback k o => (env.script k o).run (env.answer fuel) w
    | .apply f arguments =>
      let (v, store) := env.apply f arguments w.store
      some (v, { w with store := store })

def play (env : Environment κ σ) (fuel : Nat) (m : Script κ σ α) (w : World κ σ) :
    Option (α × World κ σ) :=
  m.run (env.answer fuel) w

end Environment
end LiveTree
