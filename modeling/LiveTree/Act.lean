import LiveTree.Scene

/-!
Acts: what the operations of a live tree do, as trees of steps. An act reads the scene, replaces it,
or makes a call. Calls are the only places at which consumer code runs or an operation comes back to
itself, so that an act is finite and whatever may recur passes through a `Call`. `Act.run` plays an
act, given how calls are answered.
-/
namespace LiveTree

structure Event where
  kind : String
  target : NodeId
  current : NodeId
  detail : Value
  bubbles : Bool

def Event.changed (attr : String) (x : NodeId) (old new : Value) : Event where
  kind := attr ++ "-changed"
  target := x
  current := x
  detail := .object [("value", new), ("oldValue", old)]
  bubbles := false

inductive Failure
  | fault (f : Fault)
  | other (message : String)

def Failure.message : Failure → String
  | .fault f => f.message
  | .other message => message

inductive Occasion
  | method (id : ComponentId) (arguments : List Value)
  | hook (id : ComponentId)
  | change (id : ComponentId) (property : String) (old new : Value)
  | capability (id : ComponentId) (name : String)
  | event (e : Event)
  | registered

inductive Call (κ : Type)
  | write (id : ComponentId) (property : String) (v : Value) (origin : Origin)
  | connect (id : ComponentId)
  | release (id : ComponentId)
  | service (s : Service) (id : ComponentId) (arguments : List Value)
  | deliver (x : NodeId) (e : Event)
  | callback (k : κ) (o : Occasion)
  | apply (f : FunctionRef) (arguments : List Value)

@[reducible] def Call.Answer {κ : Type} : Call κ → Type
  | .write .. => Except Fault Bool
  | .service .. | .callback .. => Except Failure Value
  | .apply .. => Value
  | _ => Unit

inductive Act (κ α : Type)
  | done (a : α)
  | read (next : Scene κ → Act κ α)
  | put (s : Scene κ) (next : Act κ α)
  | call (c : Call κ) (next : c.Answer → Act κ α)

structure World (κ σ : Type) where
  scene : Scene κ
  store : σ

namespace Act
variable {κ α β : Type}

def bind : Act κ α → (α → Act κ β) → Act κ β
  | done a, f => f a
  | read next, f => read fun s => (next s).bind f
  | put s next, f => put s (next.bind f)
  | call c next, f => call c fun a => (next a).bind f

instance : Monad (Act κ) where
  pure := done
  bind := bind

def scene : Act κ (Scene κ) := read done

def update (f : Scene κ → Scene κ) : Act κ Unit := read fun s => put (f s) (done ())

def ask (c : Call κ) : Act κ c.Answer := call c done

def each : List α → (α → Act κ Unit) → Act κ Unit
  | [], _ => done ()
  | a :: rest, f => (f a).bind fun _ => each rest f

def withComponent (id : ComponentId) (default : α) (f : Component κ → Act κ α) : Act κ α :=
  read fun s =>
    match s.component? id with
    | some c => f c
    | none => done default

def modify (id : ComponentId) (f : Component κ → Component κ) : Act κ Unit :=
  update fun s => s.modify id f

def edit (f : Document → Document) : Act κ Unit := update fun s => s.edit f

def callback (k : κ) (o : Occasion) : Act κ (Except Failure Unit) :=
  call (.callback k o) fun r => done (r.map fun _ => ())

def run {σ : Type} (answer : (c : Call κ) → World κ σ → Option (c.Answer × World κ σ)) :
    Act κ α → World κ σ → Option (α × World κ σ)
  | done a, w => some (a, w)
  | read next, w => (next w.scene).run answer w
  | put s next, w => next.run answer { w with scene := s }
  | call c next, w =>
    match answer c w with
    | some (a, w) => (next a).run answer w
    | none => none

theorem run_bind {σ : Type} (answer : (c : Call κ) → World κ σ → Option (c.Answer × World κ σ))
    (m : Act κ α) (f : α → Act κ β) (w : World κ σ) :
    (m.bind f).run answer w = (m.run answer w).bind fun r => (f r.1).run answer r.2 := by
  induction m generalizing w with
  | done a => rfl
  | read next ih => exact ih _ _
  | put s next ih => exact ih _
  | call c next ih =>
    simp only [bind, run]
    cases answer c w with
    | none => rfl
    | some r => exact ih _ _

end Act
end LiveTree
