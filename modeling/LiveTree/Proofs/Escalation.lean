import LiveTree.Proofs.Contract.Replies
import LiveTree.Proofs.Refusal

/-! Faults that are handed back. Consumer code may fail anywhere in what a request sets off, and so
may the writes that are made on the way. None of this reaches the request: what it is answered with
is a fault of its own, and only where faults escalate or a component asks for its errors. -/
namespace LiveTree
variable {κ σ α β : Type}

def Scene.Escalates (s : Scene κ) : Prop :=
  s.config.faults = .escalate ∨ ∃ id, s.property id "rethrowError" = .bool true

theorem Scene.asks_of_switch {s : Scene κ} {id : ComponentId} {name : String}
    (on : s.switch id name false = true) : s.property id name = .bool true := by
  unfold switch at on
  cases value : s.property id name with
  | bool b =>
    rw [value] at on
    exact congrArg Value.bool on
  | _ =>
    rw [value] at on
    cases on

section Reports
variable {env : Environment κ σ} {fuel : Nat} {id : ComponentId} {fault handed : Fault}
  {w w' : World κ σ}

/-- A report hands back the fault that it was given, or nothing. -/
theorem Act.run_report {id : Option ComponentId}
    (ran : (Act.report id fault).run (env.answer fuel) w = some (.error handed, w')) :
    handed = fault ∧ w'.scene.Escalates := by
  unfold Act.report at ran
  extract_lets told at ran
  have later (text : Option String) (v : World κ σ)
      (ran : (told text).run (env.answer fuel) v = some (.error handed, w')) :
      handed = fault ∧ w'.scene.Escalates := by
    unfold told at ran
    obtain ⟨s, t, looked, rest⟩ := run_bind_eq_some ran
    cases looked
    extract_lets rethrow answered at rest
    have ended (u : World κ σ) (kept : v.scene.Escalates → u.scene.Escalates)
        (ran : (answered ()).run (env.answer fuel) u = some (.error handed, w')) :
        handed = fault ∧ w'.scene.Escalates := by
      obtain ⟨same, rfl⟩ := Prod.mk.inj (Option.some.inj ran)
      split at same
      · next asked =>
        cases same
        refine ⟨rfl, kept (asked.imp_right fun on => ?_)⟩
        obtain ⟨-, on⟩ := Bool.and_eq_true_iff.mp on
        cases id with
        | none => cases on
        | some id => exact ⟨id, Scene.asks_of_switch on⟩
      · cases same
    split at rest
    · obtain ⟨_, u, written, rest⟩ := run_bind_eq_some rest
      cases written
      exact ended ⟨v.scene.write _ _, v.store⟩ (fun asked => asked) rest
    · exact ended v (fun asked => asked) rest
  split at ran
  · obtain ⟨text, v, -, rest⟩ := run_bind_eq_some ran
    exact later text v rest
  · obtain ⟨text, v, -, rest⟩ := run_bind_eq_some ran
    obtain ⟨text, v, -, rest⟩ := run_bind_eq_some rest
    exact later text v rest

/-- What is made of the answer to a report hands back no other fault. -/
theorem Act.run_reported {id : Option ComponentId} {f : Unit → β}
    (ran : (do return (← Act.report id fault).map f : Act κ (Except Fault β)).run
      (env.answer fuel) w = some (.error handed, w')) :
    handed = fault ∧ w'.scene.Escalates := by
  obtain ⟨r, v, reported, ended⟩ := run_bind_eq_some ran
  cases r with
  | ok _ => cases ended
  | error other =>
    cases ended
    exact run_report reported

variable {p : Property} {v : Value} {origin : Origin} {name : String}

theorem Scene.property_setBusy (s : Scene κ) (id other : ComponentId) (name key : String)
    (busy : Bool) : (s.setBusy id name busy).property other key = s.property other key :=
  s.property_modifySlot fun _ _ _ => rfl

theorem Scene.Escalates.setBusy {s : Scene κ} (escalates : s.Escalates) (id : ComponentId)
    (name : String) (busy : Bool) : (s.setBusy id name busy).Escalates :=
  escalates.imp_right fun ⟨other, asked⟩ => ⟨other, (s.property_setBusy _ _ _ _ _).trans asked⟩

/-- The faults that a write hands back are those that the checks of its property find. Nothing is
done after that but to report it and to free the slot. -/
theorem Environment.finds_of_write {env : Environment κ σ}
    (answered : env.answer fuel (.write id name v origin) w = some (.error fault, w')) :
    w'.scene.Escalates ∧ ∃ p fuel u, p.name = name ∧ w.scene.Declares id p ∧
      env.Finds fuel id p v ⟨w.scene.setBusy id name true, w.store⟩ fault u ∧
      (u.scene.setBusy id name false).Logs w'.scene := by
  cases fuel with
  | zero => cases answered
  | succ fuel =>
    rcases Act.run_write answered with ⟨same, -⟩ | ⟨p, u, named, declared, -, attempted, rfl⟩
    · cases same
    · have declines := Environment.declines_of_attempt attempted nofun
      cases declines with
      | refused finds refused =>
        have logs := (Act.Logging.refuse id _).run refused
        obtain ⟨rfl, escalates⟩ := Act.run_reported refused
        exact ⟨escalates.setBusy id name false, p, fuel, _, named, declared, finds, logs.modify id _⟩

/-- A fault is handed back through an attribute if the write to its property hands it back. -/
theorem Act.run_attributeChanged {attr : String} {text : Option String}
    (ran : (Act.attributeChanged id attr text).run (env.answer fuel) w =
      some (.error fault, w')) :
    ∃ c p, w.scene.component? id = some c ∧ c.schema.byAttribute? attr = some p ∧
      env.answer fuel (.write id p.name (w.scene.codec.read p.kind p.nullable text) .markup) w =
        some (.error fault, w') := by
  rcases run_withComponent_eq_some ran with ⟨c, found, ran⟩ | ⟨-, same, -⟩
  · split at ran
    · cases ran
    · obtain ⟨s, v, looked, rest⟩ := run_bind_eq_some ran
      cases looked
      split at rest
      · cases rest
      · next p declared =>
        extract_lets x at rest
        split at rest
        · cases rest
        · obtain ⟨r, v, asked, ended⟩ := run_bind_eq_some rest
          cases r with
          | ok _ => cases ended
          | error other =>
            cases ended
            exact ⟨c, p, found, declared, run_ask_eq_some asked⟩
  · cases same

theorem Act.run_callChecked {method : String} {signature : Option Signature}
    {arguments : List Value}
    (ran : (Act.callChecked id method signature arguments).run (env.answer fuel) w =
      some (.error fault, w')) : w'.scene.Escalates := by
  obtain ⟨r, v, invoked, rest⟩ := run_bind_eq_some ran
  split at rest
  · obtain ⟨_, u, noted, ended⟩ := run_bind_eq_some rest
    cases ended
  · split at rest
    · exact (run_reported rest).2
    · cases rest

theorem Act.run_callMethod {method : String} {arguments : List Value}
    (ran : (Act.callMethod id method arguments).run (env.answer fuel) w = some (.error fault, w')) :
    w'.scene.Escalates := by
  rcases run_withComponent_eq_some ran with ⟨c, -, ran⟩ | ⟨-, same, -⟩
  · split at ran
    · exact (run_reported ran).2
    · split at ran
      · exact (run_reported ran).2
      · extract_lets signature at ran
        split at ran
        · exact (run_reported ran).2
        · exact run_callChecked ran
  · cases same

end Reports

namespace Request

def fault? : (r : Request κ) → r.Answer → Option Fault
  | .set .., .error fault | .force .., .error fault | .setAttribute .., .error fault
  | .removeAttribute .., .error fault | .call .., .error fault | .report .., .error fault =>
    some fault
  | _, _ => none

def isWrite : Request κ → Bool
  | .set .. | .force .. | .setAttribute .. | .removeAttribute .. => true
  | _ => false

inductive Writes : Request κ → Scene κ → ComponentId → String → Value → Scene κ → Prop
  | set (s : Scene κ) (id : ComponentId) (name : String) (v : Value) (notify : Bool) :
    Writes (.set id name v notify) s id name v s
  | force (s : Scene κ) (id : ComponentId) (name : String) (v : Value) :
    Writes (.force id name v) s id name v s
  | setAttribute {s : Scene κ} {x : NodeId} {attr : String} (text : String) {id : ComponentId}
    {c : Component κ} {p : Property} : s.componentAt? x = some id → s.component? id = some c →
    c.schema.byAttribute? attr = some p →
    Writes (.setAttribute x attr text) s id p.name (s.codec.read p.kind p.nullable (some text))
      (s.edit (·.setAttribute x attr text))
  | removeAttribute {s : Scene κ} {x : NodeId} {attr : String} {id : ComponentId}
    {c : Component κ} {p : Property} : s.componentAt? x = some id → s.component? id = some c →
    c.schema.byAttribute? attr = some p →
    Writes (.removeAttribute x attr) s id p.name (s.codec.read p.kind p.nullable none)
      (s.edit (·.removeAttribute x attr))

end Request

/-- The request is a write, the fault is one that the checks of the written property found, and all
that was done from then on is that it was reported. -/
def Reply.Rejected (env : Environment κ σ) (x : Reply κ σ) (fault : Fault) : Prop :=
  ∃ id v t p fuel u, x.request.Writes x.before.scene id p.name v t ∧ t.Declares id p ∧
    env.Finds fuel id p v ⟨t.setBusy id p.name true, x.before.store⟩ fault u ∧
    (u.scene.setBusy id p.name false).Logs x.after.scene

section Requests
variable {env : Environment κ σ} {fuel : Nat} {fault : Fault}

/-- What a request to write hands back is what its write hands back. -/
theorem Request.run_write {r : Request κ} {a : r.Answer} {w w' : World κ σ}
    (ran : r.act.run (env.answer fuel) w = some (a, w')) (handed : r.fault? a = some fault)
    (write : r.isWrite = true) : ∃ id name v origin t, r.Writes w.scene id name v t ∧
      env.answer fuel (.write id name v origin) ⟨t, w.store⟩ = some (.error fault, w') := by
  cases r with
  | set id name v notify =>
    obtain _ | _ := a <;> cases handed
    exact ⟨id, name, v, _, _, .set _ id name v notify, Act.run_ask_eq_some ran⟩
  | force id name v =>
    obtain _ | _ := a <;> cases handed
    exact ⟨id, name, v, _, _, .force _ id name v, Act.run_ask_eq_some ran⟩
  | setAttribute x attr text =>
    obtain _ | _ := a <;> cases handed
    obtain ⟨_, v, edited, rest⟩ := Act.run_bind_eq_some ran
    cases edited
    obtain ⟨s, v, looked, rest⟩ := Act.run_bind_eq_some rest
    cases looked
    split at rest
    · next id there =>
      obtain ⟨c, p, found, declared, written⟩ := Act.run_attributeChanged rest
      exact ⟨id, p.name, _, _, _, .setAttribute text there found declared, written⟩
    · cases rest
  | removeAttribute x attr =>
    obtain _ | _ := a <;> cases handed
    obtain ⟨s, v, looked, rest⟩ := Act.run_bind_eq_some ran
    cases looked
    obtain ⟨_, v, edited, rest⟩ := Act.run_bind_eq_some rest
    cases edited
    split at rest
    · next id there =>
      have host := Option.eq_some_of_filter_eq_some there
      obtain ⟨c, p, found, declared, written⟩ := Act.run_attributeChanged rest
      exact ⟨id, p.name, _, _, _, .removeAttribute host found declared, written⟩
    · cases rest
  | _ => cases write

theorem Reply.rejected_of_given {x : Reply κ σ} (given : x.Given env)
    (handed : x.request.fault? x.answer = some fault) (write : x.request.isWrite = true) :
    x.after.scene.Escalates ∧ x.Rejected env fault := by
  obtain ⟨fuel, ran⟩ := given
  obtain ⟨id, name, v, origin, t, writes, answered⟩ := Request.run_write ran handed write
  obtain ⟨escalates, p, fuel, u, rfl, declared, finds, logs⟩ := Environment.finds_of_write answered
  exact ⟨escalates, id, v, t, p, fuel, u, writes, declared, finds, logs⟩

theorem Reply.escalates_of_given {x : Reply κ σ} (given : x.Given env)
    (handed : x.request.fault? x.answer = some fault) : x.after.scene.Escalates := by
  by_cases write : x.request.isWrite = true
  · exact (rejected_of_given given handed write).1
  · obtain ⟨fuel, ran⟩ := given
    obtain ⟨r, before, a, after⟩ := x
    cases r with
    | call id method arguments =>
      obtain _ | _ := a <;> cases handed
      exact Act.run_callMethod ran
    | report id f =>
      obtain _ | _ := a <;> cases handed
      exact (Act.run_report ran).2
    | set | force | setAttribute | removeAttribute => exact absurd rfl write
    | _ => cases handed

end Requests

/-- No request of a run is answered with a fault unless faults escalate or some component asks for
its errors, and no request to write with another fault than the one that the checks of the written
property find, whatever fails of all that the request sets off. -/
theorem faults_of_replies (env : Environment κ σ) (fuel : Nat) (m : Script κ σ α) (w : World κ σ)
    {x : Reply κ σ} (replied : x ∈ env.replies fuel m w) {fault : Fault}
    (handed : x.request.fault? x.answer = some fault) :
    x.after.scene.Escalates ∧ (x.request.isWrite = true → x.Rejected env fault) := by
  have given : x.Given env := Environment.given_of_replies replied
  exact ⟨Reply.escalates_of_given given handed, fun write =>
    (Reply.rejected_of_given given handed write).2⟩

def failing : Environment Unit Unit where
  script _ _ := return .error (.other "out of order")
  apply _ _ store := (.undefined, store)

def dimming : Script Unit Unit Unit := do
  let asking := { Property.ofKind "rethrowError" .boolean with default := .bool true }
  let _ ← Script.request (.register (Declaration.define {
    tag := "x-lamp"
    properties := [.ofKind "lit" .boolean, asking]
    hooks := { changed := some () } }))
  let x ← Script.request (.createElement "x-lamp")
  Script.request (.appendChild Document.root x)
  let _ ← Script.request (.set ⟨0⟩ "lit" (.bool true) true)
  let _ ← Script.request (.set ⟨0⟩ "lit" (.string "dim") true)

theorem faults_of_replies_dimming : ∃ x fault,
    x ∈ failing.replies 30 dimming ⟨.ofConfig {} (some {}), ()⟩ ∧
      x.request.fault? x.answer = some fault ∧
      x.after.scene.Escalates ∧ x.Rejected failing fault := by
  have answered : ((failing.replies 30 dimming ⟨.ofConfig {} (some {}), ()⟩).any fun x =>
      x.request.isWrite && (x.request.fault? x.answer).isSome) = true := by decide +kernel
  obtain ⟨x, replied, told⟩ := List.any_eq_true.mp answered
  obtain ⟨write, handed⟩ := Bool.and_eq_true_iff.mp told
  obtain ⟨fault, handed⟩ := Option.isSome_iff_exists.mp handed
  obtain ⟨escalates, rejected⟩ :=
    faults_of_replies failing 30 dimming ⟨.ofConfig {} (some {}), ()⟩ replied handed
  exact ⟨x, fault, replied, handed, escalates, rejected write⟩

end LiveTree
