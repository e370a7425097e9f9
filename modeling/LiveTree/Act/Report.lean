import LiveTree.Act

/-!
Messages: how faults and log lines reach the journal, and when they are handed back to whoever
caused them.
-/
namespace LiveTree

def Scene.ownMessage? {κ : Type} (s : Scene κ) (id : ComponentId) (key : String) : Option String :=
  let locale := match s.property id "locale" with
    | .string locale => if locale.isEmpty then s.config.locale else locale
    | _ => s.config.locale
  (((s.property id "messages").member? locale).bind (·.member? key)).bind Value.string?

namespace Act
variable {κ : Type}

def localize (id : ComponentId) (key : String) (arguments : List (String × String)) :
    Act κ (Option String) := do
  let s ← scene
  match s.ownMessage? id key with
  | none => return s.catalog.localize? key arguments
  | some template =>
    match s.property id "localizeFormatFunction" with
    | .function f =>
      let named := Keyed.ofList (arguments.map fun a => (a.1, Value.string a.2))
      match ← ask (.apply f [.string template, .object named]) with
      | .string text => return some text
      | _ => return some (interpolate template arguments)
    | _ => return some (interpolate template arguments)

/-- Writes a fault to the journal, unless the configuration or the component keeps silent. The fault
is handed back if faults escalate, or if it is an error and the component asks for those. -/
def report (id : Option ComponentId) (fault : Fault) : Act κ (Except Fault Unit) := do
  let text ← match id with
    | some id => localize id fault.key fault.arguments
    | none => do
      let s ← scene
      pure (s.catalog.localize? fault.key fault.arguments)
  let s ← scene
  if s.config.debug && id.all (s.switch · "debugMode" true) then
    update (·.write fault.level (text.getD fault.message))
  let rethrow := fault.level == .error && id.any (s.switch · "rethrowError" false)
  return if s.config.faults = .escalate ∨ rethrow then .error fault else .ok ()

def note (id : Option ComponentId) (fault : Fault) : Act κ Unit := do
  let _ ← report id fault

def log (id : ComponentId) (level : Level) (text : String) : Act κ (Except Failure Unit) :=
  withComponent id (.ok ()) fun c => do
    let line := c.tag ++ ": " ++ text
    let s ← scene
    if s.switch id "debugMode" true then update (·.write level line)
    return if level == .error && s.switch id "rethrowError" false then .error (.other line)
      else .ok ()

def noteFailure (id : ComponentId) (callback : String) (failure : Failure) : Act κ Unit :=
  update fun s =>
    let tag := ((s.component? id).map Component.tag).getD ""
    s.write .error (tag ++ ": " ++ callback ++ " failed: " ++ failure.message)

def guarded (id : ComponentId) (name : String) (k : κ) (o : Occasion) : Act κ Unit := do
  match ← callback k o with
  | .ok () => return ()
  | .error failure => noteFailure id name failure

end Act
end LiveTree
