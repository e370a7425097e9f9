import LiveTree.Toml.Reader

/-!
The configuration of a live tree and its TOML form.
-/
namespace LiveTree

inductive FaultMode
  | swallow
  | escalate
  deriving DecidableEq, Repr

structure Config where
  faults : FaultMode := .swallow
  debug : Bool := true
  locale : String := "en"
  stableId : String := "tessel-id"
  changeEvents : Bool := true

namespace Config

def FaultMode.name : FaultMode → String
  | .swallow => "swallow"
  | .escalate => "escalate"

def FaultMode.named? : String → Option FaultMode
  | "swallow" => some .swallow
  | "escalate" => some .escalate
  | _ => none

def faultMode? : Toml → Option FaultMode
  | .string name => FaultMode.named? name
  | .table _ [(name, .array [])] | .table _ [(name, .table _ [])] => FaultMode.named? name
  | _ => none

def text? : Toml → Option String
  | .string s => some s
  | _ => none

def truth? : Toml → Option Bool
  | .boolean b => some b
  | _ => none

def entry {α : Type} (read : Toml → Option α) (t : Toml.Table) (key : String) (default : α) :
    Option α :=
  match Keyed.get? t key with
  | some v => read v
  | none => some default

def read? (text : String) : Option Config := do
  let t ← Toml.read? text.toList
  let base : Config := {}
  return {
    faults := ← entry faultMode? t "error_mode" base.faults
    debug := ← entry truth? t "debug_mode" base.debug
    locale := ← entry text? t "locale" base.locale
    stableId := ← entry text? t "stable_id_attribute" base.stableId
    changeEvents := ← entry truth? t "dispatch_change_events" base.changeEvents }

def line (key : String) (value : List Char) : List Char := key.toList ++ " = ".toList ++ value ++ ['\n']

def truthText (b : Bool) : List Char := if b then "true".toList else "false".toList

def write (c : Config) : String :=
  String.ofList <|
    line "error_mode" (Toml.quote (FaultMode.name c.faults).toList) ++
    line "debug_mode" (truthText c.debug) ++
    line "locale" (Toml.quote c.locale.toList) ++
    line "stable_id_attribute" (Toml.quote c.stableId.toList) ++
    line "dispatch_change_events" (truthText c.changeEvents)

end Config
end LiveTree
