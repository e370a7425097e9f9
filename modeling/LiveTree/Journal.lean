import LiveTree.Text.Search

/-!
The journal: the messages of a running tree in the order they were written.
-/
namespace LiveTree

inductive Level
  | log
  | warn
  | error
  deriving DecidableEq, Repr

namespace Level

def name : Level → String
  | .log => "log"
  | .warn => "warn"
  | .error => "error"

def ofName (name : String) : Level :=
  match name with
  | "warn" => .warn
  | "error" => .error
  | _ => .log

end Level

structure Journal where
  entries : List (Level × String) := []

namespace Journal

def add (j : Journal) (level : Level) (message : String) : Journal :=
  { j with entries := j.entries ++ [(level, message)] }

def size (j : Journal) : Nat := j.entries.length

def isEmpty (j : Journal) : Bool := j.entries.isEmpty

def messages (j : Journal) (level : Level) : List String :=
  (j.entries.filter fun e => e.1 == level).map (·.2)

def mentions (j : Journal) (text : String) : Bool :=
  j.entries.any fun e => Text.contains text.toList e.2.toList

end Journal
end LiveTree
