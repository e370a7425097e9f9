/-!
Stages in the life of a component, and the barrier that keeps it from becoming ready while it
waits for others.
-/
namespace LiveTree

inductive Stage
  | unattached
  | created
  | configured
  | expanded
  | ready
  | attached
  | detached
  deriving DecidableEq, Repr

namespace Stage

def isConfigured : Stage → Bool
  | .unattached | .created => false
  | _ => true

def isReady : Stage → Bool
  | .ready | .attached | .detached => true
  | _ => false

end Stage

structure Barrier where
  holds : Nat := 0
  deriving DecidableEq, Repr

namespace Barrier

def hold (b : Barrier) : Barrier := { holds := b.holds + 1 }

def drop (b : Barrier) : Barrier := { holds := b.holds - 1 }

def isClear (b : Barrier) : Bool := b.holds = 0

def clearsOnDrop (b : Barrier) : Bool := b.holds = 1

end Barrier
end LiveTree
