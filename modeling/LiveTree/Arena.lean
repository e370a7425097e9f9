/-!
Arenas: cells that are only ever added and changed, found by the index they got when added.
-/
namespace LiveTree

structure Arena (α : Type) where
  cells : Array α := #[]

namespace Arena
variable {α : Type}

def size (a : Arena α) : Nat := a.cells.size

def get? (a : Arena α) (i : Nat) : Option α := a.cells[i]?

def push (a : Arena α) (x : α) : Arena α := { cells := a.cells.push x }

def modify (a : Arena α) (i : Nat) (f : α → α) : Arena α := { cells := a.cells.modify i f }

def toList (a : Arena α) : List α := a.cells.toList

@[simp] theorem size_push (a : Arena α) (x : α) : (a.push x).size = a.size + 1 := by
  simp [size, push]

@[simp] theorem size_modify (a : Arena α) (i : Nat) (f : α → α) : (a.modify i f).size = a.size := by
  simp [size, modify]

theorem get?_push (a : Arena α) (x : α) (i : Nat) :
    (a.push x).get? i = if i = a.size then some x else a.get? i := by
  simp only [get?, push, size, Array.getElem?_push]
  congr 1

theorem get?_modify (a : Arena α) (i j : Nat) (f : α → α) :
    (a.modify i f).get? j = if i = j then (a.get? j).map f else a.get? j := by
  simp only [get?, modify, Array.getElem?_modify]

/-- A change that leaves the cell as it is leaves the arena. -/
theorem modify_of_same {a : Arena α} {i : Nat} {f : α → α} (same : ∀ x, a.get? i = some x → f x = x) :
    a.modify i f = a := by
  refine congrArg Arena.mk (Array.ext_getElem? fun j => ?_)
  change (a.modify i f).get? j = a.get? j
  rw [get?_modify]
  split
  · next here =>
    subst here
    cases found : a.get? i with
    | none => rfl
    | some x => exact congrArg some (same x found)
  · rfl

end Arena
end LiveTree
