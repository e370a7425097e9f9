import LiveTree.Schema

/-!
Slots: what a component holds for each of its declared properties.
-/
namespace LiveTree

inductive Origin
  | code
  /-- An attribute of the host node; it is not written back to the attribute. -/
  | markup
  /-- A field of a data context; it is not written back to the context. -/
  | context
  /-- The component itself, which may write what is read-only for others. -/
  | internal
  /-- An assignment that no handler, observer or watcher is told of. -/
  | quiet
  deriving DecidableEq, Repr

structure Slot where
  value : Value
  /-- Set while a write is under way; further writes are discarded. -/
  busy : Bool := false
  /-- Set when the owner binds the property both ways, so that it hears of changes. -/
  notify : Bool := false

abbrev Slots := Keyed Slot

namespace Slots

def ofSchema (s : Schema) : Slots := s.toList.map fun p => (p.name, { value := p.default })

def fill (slots : Slots) (s : Schema) : Slots :=
  s.toList.foldl (fun acc p => Keyed.insertNew acc p.name { value := p.default }) slots

def value? (slots : Slots) (name : String) : Option Value := (Keyed.get? slots name).map Slot.value

theorem names_ofSchema (s : Schema) : Keyed.names (ofSchema s) = s.names := by
  have own : ∀ e ∈ s.properties, e.2.name = e.1 := s.named
  unfold ofSchema Schema.toList Schema.names Keyed.names Keyed.entries
  rw [List.map_map, List.map_map]
  exact List.map_congr_left own

theorem get?_ofSchema (s : Schema) (name : String) :
    Keyed.get? (ofSchema s) name = (s.get? name).map fun p => { value := p.default } :=
  Keyed.get?_map_entries s.properties Property.name _ s.named name

/-- What was there stays; new slots hold defaults. -/
theorem get?_fill (slots : Slots) (s : Schema) (name : String) :
    Keyed.get? (slots.fill s) name =
      (Keyed.get? slots name).or ((s.get? name).map fun p => { value := p.default }) := by
  rw [← get?_ofSchema]
  unfold fill ofSchema
  generalize s.toList = ps
  induction ps generalizing slots with
  | nil => simp [Keyed.get?]
  | cons p rest ih =>
    rw [List.foldl_cons, ih, Keyed.get?_insertNew, Option.or_assoc]
    by_cases here : p.name = name
    · simp [Keyed.get?, here]
    · simp [Keyed.get?, here]

theorem nodup_fill {slots : Slots} (distinct : (Keyed.names slots).Nodup) (s : Schema) :
    (Keyed.names (slots.fill s)).Nodup := by
  unfold fill
  generalize s.toList = ps
  induction ps generalizing slots with
  | nil => exact distinct
  | cons p rest ih => exact ih (Keyed.nodup_insertNew distinct p.name _)

theorem mem_names_fill {slots : Slots} {s : Schema} {name : String} :
    name ∈ Keyed.names (slots.fill s) ↔ name ∈ Keyed.names slots ∨ name ∈ s.names := by
  rw [← Keyed.isSome_get?, ← Keyed.isSome_get?, Schema.mem_names, get?_fill, Option.isSome_or,
    Bool.or_eq_true, Option.isSome_map, Option.isSome_iff_exists (x := s.get? name)]

end Slots
end LiveTree
