import LiveTree.Property

/-!
Schemas: the properties of a component type in the order they were declared, and the attribute
names under which they are found.
-/
namespace LiveTree

theorem Property.named_nil : ∀ e ∈ ([] : Keyed Property), e.2.name = e.1 := by simp

structure Schema where
  properties : Keyed Property := []
  attributes : Keyed String := []
  named : ∀ e ∈ properties, e.2.name = e.1 := by exact Property.named_nil
  distinct : (Keyed.names properties).Nodup := by exact List.nodup_nil

namespace Schema

/-- Adds a declaration, or replaces the one of that name where it stands. The attribute entry of
the replaced one is dropped first. -/
def declare (s : Schema) (p : Property) : Schema :=
  let attributes := match s.properties.get? p.name with
    | some previous => s.attributes.erase previous.attributeName
    | none => s.attributes
  { properties := s.properties.insert p.name p
    attributes := attributes.insert p.attributeName p.name
    named := fun e member => (Keyed.mem_insert member).elim (fun new => by rw [new]) (s.named e)
    distinct := Keyed.nodup_insert s.distinct p.name p }

def contains (s : Schema) (name : String) : Bool := s.properties.contains name

def declareNew (s : Schema) (p : Property) : Schema := if s.contains p.name then s else s.declare p

def get? (s : Schema) (name : String) : Option Property := s.properties.get? name

theorem name_of_get? {s : Schema} {name : String} {p : Property} (found : s.get? name = some p) :
    p.name = name :=
  s.named (name, p) (Keyed.mem_of_get? found)

def byAttribute? (s : Schema) (attr : String) : Option Property :=
  (s.attributes.get? attr).bind s.get?

def toList (s : Schema) : List Property := s.properties.entries

def names (s : Schema) : List String := s.properties.names

theorem mem_names {s : Schema} {name : String} : name ∈ s.names ↔ ∃ p, s.get? name = some p := by
  rw [names, ← Keyed.isSome_get?, Option.isSome_iff_exists]
  rfl

theorem mem_toList {s : Schema} {p : Property} : p ∈ s.toList ↔ s.get? p.name = some p := by
  constructor
  · intro listed
    obtain ⟨e, member, rfl⟩ := List.mem_map.mp listed
    rw [s.named e member]
    exact Keyed.get?_of_mem s.distinct member
  · intro there
    exact List.mem_map.mpr ⟨(p.name, p), Keyed.mem_of_get? there, rfl⟩

theorem names_toList (s : Schema) : s.toList.map Property.name = s.names := by
  rw [toList, Keyed.entries, names, Keyed.names, List.map_map]
  exact List.map_congr_left s.named

theorem get?_declare (s : Schema) (p : Property) (name : String) :
    (s.declare p).get? name = if name = p.name then some p else s.get? name := by
  change (s.properties.insert p.name p).get? name = _
  split
  · next same => rw [same, Keyed.get?_insert_self]
  · next other => exact Keyed.get?_insert_of_ne _ _ other

def Within (a b : Schema) : Prop := ∀ name p, a.get? name = some p → b.get? name = some p

theorem Within.refl (a : Schema) : a.Within a := fun _ _ declared => declared

theorem Within.trans {a b c : Schema} (first : a.Within b) (second : b.Within c) : a.Within c :=
  fun name p declared => second name p (first name p declared)

theorem within_declareNew (a : Schema) (p : Property) : a.Within (a.declareNew p) := by
  intro name q declared
  unfold declareNew
  split
  · exact declared
  · next free =>
    rw [get?_declare, if_neg, declared]
    rintro rfl
    exact free (Option.isSome_iff_exists.mpr ⟨q, declared⟩)

theorem within_foldl_declareNew (ps : List Property) (a : Schema) :
    a.Within (ps.foldl declareNew a) := by
  induction ps generalizing a with
  | nil => exact .refl a
  | cons p rest ih => exact (a.within_declareNew p).trans (ih _)

def size (s : Schema) : Nat := s.properties.length

def isEmpty (s : Schema) : Bool := s.properties.isEmpty

/-- The schema of a type that extends another: the base's properties first, those declared anew
in their own form, filled up from the base if they ask for it. -/
def extend (own base : Schema) : Schema :=
  let merged := base.toList.foldl (fun (acc : Schema) p =>
    match own.get? p.name with
    | some q => acc.declare (if q.inherit then q.fill p else q)
    | none => acc.declare p) {}
  own.toList.foldl declareNew merged

def problems (s : Schema) : List Fault :=
  s.toList.filterMap fun p =>
    if p.kind?.isNone then some (.unknownKind p.name)
    else if p.default.isNullish || p.validator.isSome then none
    else match p.checkKind p.default with
      | .ok _ => none
      | .error fault => some fault

end Schema
end LiveTree
