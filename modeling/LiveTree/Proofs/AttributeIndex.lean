import Mathlib.Data.List.Basic
import LiveTree.Schema

/-! The attribute index of a schema. It is kept beside the properties: each declaration drops the
entry of the one that it replaces and puts its own. Whatever is declared, an entry leads to a property
that has that attribute. No entry is missing as long as no two properties had the same attribute at
the same time; where they had, the entry that is dropped may be that of another property. -/
namespace LiveTree.Schema
variable {s : Schema} {p q : Property} {name : String}

def Sound (s : Schema) : Prop :=
  ∀ attr name, s.attributes.get? attr = some name → ∃ p, s.get? name = some p ∧ p.attributeName = attr

def Complete (s : Schema) : Prop :=
  ∀ name p, s.get? name = some p → s.attributes.get? p.attributeName = some name

def Apart (s : Schema) : Prop :=
  ∀ p ∈ s.toList, ∀ q ∈ s.toList, p.attributeName = q.attributeName → p.name = q.name

instance (s : Schema) : Decidable s.Apart :=
  inferInstanceAs (Decidable (∀ p ∈ s.toList, ∀ q ∈ s.toList, _ → _))

theorem Apart.name_eq (apart : s.Apart) {other : String} (here : s.get? name = some p)
    (there : s.get? other = some q) (same : p.attributeName = q.attributeName) : name = other := by
  obtain rfl := name_of_get? here
  obtain rfl := name_of_get? there
  exact apart p (mem_toList.mpr here) q (mem_toList.mpr there) same

theorem Apart.of_within {t : Schema} (apart : t.Apart) (within : s.Within t) : s.Apart := by
  intro p here q there
  exact apart p (mem_toList.mpr (within _ _ (mem_toList.mp here)))
    q (mem_toList.mpr (within _ _ (mem_toList.mp there)))

theorem byAttribute?_eq_some {attr : String} : s.byAttribute? attr = some p ↔
    s.attributes.get? attr = some p.name ∧ s.get? p.name = some p := by
  constructor
  · intro found
    obtain ⟨name, entry, there⟩ := Option.bind_eq_some_iff.mp found
    obtain rfl := name_of_get? there
    exact ⟨entry, there⟩
  · rintro ⟨entry, there⟩
    exact Option.bind_eq_some_iff.mpr ⟨p.name, entry, there⟩

theorem Sound.of_byAttribute? (sound : s.Sound) {attr : String}
    (found : s.byAttribute? attr = some p) :
    s.get? p.name = some p ∧ p.attributeName = attr := by
  obtain ⟨entry, there⟩ := byAttribute?_eq_some.mp found
  obtain ⟨q, same, own⟩ := sound attr p.name entry
  cases there.symm.trans same
  exact ⟨there, own⟩

theorem Complete.byAttribute? (complete : s.Complete) (there : s.get? name = some p) :
    s.byAttribute? p.attributeName = some p := by
  obtain rfl := name_of_get? there
  exact byAttribute?_eq_some.mpr ⟨complete p.name p there, there⟩

theorem sound_empty : ({} : Schema).Sound := fun _ _ => nofun

theorem complete_empty : ({} : Schema).Complete := fun _ _ => nofun

def cleared (s : Schema) (name : String) : Keyed String :=
  match s.get? name with
  | some previous => s.attributes.erase previous.attributeName
  | none => s.attributes

theorem attributes_declare (s : Schema) (p : Property) :
    (s.declare p).attributes = (s.cleared p.name).insert p.attributeName p.name := rfl

theorem get?_cleared (s : Schema) (name attr : String) : (s.cleared name).get? attr =
    if ∃ q, s.get? name = some q ∧ q.attributeName = attr then none else s.attributes.get? attr := by
  unfold cleared
  cases there : s.get? name with
  | none => simp
  | some previous => simp only [Keyed.get?_erase, Option.some.injEq, exists_eq_left', eq_comm]

theorem Sound.declare (sound : s.Sound) (p : Property) : (s.declare p).Sound := by
  intro attr name entry
  rw [attributes_declare] at entry
  by_cases own : attr = p.attributeName
  · -- The new entry leads to the new property.
    rw [own, Keyed.get?_insert_self] at entry
    cases entry
    exact ⟨p, by rw [get?_declare, if_pos rfl], own.symm⟩
  · -- An entry of old that is still there is not that of the property that was replaced.
    rw [Keyed.get?_insert_of_ne _ _ own, get?_cleared] at entry
    split at entry
    · cases entry
    · next kept =>
      obtain ⟨q, there, same⟩ := sound attr name entry
      refine ⟨q, ?_, same⟩
      rw [get?_declare, if_neg, there]
      rintro rfl
      exact kept ⟨q, there, same⟩

theorem Complete.declare (complete : s.Complete) (before : s.Apart) (after : (s.declare p).Apart) :
    (s.declare p).Complete := by
  intro name q there
  have new : (s.declare p).get? p.name = some p := by rw [get?_declare, if_pos rfl]
  rw [attributes_declare]
  by_cases own : name = p.name
  · rw [own, new] at there
    cases there
    rw [own, Keyed.get?_insert_self]
  · have other : q.attributeName ≠ p.attributeName := fun same => own (after.name_eq there new same)
    rw [get?_declare, if_neg own] at there
    rw [Keyed.get?_insert_of_ne _ _ other, get?_cleared, if_neg, complete name q there]
    -- The property that was replaced had another attribute than this one.
    rintro ⟨previous, replaced, same⟩
    exact own (before.name_eq there replaced same.symm)

theorem Sound.declareNew (sound : s.Sound) (p : Property) : (s.declareNew p).Sound := by
  unfold Schema.declareNew
  split
  · exact sound
  · exact sound.declare p

theorem Complete.declareNew (complete : s.Complete) (apart : (s.declareNew p).Apart) :
    (s.declareNew p).Complete := by
  have before : s.Apart := apart.of_within (s.within_declareNew p)
  unfold Schema.declareNew at apart ⊢
  split
  · exact complete
  · next free =>
    rw [if_neg free] at apart
    exact complete.declare before apart

theorem Sound.foldl_declareNew (ps : List Property) (sound : s.Sound) :
    (ps.foldl Schema.declareNew s).Sound := by
  induction ps generalizing s with
  | nil => exact sound
  | cons p rest ih => exact ih (sound.declareNew p)

/-- All schemas on the way lie within the last one, so that it is enough that this one is apart. -/
theorem Complete.foldl_declareNew (ps : List Property) (complete : s.Complete)
    (apart : (ps.foldl Schema.declareNew s).Apart) : (ps.foldl Schema.declareNew s).Complete := by
  induction ps generalizing s with
  | nil => exact complete
  | cons p rest ih =>
    exact ih (complete.declareNew (apart.of_within (within_foldl_declareNew rest _))) apart

def inherited (own : Schema) (p : Property) : Property :=
  match own.get? p.name with
  | some q => if q.inherit then q.fill p else q
  | none => p

theorem name_inherited (own : Schema) (p : Property) : (own.inherited p).name = p.name := by
  unfold inherited
  split
  · next q found =>
    have named := name_of_get? found
    split <;> exact named
  · rfl

theorem foldl_declare_of_fresh {ps : List Property} (distinct : (ps.map Property.name).Nodup)
    (fresh : ∀ p ∈ ps, s.get? p.name = none) :
    ps.foldl Schema.declare s = ps.foldl Schema.declareNew s := by
  induction ps generalizing s with
  | nil => rfl
  | cons p rest ih =>
    obtain ⟨free, distinct⟩ := List.nodup_cons.mp distinct
    have new : s.declareNew p = s.declare p := if_neg fun taken => by
      obtain ⟨q, there⟩ := Option.isSome_iff_exists.mp taken
      exact nomatch (fresh p List.mem_cons_self).symm.trans there
    rw [List.foldl_cons, List.foldl_cons, new]
    refine ih distinct fun q member => ?_
    rw [get?_declare, if_neg, fresh q (List.mem_cons_of_mem _ member)]
    intro same
    exact free (same ▸ List.mem_map_of_mem member)

/-- An extension is made from nothing, by declarations none of which replaces another. -/
theorem extend_eq (own base : Schema) : own.extend base =
    (base.toList.map own.inherited ++ own.toList).foldl Schema.declareNew {} := by
  have each (acc : Schema) (p : Property) : (match own.get? p.name with
      | some q => acc.declare (if q.inherit then q.fill p else q)
      | none => acc.declare p) = acc.declare (own.inherited p) := by
    unfold inherited
    cases own.get? p.name <;> rfl
  have distinct : ((base.toList.map own.inherited).map Property.name).Nodup := by
    have names : Property.name ∘ own.inherited = Property.name := funext own.name_inherited
    rw [List.map_map, names, names_toList]
    exact base.distinct
  rw [List.foldl_append, ← foldl_declare_of_fresh distinct fun _ _ => rfl, List.foldl_map]
  exact congrArg (own.toList.foldl Schema.declareNew)
    (congrArg (List.foldl · {} base.toList) (funext fun acc => funext (each acc)))

inductive Operation
  | declare (p : Property)
  | declareNew (p : Property)
  | extend (base : Schema)

def Operation.apply (s : Schema) : Operation → Schema
  | declare p => s.declare p
  | declareNew p => s.declareNew p
  | extend base => s.extend base

def stages (operations : List Operation) : List Schema := operations.scanl Operation.apply {}

theorem Sound.apply (sound : s.Sound) (o : Operation) : (o.apply s).Sound := by
  cases o with
  | declare p => exact sound.declare p
  | declareNew p => exact sound.declareNew p
  | extend base =>
    rw [Operation.apply, extend_eq]
    exact sound_empty.foldl_declareNew _

theorem Complete.apply (complete : s.Complete) (o : Operation) (before : s.Apart)
    (after : (o.apply s).Apart) : (o.apply s).Complete := by
  cases o with
  | declare p => exact complete.declare before after
  | declareNew p => exact complete.declareNew after
  | extend base =>
    rw [Operation.apply, extend_eq] at after ⊢
    exact complete_empty.foldl_declareNew _ after

theorem Sound.foldl_apply (operations : List Operation) (sound : s.Sound) :
    (operations.foldl Operation.apply s).Sound := by
  induction operations generalizing s with
  | nil => exact sound
  | cons o rest ih => exact ih (sound.apply o)

theorem Complete.foldl_apply (operations : List Operation) (complete : s.Complete)
    (apart : ∀ t ∈ operations.scanl Operation.apply s, t.Apart) :
    (operations.foldl Operation.apply s).Complete := by
  induction operations generalizing s with
  | nil => exact complete
  | cons o rest ih =>
    rw [List.scanl_cons] at apart
    have here : s.Apart := apart s List.mem_cons_self
    have later (t : Schema) (member : t ∈ rest.scanl Operation.apply (o.apply s)) : t.Apart :=
      apart t (List.mem_cons_of_mem _ member)
    have next : (o.apply s).Apart := later _ (by cases rest <;> simp)
    exact ih (complete.apply o here next) later

/-- Whatever was declared, what is found by an attribute is a declared property that has it. If at no
time two properties had the same attribute, each declared property is found by its own, and nothing is
found by any other text. -/
theorem byAttribute?_of_operations (operations : List Operation) :
    let s := operations.foldl Operation.apply {}
    (∀ attr p, s.byAttribute? attr = some p → s.get? p.name = some p ∧ p.attributeName = attr) ∧
      ((∀ t ∈ stages operations, t.Apart) →
        (∀ name p, s.get? name = some p → s.byAttribute? p.attributeName = some p) ∧
        ∀ attr, (∀ name p, s.get? name = some p → p.attributeName ≠ attr) →
          s.byAttribute? attr = none) := by
  intro s
  have sound : s.Sound := sound_empty.foldl_apply operations
  refine ⟨fun attr p found => sound.of_byAttribute? found, fun apart => ⟨fun name p there => ?_, ?_⟩⟩
  · have complete : s.Complete := complete_empty.foldl_apply operations apart
    exact complete.byAttribute? there
  · intro attr other
    refine Option.eq_none_iff_forall_ne_some.mpr fun p found => ?_
    obtain ⟨there, same⟩ := sound.of_byAttribute? found
    exact other p.name p there same

/-- A property gets another attribute, and a schema that has this one is then extended. -/
theorem byAttribute?_of_operations_renamed :
    let title := Property.ofKind "pageTitle" .string
    let operations := [.declare title, .declare { title with attributeName := "caption" },
      .declareNew title, .declare (.ofKind "size" .number),
      .extend (declare {} (.ofKind "open" .boolean))]
    let s := operations.foldl Operation.apply {}
    (∀ t ∈ stages operations, t.Apart) ∧ s.names = ["open", "pageTitle", "size"] ∧
      s.byAttribute? "caption" = s.get? "pageTitle" ∧ s.byAttribute? "page-title" = none := by
  intro title operations s
  have apart : ∀ t ∈ stages operations, t.Apart := by decide +kernel
  obtain ⟨found, others⟩ := (byAttribute?_of_operations operations).2 apart
  have declared : s.get? "pageTitle" = some { title with attributeName := "caption" } := by rfl
  refine ⟨apart, by decide +kernel, ?_, others "page-title" fun name p there => ?_⟩
  · have here := found "pageTitle" _ declared
    rw [declared, ← here]
  · have all : ∀ q ∈ s.toList, q.attributeName ≠ "page-title" := by decide +kernel
    exact all p (mem_toList.mpr (name_of_get? there ▸ there))

theorem Sound.byAttribute?_declare (sound : s.Sound) (p : Property) (attr : String) :
    (s.declare p).byAttribute? attr = if attr = p.attributeName then some p
      else if ∃ q, s.get? p.name = some q ∧ q.attributeName = attr then none
      else s.byAttribute? attr := by
  rw [byAttribute?, attributes_declare]
  by_cases own : attr = p.attributeName
  · rw [if_pos own, own, Keyed.get?_insert_self, Option.bind_some, get?_declare, if_pos rfl]
  · rw [if_neg own, Keyed.get?_insert_of_ne _ _ own, get?_cleared]
    split
    · rfl
    · next kept =>
      -- What is left of the index leads to other properties than the one declared anew.
      refine Option.bind_congr fun name entry => ?_
      rw [get?_declare, if_neg]
      rintro rfl
      exact kept (sound attr p.name entry)

/-- Whatever was declared before, a further declaration is found by its attribute, and by the
attribute of the one that it replaces nothing is found any more, not even if another property has
that attribute and was found by it. What is found by other attributes stays. -/
theorem byAttribute?_declare_of_operations (operations : List Operation) (p : Property)
    (attr : String) :
    let s := operations.foldl Operation.apply {}
    (s.declare p).byAttribute? attr = if attr = p.attributeName then some p
      else if ∃ q, s.get? p.name = some q ∧ q.attributeName = attr then none
      else s.byAttribute? attr :=
  (sound_empty.foldl_apply operations).byAttribute?_declare p attr

/-- If a property is found by its attribute, declaring it anew changes nothing for the attributes by
which others are found. -/
theorem byAttribute?_declare_of_found (operations : List Operation) (p : Property) {attr : String} :
    let s := operations.foldl Operation.apply {}
    (∀ q, s.get? p.name = some q → s.byAttribute? q.attributeName = some q) →
      attr ≠ p.attributeName → (∀ q, s.byAttribute? attr = some q → q.name ≠ p.name) →
      (s.declare p).byAttribute? attr = s.byAttribute? attr := by
  intro s found other apart
  have kept : ¬∃ q, s.get? p.name = some q ∧ q.attributeName = attr := by
    rintro ⟨q, declared, rfl⟩
    exact apart q (found q declared) (name_of_get? declared)
  rw [byAttribute?_declare_of_operations operations p attr, if_neg other, if_neg kept]

theorem byAttribute?_declare_of_found_second :
    let operations : List Operation := [.declare (.ofKind "first" .string), .declare (.ofKind "second" .string)]
    let s := operations.foldl Operation.apply {}
    (s.byAttribute? "second").map Property.name = some "second" ∧
      (s.declare (.ofKind "first" .number)).byAttribute? "second" = s.byAttribute? "second" := by
  intro operations s
  have first : (s.get? "first").map Property.attributeName = some "first" := by decide +kernel
  have found : s.byAttribute? "first" = s.get? "first" := by rfl
  have second : (s.byAttribute? "second").map Property.name = some "second" := by decide +kernel
  refine ⟨second, byAttribute?_declare_of_found operations (.ofKind "first" .number) ?_ (by decide) ?_⟩
  · intro q declared
    have there : s.get? "first" = some q := declared
    rw [there, Option.map_some, Option.some.injEq] at first
    rw [first]
    exact found.trans there
  · intro q there same
    rw [there, Option.map_some, Option.some.injEq, same] at second
    exact absurd second (by decide)

/-- Two properties share an attribute. If the first one gets another, the second is lost. -/
example :
    let first := { Property.ofKind "first" .string with attributeName := "x" }
    let second := { Property.ofKind "second" .string with attributeName := "x" }
    let s := (declare {} first).declare second
    (s.byAttribute? "x").map Property.name = some "second" ∧
      ((s.declare (.ofKind "first" .string)).byAttribute? "x").isNone := by
  decide +kernel

end LiveTree.Schema
