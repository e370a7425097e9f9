import LiveTree.Proofs.AttributeIndex

/-! Inheritance between schemas. A schema that extends another lists what the base declares, in the
base's order and in its own form where it has one, and then what it alone declares. Extending the
same base once more changes nothing, as a declaration that was filled up has nothing left to fill. -/
namespace LiveTree

namespace Property
variable {p q base : Property}

/-- The second declaration is the first with what it left open taken from a base declaration: its
kind, and then whether it is nullable, its default, its allowed values, its validator and its
observer. Nothing else is another. -/
structure Filled (p base q : Property) : Prop where
  kind : q.kind? = if p.kind? = none then base.kind? else p.kind?
  nullable : q.nullable = if p.kind? = none then base.nullable else p.nullable
  default : q.default = if p.default.isUndefined then base.default else p.default
  allowed : q.allowed = if p.allowed.isNone then base.allowed else p.allowed
  validator : q.validator = if p.validator = none then base.validator else p.validator
  observer : q.observer = if p.observer = none then base.observer else p.observer
  rest : { q with
    kind? := p.kind?, nullable := p.nullable, default := p.default, allowed := p.allowed,
    validator := p.validator, observer := p.observer } = p

inductive Inherits (p : Property) : Option Property → Property → Prop
  | alone : Inherits p none p
  | plain (base : Property) : p.inherit = false → Inherits p (some base) p
  | filled {base q : Property} : p.inherit = true → p.Filled base q → Inherits p (some base) q

theorem filled_fill (p base : Property) : p.Filled base (p.fill base) := by
  refine ⟨?_, ?_, rfl, ?_, ?_, ?_, rfl⟩
  · cases h : p.kind? <;> simp [fill, h]
  · cases h : p.kind? <;> simp [fill, h]
  · cases h : p.allowed <;> simp [fill, h]
  · cases h : p.validator <;> simp [fill, h]
  · cases h : p.observer <;> simp [fill, h]

theorem fill_self (p : Property) : p.fill p = p := by
  simp [fill]

/-- A declaration that was filled up has nothing left to fill from the same base. -/
theorem fill_fill (p base : Property) : (p.fill base).fill base = p.fill base := by
  cases kind : p.kind? <;> cases open_ : p.default.isUndefined <;>
    simp [fill, kind, open_, Option.or_assoc]

end Property

namespace Schema
variable {s : Schema}

theorem contains_iff {name : String} : s.contains name = true ↔ name ∈ s.names :=
  Keyed.isSome_get? s.properties name

theorem toList_declareNew (s : Schema) (p : Property) :
    (s.declareNew p).toList = s.toList ++ if s.contains p.name then [] else [p] := by
  unfold declareNew
  split
  · exact (List.append_nil _).symm
  · next free =>
    have fresh : p.name ∉ Keyed.names s.properties := fun there => free (contains_iff.mpr there)
    change Keyed.entries (s.properties.insert p.name p) = _
    rw [Keyed.insert_of_notMem fresh, Keyed.entries, List.map_append]
    rfl

theorem contains_declareNew (s : Schema) (p : Property) (name : String) :
    (s.declareNew p).contains name = (s.contains name || p.name == name) := by
  unfold declareNew
  split
  · next taken =>
    cases same : p.name == name with
    | false => rw [Bool.or_false]
    | true => rw [Bool.or_true, ← eq_of_beq same, taken]
  · change ((s.declare p).get? name).isSome = ((s.get? name).isSome || p.name == name)
    rw [get?_declare]
    by_cases same : name = p.name
    · simp [same]
    · simp [same, Ne.symm same]

/-- A declaration takes the name of none but itself. -/
theorem filter_free_declareNew {ps : List Property} {p : Property}
    (other : p.name ∉ ps.map Property.name) (s : Schema) :
    (ps.filter fun q => !(s.declareNew p).contains q.name) =
      ps.filter fun q => !s.contains q.name := by
  refine List.filter_congr fun q member => ?_
  have apart : p.name ≠ q.name := fun same => other (same ▸ List.mem_map_of_mem member)
  simp [contains_declareNew, apart]

section Distinct
variable {ps : List Property} (distinct : (ps.map Property.name).Nodup)
include distinct

/-- Of declarations with different names those are added whose names are free. -/
theorem toList_foldl_declareNew (s : Schema) : (ps.foldl declareNew s).toList =
    s.toList ++ ps.filter fun p => !s.contains p.name := by
  induction ps generalizing s with
  | nil => simp
  | cons p rest ih =>
    obtain ⟨other, distinct⟩ := List.nodup_cons.mp distinct
    rw [List.foldl_cons, ih distinct, filter_free_declareNew other, toList_declareNew]
    cases taken : s.contains p.name <;> simp [taken]

/-- The others may as well be left out. -/
theorem foldl_declareNew_filter (s : Schema) :
    ps.foldl declareNew s = (ps.filter fun p => !s.contains p.name).foldl declareNew s := by
  induction ps generalizing s with
  | nil => rfl
  | cons p rest ih =>
    obtain ⟨other, distinct⟩ := List.nodup_cons.mp distinct
    rw [List.foldl_cons, ih distinct, filter_free_declareNew other]
    cases taken : s.contains p.name with
    | true => simp [taken, declareNew]
    | false => simp [taken]

end Distinct

def handedDown (own base : Schema) : Schema :=
  (base.toList.map own.inherited).foldl declareNew {}

theorem extend_eq_foldl (own base : Schema) :
    own.extend base = own.toList.foldl declareNew (own.handedDown base) := by
  rw [extend_eq, List.foldl_append, handedDown]

theorem names_inherited (own base : Schema) :
    (base.toList.map own.inherited).map Property.name = base.names := by
  rw [List.map_map, ← names_toList]
  exact List.map_congr_left fun p _ => own.name_inherited p

theorem toList_handedDown (own base : Schema) :
    (own.handedDown base).toList = base.toList.map own.inherited := by
  have distinct : ((base.toList.map own.inherited).map Property.name).Nodup := by
    rw [names_inherited]
    exact base.distinct
  rw [handedDown, toList_foldl_declareNew distinct]
  exact List.filter_eq_self.mpr fun _ _ => rfl

theorem contains_handedDown (own base : Schema) (name : String) :
    (own.handedDown base).contains name = base.contains name := by
  rw [Bool.eq_iff_iff, contains_iff, contains_iff, ← names_toList, toList_handedDown,
    names_inherited]

theorem distinct_toList (s : Schema) : (s.toList.map Property.name).Nodup := by
  rw [names_toList]
  exact s.distinct

theorem toList_extend (own base : Schema) : (own.extend base).toList =
    base.toList.map own.inherited ++ own.toList.filter fun p => !base.contains p.name := by
  simp only [extend_eq_foldl, toList_foldl_declareNew own.distinct_toList, toList_handedDown,
    contains_handedDown]

theorem names_extend (own base : Schema) : (own.extend base).names =
    base.names ++ own.names.filter fun name => !base.contains name := by
  rw [← names_toList, toList_extend, List.map_append, names_inherited, ← names_toList own,
    List.filter_map]
  rfl

theorem get?_extend_of_base {own base : Schema} {p : Property}
    (there : base.get? p.name = some p) :
    (own.extend base).get? p.name = some (own.inherited p) := by
  have listed : own.inherited p ∈ (own.extend base).toList := by
    rw [toList_extend]
    exact List.mem_append_left _ (List.mem_map_of_mem (mem_toList.mpr there))
  rw [← own.name_inherited p]
  exact mem_toList.mp listed

theorem get?_extend_of_free {own base : Schema} {name : String} (free : base.get? name = none) :
    (own.extend base).get? name = own.get? name := by
  have unknown : base.contains name = false :=
    Option.isSome_eq_false_iff.mpr (Option.isNone_iff_eq_none.mpr free)
  cases there : own.get? name with
  | some q =>
    obtain rfl := name_of_get? there
    refine mem_toList.mp ?_
    rw [toList_extend]
    refine List.mem_append_right _ (List.mem_filter.mpr ⟨mem_toList.mpr there, ?_⟩)
    rw [unknown]
    rfl
  | none =>
    refine Option.eq_none_iff_forall_ne_some.mpr fun q found => ?_
    have listed : name ∈ (own.extend base).names := mem_names.mpr ⟨q, found⟩
    rw [names_extend, List.mem_append, List.mem_filter, mem_names, mem_names, free, there] at listed
    simp at listed

/-- What was handed down once is handed down as it is. -/
theorem inherited_extend {own base : Schema} {p : Property} (there : base.get? p.name = some p) :
    (own.extend base).inherited p = own.inherited p := by
  rw [inherited, get?_extend_of_base there]
  change (if (own.inherited p).inherit then (own.inherited p).fill p else own.inherited p) = _
  unfold inherited
  cases own.get? p.name with
  | none => simp [Property.fill_self]
  | some q => by_cases fills : q.inherit = true <;> simp [fills, Property.fill_fill]

theorem extend_extend (own base : Schema) : (own.extend base).extend base = own.extend base := by
  have same : (own.extend base).handedDown base = own.handedDown base := by
    unfold handedDown
    rw [List.map_congr_left fun p listed => inherited_extend (mem_toList.mp listed)]
  have added : ((own.extend base).toList.filter fun p => !(own.handedDown base).contains p.name) =
      own.toList.filter fun p => !(own.handedDown base).contains p.name := by
    have none_left : ((own.handedDown base).toList.filter
        fun p => !(own.handedDown base).contains p.name) = [] :=
      List.filter_eq_nil_iff.mpr fun p listed => by
        simp [contains_iff, ← names_toList, List.mem_map_of_mem listed]
    rw [extend_eq_foldl, toList_foldl_declareNew own.distinct_toList, List.filter_append, none_left,
      List.nil_append, List.filter_filter]
    simp
  rw [extend_eq_foldl (own.extend base), same,
    foldl_declareNew_filter (own.extend base).distinct_toList, added,
    ← foldl_declareNew_filter own.distinct_toList, extend_eq_foldl]

/-- Extending a base: its names come first, in its order, then those that only the schema itself
declares; what the schema declares is as it says, filled up from the base where it asks for that;
all else is as in the base. Extending the same base again changes nothing, be it the declarations,
their order or what is found by an attribute. -/
theorem extend_inherits (own base : Schema) :
    (own.extend base).names = base.names ++ own.names.filter (fun name => !base.contains name) ∧
    (∀ name, match own.get? name with
      | some p => ∃ q, (own.extend base).get? name = some q ∧ p.Inherits (base.get? name) q
      | none => (own.extend base).get? name = base.get? name) ∧
    (own.extend base).extend base = own.extend base := by
  refine ⟨names_extend own base, fun name => ?_, extend_extend own base⟩
  cases there : base.get? name with
  | none =>
    rw [get?_extend_of_free there]
    cases declared : own.get? name with
    | none => rfl
    | some p => exact ⟨p, rfl, .alone⟩
  | some b =>
    obtain rfl := name_of_get? there
    rw [get?_extend_of_base there, inherited]
    cases declared : own.get? b.name with
    | none => rfl
    | some p =>
      dsimp only
      cases fills : p.inherit with
      | true => exact ⟨p.fill b, rfl, .filled fills (p.filled_fill b)⟩
      | false => exact ⟨p, rfl, .plain b fills⟩

/-- A property that only asks to inherit gets kind and default from the base, and its place. -/
example :
    let size := { Property.ofKind "size" .number with default := .number 3 }
    let base := (declare {} (.ofKind "open" .boolean)).declare size
    let own := (declare {} (.ofKind "label" .string)).declare
      { Property.untyped "size" with inherit := true }
    (own.extend base).names = ["open", "size", "label"] ∧
      ((own.extend base).get? "size").map (fun p => (p.kind?, p.default.display)) =
        some (some .number, "3") := by
  decide +kernel

end Schema
end LiveTree
