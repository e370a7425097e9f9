import LiveTree.Proofs.RoundTrip.Collection
import LiveTree.Value.Kind

/-! The sameness of values is an equivalence, and what the library asks of a value it answers alike for values
that are the same. Of two objects only one is gone through; that the other holds no more comes from its length,
as no name stands twice in either. -/
namespace LiveTree

/-- Records of different names of which one holds all names of the other, and that are as long, hold the
same names. -/
theorem Keyed.names_subset_of_length {α β : Type} {xs : Keyed α} {ys : Keyed β}
    (distinct : (names xs).Nodup) (length : xs.length = ys.length) (held : names xs ⊆ names ys) :
    names ys ⊆ names xs := by
  have bound : (names ys).length ≤ (names xs).length := by simp [names, length]
  exact ((List.subperm_of_subset distinct held).perm_of_length_le bound).symm.subset

namespace Value

theorem sizeOf_member {members : List (String × Value)} {m : String × Value} (member : m ∈ members) :
    sizeOf m.2 < sizeOf members := by
  have := List.sizeOf_lt_of_mem member
  obtain ⟨name, v⟩ := m
  simp only [Prod.mk.sizeOf_spec] at this ⊢
  omega

/-- What holds of all that stands alone, and of arrays and objects if it holds of what is in them, holds
of every value. -/
@[elab_as_elim] theorem nested {motive : Value → Prop}
    (plain : ∀ v : Value, v.array? = none → v.object? = none → motive v)
    (array : ∀ items, (∀ v ∈ items, motive v) → motive (.array items))
    (object : ∀ members, (∀ m ∈ members, motive m.2) → motive (.object members)) : (v : Value) → motive v
  | .array items => array items fun v _ => nested plain array object v
  | .object members => object members fun m _ => nested plain array object m.2
  | .undefined | .null | .bool _ | .number _ | .string _ | .date _ | .function _ => plain _ rfl rfl
termination_by v => sizeOf v
decreasing_by
  · have := List.sizeOf_lt_of_mem ‹_›
    simp
    omega
  · have := sizeOf_member ‹_›
    simp
    omega

variable {x y z : Float}

theorem beq_zero_iff : (x == 0.0) = true ↔ x = 0 ∨ x = -0 := by
  have plus : (0 : Float) ≠ Float.nan := Float.beq_self_iff.mp (by decide)
  have minus : (-0 : Float) ≠ Float.nan := Float.beq_self_iff.mp (by decide)
  change (x == 0) = true ↔ _
  rw [Float.beq_iff_ne_nan_and_eq]
  grind

/-- Numbers are the same if they are one number or both zero. -/
theorem sameNumber_iff : sameNumber x y = true ↔ x = y ∨ (x == 0.0) = true ∧ (y == 0.0) = true := by
  rw [beq_zero_iff, beq_zero_iff]
  simp only [sameNumber, Bool.or_eq_true, Bool.and_eq_true, Float.isNaN_eq_decide_eq_nan,
    decide_eq_true_eq, Float.beq_iff_ne_nan_and_eq]
  have plus : (0 : Float) ≠ Float.nan := Float.beq_self_iff.mp (by decide)
  have minus : (-0 : Float) ≠ Float.nan := Float.beq_self_iff.mp (by decide)
  grind

theorem sameItems_iff {xs ys : List Value} :
    sameItems xs ys = true ↔ List.Forall₂ (fun v w => v.same w = true) xs ys := by
  induction xs generalizing ys with
  | nil => cases ys <;> simp [sameItems]
  | cons v xs ih => cases ys <;> simp [sameItems, ih]

theorem sameMembers_iff {xs ys : List (String × Value)} : sameMembers xs ys = true ↔
    ∀ m ∈ xs, ∃ w, Keyed.get? ys m.1 = some w ∧ m.2.same w = true := by
  induction xs with
  | nil => simp [sameMembers]
  | cons m xs ih =>
    obtain ⟨name, v⟩ := m
    rw [sameMembers, Bool.and_eq_true, ih, List.forall_mem_cons]
    cases Keyed.get? ys name <;> simp

/-- Values that are the same, by what makes them so: functions are told apart by identity, arrays hold the
same items in order, and of objects that are as long one has the other's members under their names. -/
inductive Alike : Value → Value → Prop
  | undefined : Alike .undefined .undefined
  | null : Alike .null .null
  | bool (b : Bool) : Alike (.bool b) (.bool b)
  | number {x y : Float} (same : sameNumber x y = true) : Alike (.number x) (.number y)
  | string (s : String) : Alike (.string s) (.string s)
  | date (t : Instant) : Alike (.date t) (.date t)
  | function {f g : FunctionRef} (same : f.identity = g.identity) : Alike (.function f) (.function g)
  | array {xs ys : List Value} (each : List.Forall₂ (fun v w => v.same w = true) xs ys) :
    Alike (.array xs) (.array ys)
  | object {xs ys : List (String × Value)} (length : xs.length = ys.length)
    (found : ∀ m ∈ xs, ∃ w, Keyed.get? ys m.1 = some w ∧ m.2.same w = true) :
    Alike (.object xs) (.object ys)

theorem same_iff {v w : Value} : v.same w = true ↔ Alike v w := by
  constructor
  · intro same
    unfold Value.same at same
    split at same
    · exact .undefined
    · exact .null
    · exact beq_iff_eq.mp same ▸ .bool _
    · exact .number same
    · exact beq_iff_eq.mp same ▸ .string _
    · exact beq_iff_eq.mp same ▸ .date _
    · exact .function (beq_iff_eq.mp same)
    · exact .array (sameItems_iff.mp same)
    · rw [Bool.and_eq_true, beq_iff_eq] at same
      exact .object same.1 (sameMembers_iff.mp same.2)
    · cases same
  · intro alike
    cases alike with
    | number same => exact same
    | array each => exact sameItems_iff.mpr each
    | object length found =>
      rw [Value.same, Bool.and_eq_true, beq_iff_eq]
      exact ⟨length, sameMembers_iff.mpr found⟩
    | _ => simp_all [Value.same]

variable {u v w : Value}

theorem sameNumber_symm (same : sameNumber x y = true) : sameNumber y x = true := by
  rw [sameNumber_iff] at same ⊢
  exact same.imp Eq.symm And.symm

theorem sameNumber_trans (first : sameNumber x y = true) (second : sameNumber y z = true) :
    sameNumber x z = true := by
  rw [sameNumber_iff] at first second ⊢
  rcases first with rfl | ⟨zero, still⟩
  · exact second
  · rcases second with rfl | ⟨-, zero'⟩
    · exact .inr ⟨zero, still⟩
    · exact .inr ⟨zero, zero'⟩

/-- Objects that are the same hold the same names. -/
theorem names_of_found {xs ys : List (String × Value)} (distinct : (Keyed.names xs).Nodup)
    (length : xs.length = ys.length)
    (found : ∀ m ∈ xs, ∃ w, Keyed.get? ys m.1 = some w ∧ m.2.same w = true) :
    Keyed.names ys ⊆ Keyed.names xs := by
  refine Keyed.names_subset_of_length distinct length fun name held => ?_
  obtain ⟨m, member, rfl⟩ := List.mem_map.mp held
  obtain ⟨w, there, -⟩ := found m member
  exact (Keyed.isSome_get? ys m.1).mp (by rw [there]; rfl)

theorem same_symm (formed : v.WellFormed) (formed' : w.WellFormed) (same : v.same w = true) :
    w.same v = true := by
  induction v using nested generalizing w with
  | plain v array object =>
    rw [same_iff] at same ⊢
    cases same with
    | number same => exact .number (sameNumber_symm same)
    | function same => exact .function same.symm
    | array => cases array
    | object => cases object
    | _ => constructor
  | array xs ih =>
    cases same_iff.mp same with
    | @array _ ys each =>
      obtain ⟨length, each⟩ := List.forall₂_iff_get.mp each
      refine same_iff.mpr (.array (List.forall₂_iff_get.mpr ⟨length.symm, fun i here there => ?_⟩))
      exact ih _ (List.get_mem ..) (wellFormedItems_iff.mp formed _ (List.get_mem ..))
        (wellFormedItems_iff.mp formed' _ (List.get_mem ..)) (each i there here)
  | object xs ih =>
    cases same_iff.mp same with
    | @object _ ys length found =>
      refine same_iff.mpr (.object length.symm fun m member => ?_)
      obtain ⟨name, w⟩ := m
      -- No name of the right side is missing on the left, as there are no more of them.
      have held := names_of_found formed.1 length found (List.mem_map.mpr ⟨_, member, rfl⟩)
      obtain ⟨v, there⟩ := Option.isSome_iff_exists.mp ((Keyed.isSome_get? xs name).mpr held)
      obtain ⟨w', here, same⟩ := found _ (Keyed.mem_of_get? there)
      obtain rfl : w' = w := Option.some.inj (here.symm.trans (Keyed.get?_of_mem formed'.1 member))
      exact ⟨v, there, ih _ (Keyed.mem_of_get? there)
        (wellFormedMembers_iff.mp formed.2 _ (Keyed.mem_of_get? there))
        (wellFormedMembers_iff.mp formed'.2 _ member) same⟩

theorem same_trans (first : u.same v = true) (second : v.same w = true) : u.same w = true := by
  induction u using nested generalizing v w with
  | plain u array object =>
    rw [same_iff] at first second ⊢
    cases first with
    | number same =>
      cases second with
      | number same' => exact .number (sameNumber_trans same same')
    | function same =>
      cases second with
      | function same' => exact .function (same.trans same')
    | array => cases array
    | object => cases object
    | _ => exact second
  | array xs ih =>
    cases same_iff.mp first with
    | array each =>
      cases same_iff.mp second with
      | array each' =>
        obtain ⟨length, each⟩ := List.forall₂_iff_get.mp each
        obtain ⟨length', each'⟩ := List.forall₂_iff_get.mp each'
        refine same_iff.mpr (.array (List.forall₂_iff_get.mpr ⟨length.trans length', fun i here there => ?_⟩))
        exact ih _ (List.get_mem ..) (each i here (length ▸ here)) (each' i (length ▸ here) there)
  | object xs ih =>
    cases same_iff.mp first with
    | object length found =>
      cases same_iff.mp second with
      | object length' found' =>
        refine same_iff.mpr (.object (length.trans length') fun m member => ?_)
        obtain ⟨v, there, same⟩ := found m member
        obtain ⟨w, there', same'⟩ := found' _ (Keyed.mem_of_get? there)
        exact ⟨w, there', ih m member same same'⟩

theorem accepts_of_same (same : v.same w = true) (kind : Kind) (nullable : Bool) :
    kind.accepts nullable v = kind.accepts nullable w := by
  cases same_iff.mp same <;> rfl

theorem truthy_of_same (same : v.same w = true) : v.truthy = w.truthy := by
  cases same_iff.mp same with
  | @number x y same =>
    rcases sameNumber_iff.mp same with rfl | ⟨zero, zero'⟩
    · rfl
    · rw [truthy, truthy, zero, zero']
      rfl
  | _ => rfl

theorem get?_of_found {xs ys : List (String × Value)} (distinct : (Keyed.names xs).Nodup)
    (length : xs.length = ys.length)
    (found : ∀ m ∈ xs, ∃ w, Keyed.get? ys m.1 = some w ∧ m.2.same w = true) (key : String) :
    Option.Rel (fun v w => v.same w = true) (Keyed.get? xs key) (Keyed.get? ys key) := by
  cases there : Keyed.get? xs key with
  | some v =>
    obtain ⟨w, there', same⟩ := found _ (Keyed.mem_of_get? there)
    rw [there']
    exact .some same
  | none =>
    cases there' : Keyed.get? ys key with
    | none => exact .none
    | some w =>
      have held : key ∈ Keyed.names ys := (Keyed.isSome_get? ys key).mp (by rw [there']; rfl)
      have held := (Keyed.isSome_get? xs key).mpr (names_of_found distinct length found held)
      rw [there] at held
      cases held

theorem member?_of_same (formed : v.WellFormed) (same : v.same w = true) (key : String) :
    Option.Rel (fun v w => v.same w = true) (v.member? key) (w.member? key) := by
  cases same_iff.mp same with
  | object length found => exact get?_of_found formed.1 length found key
  | _ => exact .none

theorem follow_of_same (formed : v.WellFormed) (same : v.same w = true) (names : List String) :
    Option.Rel (fun v w => v.same w = true) (v.follow names) (w.follow names) := by
  induction names generalizing v w with
  | nil => exact .some same
  | cons name rest ih =>
    have here := member?_of_same formed same name
    rw [follow, follow]
    generalize there : v.member? name = found, w.member? name = found' at here ⊢
    cases here with
    | none => exact .none
    | some same => exact ih (formed.member? there) same

/-- Whatever is asked of two values that are the same, the answers are alike: no kind tells them apart, nor
does a negated binding, and at every path either both have nothing or what they have is the same. -/
theorem same_congruence {a b : Value} (formed : a.WellFormed) (formed' : b.WellFormed) (c : Value) :
    a.same a = true ∧ (a.same b = true → b.same a = true) ∧
      (a.same b = true → b.same c = true → a.same c = true) ∧
      (a.same b = true →
        (∀ (kind : Kind) nullable, kind.accepts nullable a = kind.accepts nullable b) ∧
        a.truthy = b.truthy ∧
        ∀ path, Option.Rel (fun v w => v.same w = true) (a.get? path) (b.get? path)) :=
  ⟨same_self a formed, same_symm formed formed', same_trans, fun same =>
    ⟨accepts_of_same same, truthy_of_same same, fun path => follow_of_same formed same (segments path)⟩⟩

/-- Three objects with the same members, in which a function goes by different names, not a number stands in
each and zero has either sign. -/
theorem same_congruence_shuffled :
    let nan : Value := .number (0.0 / 0.0)
    let a : Value := .object [("n", .array [nan, .number 0.0]), ("f", .function ⟨"go", 1⟩)]
    let b : Value := .object [("f", .function ⟨"run", 1⟩), ("n", .array [nan, .number (-0.0)])]
    let c : Value := .object [("n", .array [nan, .number 0.0]), ("f", .function ⟨"halt", 1⟩)]
    a.WellFormed ∧ b.WellFormed ∧ a.same b = true ∧ b.same c = true ∧
      a.same a = true ∧ b.same a = true ∧ a.same c = true ∧ a.truthy = b.truthy ∧
      Kind.composite.accepts false a = Kind.composite.accepts false b ∧
      Option.Rel (fun v w => v.same w = true) (a.get? "n") (b.get? "n") := by
  intro nan a b c
  have formed : a.WellFormed := by simp [a, nan, WellFormed, WellFormedMembers, WellFormedItems, Keyed.names]
  have formed' : b.WellFormed := by simp [b, nan, WellFormed, WellFormedMembers, WellFormedItems, Keyed.names]
  have same : a.same b = true := by decide +kernel
  have same' : b.same c = true := by decide +kernel
  obtain ⟨self, back, across, alike⟩ := same_congruence formed formed' c
  obtain ⟨kinds, truth, paths⟩ := alike same
  exact ⟨formed, formed', same, same', self, back same, across same same', truth, kinds _ _, paths _⟩

end Value
end LiveTree
