import Mathlib.Data.List.Basic
import LiveTree.Signature

/-! The check of arguments against a signature. It counts the arguments and then goes through those
that stand at a parameter's place, so that it accepts exactly the lists that are as long as there are
required parameters and of which each argument suits its parameter. A call is served where every
parameter is: the check accepts every such list, and accepts no other one unless a required parameter
stands behind an optional one. Then it takes the optional parameter's argument for that of the required
one behind it, which has none. -/
namespace LiveTree

/-- Every kind has a value. -/
theorem Kind.exists_accepts (kind : Kind) : ∃ v, kind.accepts false v = true := by
  cases kind with
  | string => exact ⟨.string "", rfl⟩
  | number | integer | float => exact ⟨.number 0, rfl⟩
  | boolean => exact ⟨.bool false, rfl⟩
  | date => exact ⟨.date ⟨0, 0⟩, rfl⟩
  | function => exact ⟨.function ⟨"", 0⟩, rfl⟩
  | any => exact ⟨.undefined, rfl⟩
  | array => exact ⟨.array [], rfl⟩
  | object | composite => exact ⟨.object [], rfl⟩

namespace Signature

def takes (p : Parameter) (v : Value) : Bool := (p.optional && v.isUndefined) || fits p.kinds v

def Suits (ps : List Parameter) (vs : List Value) : Prop :=
  ∀ (index : Nat) p v, ps[index]? = some p → vs[index]? = some v → takes p v = true

/-- Every parameter is served: what stands at its place is something that it takes, and nothing stands
there only if it is optional. -/
def Serves (ps : List Parameter) (vs : List Value) : Prop :=
  ∀ (index : Nat) p, ps[index]? = some p → (vs[index]?).elim p.optional (takes p) = true

def Ordered (ps : List Parameter) : Prop :=
  ps.Pairwise fun p q => p.optional = true → q.optional = true

theorem suits_cons {p : Parameter} {ps : List Parameter} {v : Value} {vs : List Value} :
    Suits (p :: ps) (v :: vs) ↔ takes p v = true ∧ Suits ps vs := by
  constructor
  · intro suits
    exact ⟨suits 0 p v rfl rfl, fun index => suits (index + 1)⟩
  · rintro ⟨first, rest⟩ (_ | index) q w at_place given
    · cases at_place
      cases given
      exact first
    · exact rest index q w at_place given

/-- The walk finds nothing exactly if all arguments suit. -/
theorem mismatch?_eq_none (method : String) (index : Nat) {ps : List Parameter} {vs : List Value} :
    mismatch? method index ps vs = none ↔ Suits ps vs := by
  induction ps generalizing index vs with
  | nil => simp [mismatch?, Suits]
  | cons p ps ih =>
    cases vs with
    | nil => simp [mismatch?, Suits]
    | cons v vs =>
      rw [suits_cons, ← ih (index + 1), mismatch?, ← takes]
      cases takes p v <;> simp

/-- What the walk finds is the first argument that its parameter does not take. -/
theorem mismatch?_eq_some (method : String) (index : Nat) (ps : List Parameter) (vs : List Value)
    {fault : Fault} : mismatch? method index ps vs = some fault ↔
      ∃ (place : Nat) (p : Parameter) (v : Value), ps[place]? = some p ∧ vs[place]? = some v ∧ Suits (ps.take place) vs ∧
        takes p v = false ∧
        fault = .argumentKind method v.typeName (label p.kinds) (index + place) := by
  induction ps generalizing index vs with
  | nil => simp [mismatch?]
  | cons p ps ih =>
    cases vs with
    | nil => simp [mismatch?]
    | cons v vs =>
      rw [mismatch?, ← takes]
      cases taken : takes p v with
      | false =>
        rw [if_neg Bool.false_ne_true, Option.some.injEq]
        constructor
        · rintro rfl
          exact ⟨0, p, v, rfl, rfl, by simp [Suits], taken, rfl⟩
        · rintro ⟨_ | place, q, w, at_place, given, before, untaken, rfl⟩
          · cases at_place
            cases given
            rfl
          · rw [List.take_succ_cons, suits_cons, taken] at before
            exact absurd before.1 Bool.false_ne_true
      | true =>
        rw [if_pos rfl, ih]
        constructor
        · rintro ⟨place, q, w, at_place, given, before, untaken, rfl⟩
          exact ⟨place + 1, q, w, at_place, given,
            by rw [List.take_succ_cons, suits_cons]; exact ⟨taken, before⟩, untaken,
            by rw [Nat.add_right_comm, Nat.add_assoc]⟩
        · rintro ⟨_ | place, q, w, at_place, given, before, untaken, rfl⟩
          · cases at_place
            cases given
            exact absurd taken (by rw [untaken]; exact Bool.false_ne_true)
          · rw [List.take_succ_cons, suits_cons] at before
            exact ⟨place, q, w, at_place, given, before.2, untaken,
              by rw [Nat.add_right_comm, Nat.add_assoc]⟩

variable {s : Signature} {method : String} {vs : List Value}

theorem checkArguments_eq_ok :
    s.checkArguments method vs = .ok () ↔ s.required ≤ vs.length ∧ Suits s.parameters vs := by
  rw [checkArguments, ← mismatch?_eq_none method 0]
  by_cases short : vs.length < s.required
  · simp [short, Nat.not_le_of_lt short]
  · cases mismatch? method 0 s.parameters vs <;> simp [short, Nat.le_of_not_lt short]

/-- A refused call is told what is wrong with it: how many arguments it would need at least, or, if
there are enough, the first one that does not suit, with its own kind, the kinds that would suit and
its place. -/
theorem checkArguments_eq_error {fault : Fault} :
    s.checkArguments method vs = .error fault ↔
      vs.length < s.required ∧ fault = .argumentCount method vs.length s.required ∨
      s.required ≤ vs.length ∧
        ∃ place p v, s.parameters[place]? = some p ∧ vs[place]? = some v ∧
          Suits (s.parameters.take place) vs ∧ takes p v = false ∧
          fault = .argumentKind method v.typeName (label p.kinds) place := by
  rw [checkArguments]
  by_cases short : vs.length < s.required
  · rw [if_pos short, Except.error.injEq]
    simp only [short, Nat.not_le_of_lt short, true_and, false_and, or_false, eq_comm]
  · have walk := @mismatch?_eq_some method 0 s.parameters vs fault
    simp only [Nat.zero_add] at walk
    rw [if_neg short, ← walk]
    cases mismatch? method 0 s.parameters vs <;> simp [short, Nat.le_of_not_lt short]

/-- A call serves all parameters if its arguments suit and those that it leaves out are optional. -/
theorem serves_iff {ps : List Parameter} :
    Serves ps vs ↔ Suits ps vs ∧ ∀ p ∈ ps.drop vs.length, p.optional = true := by
  constructor
  · intro serves
    refine ⟨fun index p v at_place given => ?_, fun p left_out => ?_⟩
    · have served := serves index p at_place
      rwa [given] at served
    · obtain ⟨index, at_place⟩ := List.mem_iff_getElem?.mp left_out
      rw [List.getElem?_drop] at at_place
      have served := serves _ p at_place
      rwa [List.getElem?_eq_none (Nat.le_add_right _ _)] at served
  · rintro ⟨suits, left_out⟩ index p at_place
    cases given : vs[index]? with
    | some v => exact suits index p v at_place given
    | none =>
      refine left_out p (List.mem_iff_getElem?.mpr ⟨index - vs.length, ?_⟩)
      rw [List.getElem?_drop, Nat.add_sub_cancel' (List.getElem?_eq_none_iff.mp given), at_place]

/-- Required parameters are counted on both sides of a place. -/
theorem required_split (s : Signature) (n : Nat) :
    s.required = ((s.parameters.take n).filter fun p => !p.optional).length +
      ((s.parameters.drop n).filter fun p => !p.optional).length := by
  rw [required, ← List.length_append, ← List.filter_append, List.take_append_drop]

/-- The check refuses no call that serves all parameters. -/
theorem checkArguments_of_serves (serves : Serves s.parameters vs) :
    s.checkArguments method vs = .ok () := by
  obtain ⟨suits, left_out⟩ := serves_iff.mp serves
  have none_missing : (s.parameters.drop vs.length).filter (fun p => !p.optional) = [] :=
    List.filter_eq_nil_iff.mpr fun p member => by simp [left_out p member]
  refine checkArguments_eq_ok.mpr ⟨?_, suits⟩
  calc s.required
      = ((s.parameters.take vs.length).filter fun p => !p.optional).length := by
        rw [required_split s vs.length, none_missing, List.length_nil, Nat.add_zero]
    _ ≤ (s.parameters.take vs.length).length := List.length_filter_le _ _
    _ ≤ vs.length := List.length_take_le _ _

/-- What the check accepts serves all parameters if no required one stands behind an optional one: a
required one that is left out would have only required ones before it, more than there are arguments
with it. -/
theorem serves_of_checkArguments (ordered : Ordered s.parameters)
    (accepted : s.checkArguments method vs = .ok ()) : Serves s.parameters vs := by
  obtain ⟨enough, suits⟩ := checkArguments_eq_ok.mp accepted
  refine serves_iff.mpr ⟨suits, fun p left_out => ?_⟩
  by_contra needed
  rw [Ordered, ← List.take_append_drop vs.length s.parameters, List.pairwise_append] at ordered
  have before : (s.parameters.take vs.length).filter (fun q => !q.optional) =
      s.parameters.take vs.length :=
    List.filter_eq_self.mpr fun q member => by
      simpa using fun optional => needed (ordered.2.2 q member p left_out optional)
  have missing : 0 < ((s.parameters.drop vs.length).filter fun q => !q.optional).length :=
    List.length_pos_of_mem (List.mem_filter.mpr ⟨left_out, by simpa using needed⟩)
  have beyond : vs.length < s.parameters.length := by
    have := List.length_pos_of_mem left_out
    rw [List.length_drop] at this
    omega
  rw [required_split s vs.length, before, List.length_take_of_le (Nat.le_of_lt beyond)] at enough
  omega

/-- A value that the parameter takes. -/
theorem exists_takes (p : Parameter) : ∃ v, takes p v = true := by
  rcases p with ⟨name, _ | ⟨kind, kinds⟩, optional⟩
  · exact ⟨.undefined, by simp [takes, fits]⟩
  · obtain ⟨v, accepted⟩ := kind.exists_accepts
    exact ⟨v, by simp [takes, fits, accepted]⟩

/-- Arguments taken from samples, one for each of the first parameters, suit. -/
theorem suits_samples {sample : Parameter → Value} (taken : ∀ p, takes p (sample p) = true)
    (ps : List Parameter) (n : Nat) : Suits ps ((ps.take n).map sample) := by
  intro index p v at_place given
  rw [List.getElem?_map, Option.map_eq_some_iff] at given
  obtain ⟨q, there, rfl⟩ := given
  rw [List.getElem?_take] at there
  split at there
  · cases at_place.symm.trans there
    exact taken p
  · cases there

/-- The check is exact for the signatures that have no required parameter behind an optional one, and
for no others: there it accepts as many arguments as there are required parameters, although these do
not reach the last of them. -/
theorem checkArguments_exact (s : Signature) (method : String) :
    (∀ vs, s.checkArguments method vs = .ok () ↔ Serves s.parameters vs) ↔
      Ordered s.parameters := by
  constructor
  · intro exact_check
    choose sample taken using exists_takes
    have bound : s.required ≤ s.parameters.length := List.length_filter_le _ _
    have counted : ((s.parameters.take s.required).map sample).length = s.required := by
      rw [List.length_map, List.length_take_of_le bound]
    have accepted : s.checkArguments method ((s.parameters.take s.required).map sample) = .ok () :=
      checkArguments_eq_ok.mpr ⟨Nat.le_of_eq counted.symm, suits_samples taken _ _⟩
    obtain ⟨-, left_out⟩ := serves_iff.mp ((exact_check _).mp accepted)
    rw [counted] at left_out
    -- None of the required ones is left out, so that they fill the places in front.
    have none_missing : (s.parameters.drop s.required).filter (fun p => !p.optional) = [] :=
      List.filter_eq_nil_iff.mpr fun p member => by simp [left_out p member]
    have filled := required_split s s.required
    rw [none_missing, List.length_nil, Nat.add_zero] at filled
    have front : ∀ p ∈ s.parameters.take s.required, (!p.optional) = true :=
      List.length_filter_eq_length_iff.mp (by rw [← filled, List.length_take_of_le bound])
    rw [Ordered, ← List.take_append_drop s.required s.parameters, List.pairwise_append]
    refine ⟨List.pairwise_iff_forall_sublist.mpr fun {p q} pair optional => ?_,
      List.pairwise_iff_forall_sublist.mpr fun {p q} pair _ => ?_,
      fun p _ q member _ => left_out q member⟩
    · have needed := front p (pair.subset (List.mem_cons_self ..))
      rw [optional] at needed
      exact absurd needed Bool.false_ne_true
    · exact left_out q (pair.subset (List.mem_cons_of_mem _ (List.mem_cons_self ..)))
  · intro ordered vs
    exact ⟨serves_of_checkArguments ordered, checkArguments_of_serves⟩

example : ((read? "(a?: boolean, b: boolean)").map fun s => s.checkArguments "m" [.bool true]) =
    some (.ok ()) := by decide +kernel

end Signature
end LiveTree
