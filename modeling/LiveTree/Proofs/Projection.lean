import LiveTree.Proofs.Sameness
import LiveTree.Value.Text

/-! What JSON keeps of a value. What has no JSON form is dropped from objects and leaves null in arrays,
numbers without one become null as well, and dates are texts from then on. The way through JSON takes a value
to what is kept of it, and that to itself. -/
namespace LiveTree.Value

def isMute : Value → Bool
  | .undefined | .function _ => true
  | _ => false

def kept : Value → Value
  | .undefined | .null | .function _ => .null
  | .bool b => .bool b
  | .number x => if x.isFinite then .number x else .null
  | .string s => .string s
  | .date t => .string (String.ofList t.text)
  | .array items => .array (items.map kept)
  | .object members => .object ((members.filter fun m => !m.2.isMute).map fun m => (m.1, m.2.kept))
termination_by v => sizeOf v
decreasing_by
  · have := List.sizeOf_lt_of_mem ‹_›
    simp
    omega
  · have := sizeOf_member ‹_›
    simp
    omega

/-- Made of what JSON has: null, truth values, finite numbers, texts, and arrays and objects of such. -/
inductive Plain : Value → Prop
  | null : Plain .null
  | bool (b : Bool) : Plain (.bool b)
  | number {x : Float} (finite : x.isFinite = true) : Plain (.number x)
  | string (s : String) : Plain (.string s)
  | array {items : List Value} (inner : ∀ v ∈ items, Plain v) : Plain (.array items)
  | object {members : List (String × Value)} (inner : ∀ m ∈ members, Plain m.2) : Plain (.object members)

variable {v : Value}

theorem toJson?_eq_none : v.toJson? = none ↔ v.isMute = true := by
  cases v <;> simp [toJson?, isMute]

theorem itemsToJson_eq (items : List Value) :
    itemsToJson items = items.map fun v => v.toJson?.getD .null := by
  induction items with
  | nil => rfl
  | cons v rest ih => rw [itemsToJson, ih, List.map_cons]

/-- The members that have a form are turned into it, the others are gone. -/
theorem membersToJson_eq (members : List (String × Value)) : membersToJson members =
    (members.filter fun m => !m.2.isMute).map fun m => (m.1, m.2.toJson?.getD .null) := by
  induction members with
  | nil => rfl
  | cons m rest ih =>
    obtain ⟨name, v⟩ := m
    cases form : v.toJson? with
    | none => rw [membersToJson, form, ih, List.filter_cons_of_neg (by simp [toJson?_eq_none.mp form])]
    | some json =>
      have sounds : v.isMute = false := by
        rw [← Bool.not_eq_true, ← toJson?_eq_none, form]
        exact Option.some_ne_none json
      rw [membersToJson, form, ih, List.filter_cons_of_pos (by simp [sounds]), List.map_cons, form]
      rfl

theorem ofJsonItems_eq (items : List Json) : ofJsonItems items = items.map ofJson := by
  induction items with
  | nil => rfl
  | cons json rest ih => rw [ofJsonItems, ih, List.map_cons]

theorem ofJsonMembers_eq (members : List (String × Json)) :
    ofJsonMembers members = members.map fun m => (m.1, ofJson m.2) := by
  induction members with
  | nil => rfl
  | cons m rest ih => rw [ofJsonMembers, ih, List.map_cons]

/-- The value that the JSON of a value stands for, null if it has none. -/
theorem ofJson_toJson? (v : Value) : ofJson (v.toJson?.getD .null) = v.kept := by
  induction v using nested with
  | plain v array object =>
    cases v with
    | number x =>
      rw [toJson?, Option.getD_some, kept]
      split <;> rfl
    | array => cases array
    | object => cases object
    | _ => simp [toJson?, ofJson, kept]
  | array items ih =>
    rw [toJson?, Option.getD_some, ofJson, ofJsonItems_eq, itemsToJson_eq, List.map_map, kept]
    exact congrArg _ (List.map_congr_left ih)
  | object members ih =>
    rw [toJson?, Option.getD_some, ofJson, ofJsonMembers_eq, membersToJson_eq, List.map_map, kept]
    exact congrArg _ (List.map_congr_left fun m member =>
      congrArg (m.1, ·) (ih m (List.mem_of_mem_filter member)))

/-- What is kept of a value has the value's JSON. -/
theorem toJson?_kept (v : Value) : v.kept.toJson? = some (v.toJson?.getD .null) := by
  induction v using nested with
  | plain v array object =>
    cases v with
    | number x =>
      rw [toJson?, Option.getD_some, kept]
      split <;> simp_all [toJson?]
    | array => cases array
    | object => cases object
    | _ => simp [toJson?, kept]
  | array items ih =>
    rw [kept, toJson?, toJson?, itemsToJson_eq, itemsToJson_eq, List.map_map, Option.getD_some]
    refine congrArg (some <| Json.array ·) (List.map_congr_left fun v member => ?_)
    rw [Function.comp_apply, ih v member, Option.getD_some]
  | object members ih =>
    -- None of the members that are kept is dropped the second time.
    have whole : ((members.filter fun m => !m.2.isMute).map fun m => (m.1, m.2.kept)).filter
        (fun m => !m.2.isMute) = (members.filter fun m => !m.2.isMute).map fun m => (m.1, m.2.kept) := by
      refine List.filter_eq_self.mpr fun n kept => ?_
      obtain ⟨m, member, rfl⟩ := List.mem_map.mp kept
      rw [Bool.not_eq_true', ← Bool.not_eq_true, ← toJson?_eq_none, ih m (List.mem_of_mem_filter member)]
      exact Option.some_ne_none _
    rw [kept, toJson?, toJson?, membersToJson_eq, membersToJson_eq, whole, List.map_map, Option.getD_some]
    refine congrArg (some <| Json.object ·) (List.map_congr_left fun m member => ?_)
    rw [Function.comp_apply, ih m (List.mem_of_mem_filter member), Option.getD_some]

theorem Plain.isMute_eq (plain : v.Plain) : v.isMute = false := by
  cases plain <;> rfl

theorem Plain.kept_eq (plain : v.Plain) : v.kept = v := by
  induction plain with
  | number finite => rw [kept, if_pos finite]
  | array inner ih => rw [kept, List.map_congr_left ih, List.map_id']
  | @object members inner ih =>
    have whole : (members.filter fun m => !m.2.isMute) = members :=
      List.filter_eq_self.mpr fun m member => by rw [(inner m member).isMute_eq, Bool.not_false]
    rw [kept, whole, List.map_congr_left fun m member => congrArg (m.1, ·) (ih m member), List.map_id']
  | _ => rw [kept]

/-- Only the undefined value and functions have no JSON form. From the form of any other value what is kept
of it is read, which has the same form, so that it is kept as it is from then on; and values that are made
of what JSON has are kept whole. -/
theorem json_keeps (v : Value) :
    (v.toJson? = none ↔ v = .undefined ∨ ∃ f, v = .function f) ∧
      (∀ json, v.toJson? = some json → ofJson json = v.kept ∧ v.kept.toJson? = some json) ∧
      (v.Plain → ∃ json, v.toJson? = some json ∧ ofJson json = v) := by
  refine ⟨?_, fun json form => ?_, fun plain => ?_⟩
  · rw [toJson?_eq_none]
    cases v <;> simp [isMute]
  · have back := ofJson_toJson? v
    have again := toJson?_kept v
    rw [form] at back again
    exact ⟨back, again⟩
  · have back := ofJson_toJson? v
    have again := toJson?_kept v
    rw [plain.kept_eq] at back again
    exact ⟨_, again, back⟩

end LiveTree.Value
