import LiveTree.Proofs.RoundTrip.Text

/-!
Arrays and objects as values: what of them survives the way to JSON text and back, and that a value
is the same as itself.
-/
namespace LiveTree.Value
open Double

mutual
/-- Every value is the same as itself if no object in it names a member twice. -/
theorem same_self : (v : Value) → v.WellFormed → v.same v = true
  | .undefined, _ | .null, _ => rfl
  | .bool b, _ => by simp [same]
  | .number x, _ => sameNumber_self x
  | .string s, _ => by simp [same]
  | .date t, _ => by simp [same]
  | .function f, _ => by simp [same]
  | .array items, formed => sameItems_self items formed
  | .object members, formed => by
    rw [same, beq_self_eq_true, Bool.true_and]
    exact sameMembers_of members members formed.2 fun _ member => Keyed.get?_of_mem formed.1 member

theorem sameItems_self : (items : List Value) → WellFormedItems items → sameItems items items = true
  | [], _ => rfl
  | v :: rest, formed => by
    rw [sameItems, same_self v formed.1, sameItems_self rest formed.2]
    rfl

theorem sameMembers_of : (xs ys : List (String × Value)) → WellFormedMembers xs →
    (∀ x ∈ xs, Keyed.get? ys x.1 = some x.2) → sameMembers xs ys = true
  | [], _, _, _ => rfl
  | (name, v) :: rest, ys, formed, found => by
    have here := found (name, v) List.mem_cons_self
    have there := sameMembers_of rest ys formed.2 fun x member =>
      found x (List.mem_cons_of_mem _ member)
    rw [sameMembers, here, there, Bool.and_true]
    exact same_self v formed.1
end

/-- The values that are read back from JSON: whole numbers as far as they are read exactly, and
arrays and objects nested at most `depth` levels. -/
inductive Structured : (depth : Nat) → Value → Prop
  | null {depth : Nat} : Structured depth .null
  | bool {depth : Nat} (b : Bool) : Structured depth (.bool b)
  | number {depth n : Nat} (negative : Bool) (exact : 10 * n < 2 ^ 54) :
    Structured depth (.number (signed negative n))
  | string {depth : Nat} (s : String) : Structured depth (.string s)
  | array {depth : Nat} {items : List Value} (inner : ∀ v ∈ items, Structured depth v) :
    Structured (depth + 1) (.array items)
  | object {depth : Nat} {members : List (String × Value)} (distinct : (Keyed.names members).Nodup)
    (inner : ∀ m ∈ members, Structured depth m.2) : Structured (depth + 1) (.object members)

def Filled : Value → Prop
  | .array items => items ≠ []
  | .object members => members ≠ []
  | _ => False

theorem wellFormedItems_iff {items : List Value} :
    WellFormedItems items ↔ ∀ v ∈ items, v.WellFormed := by
  induction items with
  | nil => simp [WellFormedItems]
  | cons v rest ih => simp [WellFormedItems, ih]

theorem wellFormedMembers_iff {members : List (String × Value)} :
    WellFormedMembers members ↔ ∀ m ∈ members, m.2.WellFormed := by
  induction members with
  | nil => simp [WellFormedMembers]
  | cons m rest ih =>
    obtain ⟨name, v⟩ := m
    simp [WellFormedMembers, ih]

theorem WellFormed.member? {v u : Value} {key : String} (formed : v.WellFormed)
    (found : v.member? key = some u) : u.WellFormed := by
  obtain ⟨members, object, found⟩ := Option.bind_eq_some_iff.mp found
  cases v with
  | object xs =>
    cases object
    exact wellFormedMembers_iff.mp formed.2 _ (Keyed.mem_of_get? found)
  | _ => cases object

theorem Structured.wellFormed {depth : Nat} {v : Value} (structured : Structured depth v) :
    v.WellFormed := by
  induction structured with
  | null | bool | number | string => exact trivial
  | array _ ih => exact wellFormedItems_iff.mpr ih
  | object distinct _ ih => exact ⟨distinct, wellFormedMembers_iff.mpr ih⟩

structure Encodes (depth : Nat) (v : Value) (json : Json) : Prop where
  form : v.toJson? = some json
  back : ofJson json = v
  text : json.ReadsBack depth

theorem itemsToJson_encodes {depth : Nat} {items : List Value}
    (each : ∀ v ∈ items, ∃ json, Encodes depth v json) :
    ofJsonItems (itemsToJson items) = items ∧ ∀ json ∈ itemsToJson items, json.ReadsBack depth := by
  induction items with
  | nil => exact ⟨rfl, by simp [itemsToJson]⟩
  | cons v rest ih =>
    obtain ⟨json, here⟩ := each v List.mem_cons_self
    obtain ⟨back, text⟩ := ih fun w member => each w (List.mem_cons_of_mem _ member)
    have cut : itemsToJson (v :: rest) = json :: itemsToJson rest := by
      rw [itemsToJson, here.form]
      rfl
    rw [cut]
    refine ⟨by rw [ofJsonItems, here.back, back], ?_⟩
    intro j member
    rcases List.mem_cons.mp member with rfl | there
    · exact here.text
    · exact text j there

theorem membersToJson_encodes {depth : Nat} {members : List (String × Value)}
    (each : ∀ m ∈ members, ∃ json, Encodes depth m.2 json) :
    Keyed.names (membersToJson members) = Keyed.names members ∧
      ofJsonMembers (membersToJson members) = members ∧
      ∀ m ∈ membersToJson members, m.2.ReadsBack depth := by
  induction members with
  | nil => exact ⟨rfl, rfl, by simp [membersToJson]⟩
  | cons m rest ih =>
    obtain ⟨name, v⟩ := m
    obtain ⟨json, here⟩ := each (name, v) List.mem_cons_self
    obtain ⟨names, back, text⟩ := ih fun w member => each w (List.mem_cons_of_mem _ member)
    have cut : membersToJson ((name, v) :: rest) = (name, json) :: membersToJson rest := by
      rw [membersToJson, here.form]
    rw [cut]
    refine ⟨congrArg (name :: ·) names, by rw [ofJsonMembers, here.back, back], ?_⟩
    intro j member
    rcases List.mem_cons.mp member with rfl | there
    · exact here.text
    · exact text j there

theorem Structured.encodes {depth : Nat} {v : Value} (structured : Structured depth v) :
    ∃ json, Encodes (depth + 1) v json := by
  induction structured with
  | null => exact ⟨.null, rfl, rfl, Json.readsBack_null⟩
  | bool b => exact ⟨.bool b, rfl, rfl, Json.readsBack_bool b⟩
  | @number _ n negative exact =>
    refine ⟨.number (signed negative n), ?_, rfl, Json.readsBack_number exact negative⟩
    rw [toJson?, if_pos (isFinite_signed (by omega) negative)]
  | string s => exact ⟨.string s, rfl, rfl, Json.readsBack_string s⟩
  | @array _ items _ ih =>
    obtain ⟨back, text⟩ := itemsToJson_encodes ih
    exact ⟨.array (itemsToJson items), rfl, congrArg Value.array back, Json.readsBack_array text⟩
  | @object _ members distinct _ ih =>
    obtain ⟨names, back, text⟩ := membersToJson_encodes ih
    rw [← names] at distinct
    exact ⟨.object (membersToJson members), rfl, congrArg Value.object back,
      Json.readsBack_object distinct text⟩

/-- At most 127 levels are read. -/
theorem Structured.read {v : Value} (structured : Structured 127 v) :
    ∃ json, v.toJson? = some json ∧ Json.read? json.text = some json ∧ ofJson json = v := by
  obtain ⟨json, form, back, text⟩ := structured.encodes
  have closes : Json.Closes [] := by
    intro c member
    cases member
  have read := text.reads [] closes
  rw [List.append_nil] at read
  refine ⟨json, form, ?_, back⟩
  rw [Json.read?, read]
  rfl

end LiveTree.Value
