import LiveTree.Proofs.RoundTrip.Calendar
import LiveTree.Proofs.RoundTrip.Collection

/-!
What attributes carry: a value of its kind that is written to an attribute is read back as the same
value. Plain numbers are carried up to `2 ^ 53`; inside arrays and objects, which are JSON, whole
numbers as far as ten times the number is below `2 ^ 54`.
-/
namespace LiveTree.Codec
open Double
open Decimal (digitText minus)

inductive Carries (c : Codec) : Kind → (nullable : Bool) → Value → Prop
  | null (kind : Kind) : Carries c kind true .null
  | bool (nullable b : Bool) : Carries c .boolean nullable (.bool b)
  | nan {kind : Kind} {x : Float} (nullable : Bool) (numeric : kind.isNumeric = true)
    (nan : x.isNaN = true) : Carries c kind nullable (.number x)
  | infinite {kind : Kind} {x : Float} (nullable : Bool) (numeric : kind.isNumeric = true)
    (infinite : x.isInf = true) : Carries c kind nullable (.number x)
  | whole {kind : Kind} {n : Nat} (nullable negative : Bool) (numeric : kind.isNumeric = true)
    (bound : n ≤ 2 ^ 53) : Carries c kind nullable (.number (signed negative n))
  | string {kind : Kind} {s : String} (nullable : Bool) (kinds : kind = .string ∨ kind = .any)
    (free : s ≠ "null") : Carries c kind nullable (.string s)
  | date {t : Instant} (nullable : Bool) (plain : t.Plain) : Carries c .date nullable (.date t)
  | function {f : FunctionRef} (nullable : Bool) (known : c.global? f.name = some (.function f))
    (free : f.name ≠ "null") : Carries c .function nullable (.function f)
  | collection {kind : Kind} {v : Value} (nullable : Bool)
    (kinds : kind = .array ∨ kind = .object ∨ kind = .composite) (filled : v.Filled)
    (structured : v.Structured 127) : Carries c kind nullable v

/-- The text of a number is none of the words that stand for something else. -/
theorem number_ne {word : String} (negative : Bool) (n : Nat)
    (letter : ∀ c ∈ (if negative then word.toList.tail else word.toList).head?,
      Decimal.isDigit c = false) : String.ofList (minus negative ++ digitText n) ≠ word := by
  rintro rfl
  obtain ⟨c, ds, first, digit⟩ := Decimal.exists_digit n
  have out := letter c (by cases negative <;> simp [minus, first])
  rw [digit] at out
  cases out

theorem numberWord?_text (negative : Bool) (n : Nat) :
    numberWord? (String.ofList (minus negative ++ digitText n)) = none := by
  unfold numberWord?
  split
  case h_4 => rfl
  all_goals
    next eq =>
    refine (number_ne negative n ?_ eq).elim
    cases negative <;> simp [Decimal.isDigit]

variable {c : Codec} {kind : Kind} {text : String}

theorem write_numeric (numeric : kind.isNumeric = true) (nullable : Bool) (x : Float) :
    write kind nullable (.number x) = some (String.ofList (Value.numberText x)) := by
  cases kind with
  | number | float | integer => rfl
  | _ => cases numeric

/-- A text that both kinds of numbers read alike. -/
theorem read_numeric (text : String) (numeric : kind.isNumeric = true) (nullable : Bool) {x : Float}
    (free : text ≠ "null") (number : (numberWord? text).getD (numberAtStart text.toList) = x)
    (integer : (numberWord? text).getD (integerAtStart text.toList) = x) :
    c.read kind nullable (some text) = .number x := by
  have word : (text == "null") = false := by simp [free]
  cases kind with
  | number | float => simp [read, word, number]
  | integer => simp [read, word, integer]
  | _ => cases numeric

theorem read_write_nan (numeric : kind.isNumeric = true) (nullable : Bool) {x : Float}
    (nan : x.isNaN = true) :
    c.read kind nullable (write kind nullable (.number x)) = .number Decimal.nan := by
  have written : Value.numberText x = "NaN".toList := by
    rw [Value.numberText, parts_eq, unpack_of_isNaN nan]
  rw [write_numeric numeric, written, String.ofList_toList]
  exact read_numeric _ numeric nullable (by decide) rfl rfl

theorem read_write_infinity (numeric : kind.isNumeric = true) (nullable negative : Bool) :
    c.read kind nullable (write kind nullable (.number (Decimal.infinity negative))) =
      .number (Decimal.infinity negative) := by
  rw [write_numeric numeric]
  cases negative with
  | true => exact read_numeric "-Infinity" numeric nullable (by decide) rfl rfl
  | false => exact read_numeric "Infinity" numeric nullable (by decide) rfl rfl

theorem read_write_zero (numeric : kind.isNumeric = true) (nullable negative : Bool) :
    c.read kind nullable (write kind nullable (.number (signed negative 0))) =
      .number (signed false 0) := by
  rw [write_numeric numeric, Value.numberText_zero]
  exact read_numeric "0" numeric nullable (by decide) rfl rfl

theorem read_write_whole (numeric : kind.isNumeric = true) (nullable negative : Bool) {n : Nat}
    (positive : 0 < n) (bound : n ≤ 2 ^ 53) :
    c.read kind nullable (write kind nullable (.number (signed negative n))) =
      .number (signed negative n) := by
  rw [write_numeric numeric, Value.numberText_signed positive bound]
  apply read_numeric _ numeric nullable (number_ne negative n _)
  · rw [numberWord?_text, String.toList_ofList, Option.getD_none, numberAtStart_text,
      Decimal.nearest_whole positive bound]
  · rw [numberWord?_text, String.toList_ofList, Option.getD_none, integerAtStart_text,
      Decimal.nearest_whole positive bound]
  · cases negative <;> simp [Decimal.isDigit]

theorem read_json (kinds : kind = .array ∨ kind = .object ∨ kind = .composite) (nullable : Bool)
    {v : Value} {json : Json} (read : Json.read? json.text = some json)
    (back : Value.ofJson json = v) (truthy : v.truthy = true)
    (free : json.text ≠ "null".toList) :
    c.read kind nullable (some (String.ofList json.text)) = v := by
  have word : (String.ofList json.text == "null") = false := by
    rw [beq_eq_false_iff_ne]
    intro eq
    rw [← eq, String.toList_ofList] at free
    exact free rfl
  have structured (k : Kind) : c.readStructured k (String.ofList json.text) = v := by
    rw [readStructured, String.toList_ofList, read]
    simp only [back, truthy, if_true]
  rcases kinds with rfl | rfl | rfl
  all_goals
    simp only [Codec.read, word, Bool.false_eq_true, if_false]
    exact structured _

/-- A collection that is written is read back as it was, members in their order. -/
theorem read_write_collection (kinds : kind = .array ∨ kind = .object ∨ kind = .composite)
    (nullable : Bool) {v : Value} (filled : v.Filled) (structured : v.Structured 127) :
    c.read kind nullable (write kind nullable v) = v := by
  obtain ⟨json, form, read, back⟩ := structured.read
  obtain ⟨written, free, truthy⟩ : write kind nullable v = some (String.ofList json.text) ∧
      json.text ≠ "null".toList ∧ v.truthy = true := by
    have shown : write kind nullable v = v.toJson?.map fun json => String.ofList json.text := by
      cases v with
      | array items =>
        cases items with
        | nil => exact (filled rfl).elim
        | cons v rest => rcases kinds with rfl | rfl | rfl <;> rfl
      | object members =>
        cases members with
        | nil => exact (filled rfl).elim
        | cons m rest => rcases kinds with rfl | rfl | rfl <;> rfl
      | _ => exact filled.elim
    rw [shown, form]
    refine ⟨rfl, ?_⟩
    cases v with
    | array items =>
      cases form
      exact ⟨by simp [Json.text], rfl⟩
    | object members =>
      cases form
      exact ⟨by simp [Json.text], rfl⟩
    | _ => exact filled.elim
  rw [written]
  exact read_json kinds nullable read back truthy free

/-- What an attribute carries is read back from it as the same value; a collection is read back
with its members in their order. -/
theorem read_write {nullable : Bool} {v : Value} (carried : Carries c kind nullable v) :
    (c.read kind nullable (write kind nullable v)).same v = true ∧
      (v.Filled → c.read kind nullable (write kind nullable v) = v) := by
  cases carried with
  | null => cases kind <;> exact ⟨rfl, False.elim⟩
  | bool nullable b => cases b <;> cases nullable <;> exact ⟨rfl, False.elim⟩
  | nan _ numeric nan =>
    rw [read_write_nan numeric nullable nan]
    refine ⟨?_, False.elim⟩
    simp only [Value.same, Value.sameNumber, nan, Bool.and_true, Bool.or_eq_true]
    exact .inl rfl
  | infinite _ numeric infinite =>
    obtain ⟨negative, rfl⟩ := eq_infinity infinite
    rw [read_write_infinity numeric nullable negative]
    exact ⟨Value.sameNumber_self _, False.elim⟩
  | @whole _ n _ negative numeric bound =>
    rcases Nat.eq_zero_or_pos n with rfl | positive
    · rw [read_write_zero numeric nullable negative]
      cases negative <;> exact ⟨by decide, False.elim⟩
    · rw [read_write_whole numeric nullable negative positive bound]
      exact ⟨Value.sameNumber_self _, False.elim⟩
  | @string _ s _ kinds free =>
    have word : (s == "null") = false := by simp [free]
    refine ⟨?_, False.elim⟩
    rcases kinds with rfl | rfl
    all_goals
      simp [write, Value.display, Value.text, read, word, Value.same]
  | @date t _ plain =>
    have back := Instant.read?_text plain
    have word : (String.ofList t.text == "null") = false := by
      rw [beq_eq_false_iff_ne]
      intro eq
      have none : Instant.read? "null".toList = none := by decide
      rw [← eq, String.toList_ofList, back] at none
      cases none
    refine ⟨?_, False.elim⟩
    simp [write, Value.display, Value.text, read, word, back, Value.same]
  | @function f _ known free =>
    have word : (f.name == "null") = false := by simp [free]
    refine ⟨?_, False.elim⟩
    simp [write, Value.display, Value.text, read, word, known, Value.same]
  | collection _ kinds filled structured =>
    rw [read_write_collection kinds nullable filled structured]
    exact ⟨Value.same_self v structured.wellFormed, fun _ => rfl⟩

theorem read_write_mixed :
    Carries {} .array false (.array [.number (signed true 7), .string "a"]) ∧
      ({} : Codec).read .array false (write .array false (.array [.number (signed true 7), .string "a"])) =
        .array [.number (signed true 7), .string "a"] := by
  have structured : (Value.array [.number (signed true 7), .string "a"]).Structured 127 :=
    .array (List.forall_mem_cons.mpr ⟨.number true (by decide), List.forall_mem_singleton.mpr (.string "a")⟩)
  have carried : Carries {} .array false (.array [.number (signed true 7), .string "a"]) :=
    .collection false (.inl rfl) (List.cons_ne_nil _ _) structured
  exact ⟨carried, (read_write carried).2 (List.cons_ne_nil _ _)⟩

/-- Past the bound a number in an array may come back as its neighbour. -/
example : (({} : Codec).read .array false (write .array false
    (.array [.number (signed false 1801439850948199)]))).same
      (.array [.number (signed false 1801439850948199)]) = false := by decide +kernel

end LiveTree.Codec
