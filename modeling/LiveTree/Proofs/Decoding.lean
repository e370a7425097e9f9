import LiveTree.Codec

/-! What attribute texts are read as. Reading never fails: a text that cannot be read should be
undefined, which overrides nothing, and all else should fit the declared kind. That is so but for two
ways around it, both on the way to a collection: JSON is taken as it comes, whatever it holds, and
the name of an object that the codec holds is taken where an array is declared. -/
namespace LiveTree.Codec
variable {c : Codec} {kind : Kind} {nullable : Bool} {text : String}

def Collects (kind : Kind) : Prop := kind = .array ∨ kind = .object ∨ kind = .composite

def Sound (kind : Kind) (nullable : Bool) (v : Value) : Prop :=
  v = .undefined ∨ kind.accepts nullable v = true

inductive Misread (c : Codec) (nullable : Bool) : Kind → String → Prop
  /-- JSON that is no collection, or an object for an array. What counts as false is dropped. -/
  | json {kind : Kind} {text : String} {json : Json} (collects : Collects kind)
    (word : text ≠ "null") (read : Json.read? text.toList = some json)
    (truthy : (Value.ofJson json).truthy = true)
    (other : kind.accepts nullable (Value.ofJson json) = false) : Misread c nullable kind text
  | global {text : String} {members : List (String × Value)} (word : text ≠ "null")
    (read : Json.read? text.toList = none) (held : c.global? text = some (.object members)) :
    Misread c nullable .array text

theorem read_null (c : Codec) (kind : Kind) (nullable : Bool) :
    c.read kind nullable (some "null") =
      if nullable then .null else if kind = .boolean then .bool true else .undefined := by
  cases kind <;> cases nullable <;> rfl

theorem sound_null : Sound kind nullable (c.read kind nullable (some "null")) := by
  rw [read_null]
  cases nullable with
  | true => exact .inr rfl
  | false =>
    by_cases boolean : kind = .boolean
    · subst boolean
      exact .inr rfl
    · simp only [boolean, Bool.false_eq_true, ↓reduceIte]
      exact .inl rfl

/-- Where no collection is declared, reading is sound. -/
theorem sound_read_plain (plain : ¬Collects kind) (text : Option String) :
    Sound kind nullable (c.read kind nullable text) := by
  cases text with
  | none => cases kind <;> first | exact .inl rfl | exact .inr rfl
  | some text =>
    by_cases word : text = "null"
    · rw [word]
      exact sound_null
    have free : (text == "null") = false := beq_eq_false_iff_ne.mpr word
    cases kind with
    | array | object | composite => exact absurd (by simp [Collects]) plain
    | date =>
      simp only [read, free, Bool.false_eq_true, ↓reduceIte]
      cases Instant.read? text.toList with
      | none => exact .inl rfl
      | some t => exact .inr rfl
    | function =>
      simp only [read, free, Bool.false_eq_true, ↓reduceIte]
      split
      · exact .inr rfl
      · exact .inl rfl
    | _ =>
      simp only [read, free, Bool.false_eq_true, Bool.false_and, ↓reduceIte]
      exact .inr rfl

theorem misread_iff_of_json {json : Json} (collects : Collects kind) (word : text ≠ "null")
    (read : Json.read? text.toList = some json) : Misread c nullable kind text ↔
      (Value.ofJson json).truthy = true ∧ kind.accepts nullable (Value.ofJson json) = false := by
  constructor
  · rintro (⟨-, -, other, truthy, misfit⟩ | ⟨-, other, -⟩)
    · cases read.symm.trans other
      exact ⟨truthy, misfit⟩
    · cases read.symm.trans other
  · rintro ⟨truthy, misfit⟩
    exact .json collects word read truthy misfit

theorem misread_iff_of_name (word : text ≠ "null") (read : Json.read? text.toList = none) :
    Misread c nullable kind text ↔
      kind = .array ∧ ∃ members, c.global? text = some (.object members) := by
  constructor
  · rintro (⟨-, -, other, -, -⟩ | ⟨-, -, held⟩)
    · cases read.symm.trans other
    · exact ⟨rfl, _, held⟩
  · rintro ⟨rfl, members, held⟩
    exact .global word read held

/-- Of the texts of a collection those are misread that go one of the two ways. -/
theorem sound_readStructured_iff (collects : Collects kind) (word : text ≠ "null") :
    Sound kind nullable (c.readStructured kind text) ↔ ¬Misread c nullable kind text := by
  have array (items : List Value) : Sound kind nullable (.array items) := by
    rcases collects with rfl | rfl | rfl <;> exact .inr rfl
  unfold readStructured
  cases read : Json.read? text.toList with
  | some json =>
    rw [misread_iff_of_json collects word read]
    by_cases truthy : (Value.ofJson json).truthy = true
    · have some : Value.ofJson json ≠ .undefined := fun missing => by
        rw [missing] at truthy
        cases truthy
      simp [Sound, truthy, some]
    · simp [Sound, truthy]
  | none =>
    rw [misread_iff_of_name word read]
    dsimp only
    split
    · next members held => rcases collects with rfl | rfl | rfl <;> simp [Sound, Kind.accepts, held]
    · next items held => simp [array, held]
    · next others _ =>
      refine iff_of_true ?_ fun ⟨_, members, held⟩ => others members held
      split
      · exact array _
      · exact .inl rfl

/-- What an attribute is read as overrides nothing or fits the declared kind, for every text and for
an absent attribute, but for the texts that are misread. -/
theorem sound_read_iff (c : Codec) (kind : Kind) (nullable : Bool) (text : Option String) :
    Sound kind nullable (c.read kind nullable text) ↔ ∀ t, text = some t → ¬Misread c nullable kind t := by
  by_cases collects : Collects kind
  · cases text with
    | none =>
      refine ⟨nofun, fun _ => ?_⟩
      rcases collects with rfl | rfl | rfl <;> exact .inl rfl
    | some t =>
      simp only [Option.some.injEq, forall_eq']
      by_cases word : t = "null"
      · rw [word]
        refine ⟨?_, fun _ => sound_null⟩
        rintro - (⟨-, free, -⟩ | ⟨free, -⟩) <;> exact free rfl
      · have free : (t == "null") = false := beq_eq_false_iff_ne.mpr word
        rw [← sound_readStructured_iff collects word]
        rcases collects with rfl | rfl | rfl <;>
          simp only [read, free, Bool.false_eq_true, ↓reduceIte]
  · refine ⟨?_, fun _ => sound_read_plain collects text⟩
    rintro - t - (⟨other, -⟩ | _)
    · exact collects other
    · exact collects (.inl rfl)

/-- A number is taken where an array is declared. -/
example : (({} : Codec).read .array false (some "5")).typeName = "number" := by decide +kernel

end LiveTree.Codec
