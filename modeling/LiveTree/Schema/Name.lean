/-!
Names of properties and of attributes: `fooBar` as a property is `foo-bar` as an attribute.
-/
namespace LiveTree

def isUpper (c : Char) : Bool := 'A' ≤ c && c ≤ 'Z'

def isLower (c : Char) : Bool := 'a' ≤ c && c ≤ 'z'

def dashedTail : List Char → List Char
  | [] => []
  | c :: cs => if isUpper c then '-' :: c.toLower :: dashedTail cs else c :: dashedTail cs

def dashed : List Char → List Char
  | [] => []
  | c :: cs => c.toLower :: dashedTail cs

def camel : List Char → List Char
  | '-' :: c :: cs => if isLower c then c.toUpper :: camel cs else '-' :: camel (c :: cs)
  | c :: cs => c :: camel cs
  | [] => []

def attributeOf (property : String) : String := String.ofList (dashed property.toList)

def propertyOf (attr : String) : String := String.ofList (camel attr.toList)

theorem isUpper_iff {c : Char} : isUpper c = true ↔ 65 ≤ c.toNat ∧ c.toNat ≤ 90 := by
  simp [isUpper, Char.le_def, UInt32.le_iff_toNat_le, ← Char.toNat_val]

theorem isLower_iff {c : Char} : isLower c = true ↔ 97 ≤ c.toNat ∧ c.toNat ≤ 122 := by
  simp [isLower, Char.le_def, UInt32.le_iff_toNat_le, ← Char.toNat_val]

theorem forall_ascii {P : Char → Prop} (all : ∀ n < 128, P (Char.ofNat n)) {c : Char} (bound : c.toNat < 128) :
    P c := by
  rw [← Char.ofNat_toNat c]
  exact all c.toNat bound

/-- A capital is a small letter in small and comes back from it. -/
theorem toLower_of_isUpper {c : Char} (upper : isUpper c = true) :
    isLower c.toLower = true ∧ c.toLower.toUpper = c := by
  have bound : c.toNat < 128 := Nat.lt_of_le_of_lt (isUpper_iff.mp upper).2 (by decide)
  revert upper
  exact forall_ascii (P := fun c => isUpper c = true → isLower c.toLower = true ∧ c.toLower.toUpper = c)
    (by decide) bound

theorem toUpper_of_isLower {c : Char} (lower : isLower c = true) :
    isUpper c.toUpper = true ∧ c.toUpper.toLower = c := by
  have bound : c.toNat < 128 := Nat.lt_of_le_of_lt (isLower_iff.mp lower).2 (by decide)
  revert lower
  exact forall_ascii (P := fun c => isLower c = true → isUpper c.toUpper = true ∧ c.toUpper.toLower = c)
    (by decide) bound

theorem toLower_of_not_isUpper {c : Char} (other : isUpper c = false) : c.toLower = c := by
  have out : ¬(65 ≤ c.toNat ∧ c.toNat ≤ 90) := by
    rw [← isUpper_iff, other]
    exact Bool.false_ne_true
  unfold Char.toLower
  rw [dif_neg]
  simpa [UInt32.le_iff_toNat_le, ← Char.toNat_val] using out

theorem not_isUpper_of_isLower {c : Char} (lower : isLower c = true) : isUpper c = false := by
  refine Bool.eq_false_iff.mpr fun upper => ?_
  have above := isLower_iff.mp lower
  have below := isUpper_iff.mp upper
  omega

end LiveTree
