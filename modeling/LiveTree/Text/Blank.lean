/-!
White space: the characters with the Unicode property White_Space, trimming by them, and the
narrower set of spaces that markup and expressions skip between their parts.
-/
namespace LiveTree.Text

def inRanges (ranges : List (Nat × Nat)) (c : Char) : Bool :=
  ranges.any fun r => r.1 ≤ c.toNat && c.toNat ≤ r.2

def blankRanges : List (Nat × Nat) := [
  (0x9, 0xD), (0x20, 0x20), (0x85, 0x85), (0xA0, 0xA0), (0x1680, 0x1680), (0x2000, 0x200A),
  (0x2028, 0x2029), (0x202F, 0x202F), (0x205F, 0x205F), (0x3000, 0x3000)]

def isBlank (c : Char) : Bool := inRanges blankRanges c

def trimStart (cs : List Char) : List Char := cs.dropWhile isBlank

def trimEnd (cs : List Char) : List Char := (cs.reverse.dropWhile isBlank).reverse

def trim (cs : List Char) : List Char := trimEnd (trimStart cs)

def isSpace (c : Char) : Bool := c == ' ' || c == '\t' || c == '\r' || c == '\n'

def skipSpaces (cs : List Char) : List Char := cs.dropWhile isSpace

/-- What holds of the blanks in the table holds of every blank. -/
theorem forall_isBlank {p : Char → Prop}
    (all : ∀ n ∈ blankRanges.flatMap fun r => List.range' r.1 (r.2 + 1 - r.1), p (Char.ofNat n))
    {c : Char} (blank : isBlank c = true) : p c := by
  obtain ⟨r, member, within⟩ := List.any_eq_true.mp blank
  simp only [Bool.and_eq_true, decide_eq_true_eq] at within
  rw [← Char.ofNat_toNat c]
  exact all c.toNat (List.mem_flatMap.mpr ⟨r, member, List.mem_range'_1.mpr (by omega)⟩)

/-- What is left starts with no blank. -/
theorem isBlank_head_trimStart {c : Char} {cs rest : List Char} (h : trimStart cs = c :: rest) :
    isBlank c = false := by
  induction cs with
  | nil => simp [trimStart] at h
  | cons d cs ih =>
    simp only [trimStart, List.dropWhile] at h
    split at h
    · exact ih h
    · next out =>
      obtain ⟨rfl, _⟩ := List.cons.inj h
      exact out

theorem skipSpaces_cons {c : Char} (visible : isSpace c = false) (cs : List Char) :
    skipSpaces (c :: cs) = c :: cs := by
  rw [skipSpaces, List.dropWhile_cons_of_neg]
  rw [visible]
  exact Bool.false_ne_true

/-- A text with no blank at either end. -/
theorem trim_eq_self {cs : List Char} (first : ∀ c ∈ cs.head?, isBlank c = false)
    (last : ∀ c ∈ cs.getLast?, isBlank c = false) : trim cs = cs := by
  have start {cs : List Char} (first : ∀ c ∈ cs.head?, isBlank c = false) :
      cs.dropWhile isBlank = cs := by
    cases cs with
    | nil => rfl
    | cons c cs => simp [first c rfl]
  rw [trim, trimStart, trimEnd, start first, start (by simpa using last), List.reverse_reverse]

theorem isBlank_of_isSpace {c : Char} (h : isSpace c = true) : isBlank c = true := by
  simp only [isSpace, Bool.or_eq_true, beq_iff_eq] at h
  rcases h with ((rfl | rfl) | rfl) | rfl <;> decide

end LiveTree.Text
