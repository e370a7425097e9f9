/-!
Cutting texts at a character or at the first occurrence of another text, splitting and replacing.
-/
namespace LiveTree.Text

def cutAt (sep : Char) : List Char → Option (List Char × List Char)
  | [] => none
  | c :: cs => if c = sep then some ([], cs) else (cutAt sep cs).map fun r => (c :: r.1, r.2)

def splitOn (sep : Char) : List Char → List (List Char)
  | [] => [[]]
  | c :: cs =>
    if c = sep then [] :: splitOn sep cs
    else match splitOn sep cs with
      | [] => [[c]]
      | piece :: rest => (c :: piece) :: rest

def strip? : (start text : List Char) → Option (List Char)
  | [], text => some text
  | _ :: _, [] => none
  | s :: start, c :: text => if s = c then strip? start text else none

def cutAtText (part : List Char) : List Char → Option (List Char × List Char)
  | [] => (strip? part []).map fun rest => ([], rest)
  | c :: cs =>
    match strip? part (c :: cs) with
    | some rest => some ([], rest)
    | none => (cutAtText part cs).map fun r => (c :: r.1, r.2)

def contains (part text : List Char) : Bool := (cutAtText part text).isSome

/-- Replaces the occurrences of a non-empty `part`, found from left to right without overlap.
`skip` counts the characters of the current occurrence that are still to be passed over. -/
def replaceFrom (part new : List Char) : (skip : Nat) → List Char → List Char
  | _, [] => []
  | skip + 1, _ :: cs => replaceFrom part new skip cs
  | 0, c :: cs =>
    if (strip? part (c :: cs)).isSome then new ++ replaceFrom part new (part.length - 1) cs
    else c :: replaceFrom part new 0 cs

def replace (part new text : List Char) : List Char := replaceFrom part new 0 text

theorem splitOn_ne_nil (sep : Char) (cs : List Char) : splitOn sep cs ≠ [] := by
  cases cs with
  | nil => simp [splitOn]
  | cons c cs =>
    unfold splitOn
    split
    · simp
    · split <;> simp

/-- A text without the separator is its only piece. -/
theorem splitOn_of_notMem {sep : Char} {cs : List Char} (h : sep ∉ cs) : splitOn sep cs = [cs] := by
  induction cs with
  | nil => rfl
  | cons c cs ih =>
    obtain ⟨hc, hcs⟩ := not_or.1 fun m => h (List.mem_cons.2 m)
    rw [splitOn, if_neg (Ne.symm hc), ih hcs]

/-- The first separator ends the first piece. -/
theorem splitOn_append {sep : Char} {piece : List Char} (h : sep ∉ piece) (rest : List Char) :
    splitOn sep (piece ++ sep :: rest) = piece :: splitOn sep rest := by
  induction piece with
  | nil => simp [splitOn]
  | cons c piece ih =>
    obtain ⟨hc, hp⟩ := not_or.1 fun m => h (List.mem_cons.2 m)
    rw [List.cons_append, splitOn, if_neg (Ne.symm hc), ih hp]

theorem strip?_eq_some {start text rest : List Char} (h : strip? start text = some rest) :
    text = start ++ rest := by
  induction start generalizing text with
  | nil => simpa [strip?] using h
  | cons s start ih =>
    cases text with
    | nil => simp [strip?] at h
    | cons c text =>
      simp only [strip?] at h
      split at h
      · next eq => simp [eq, ih h]
      · simp at h

theorem strip?_append (part rest : List Char) : strip? part (part ++ rest) = some rest := by
  induction part with
  | nil => rfl
  | cons c part ih => simp [strip?, ih]

theorem isSome_strip? {start text : List Char} : (strip? start text).isSome = true ↔ start <+: text := by
  constructor
  · intro there
    obtain ⟨rest, found⟩ := Option.isSome_iff_exists.mp there
    exact ⟨rest, (strip?_eq_some found).symm⟩
  · rintro ⟨rest, rfl⟩
    rw [strip?_append]
    rfl

theorem cutAt_eq_some {sep : Char} {cs before after : List Char}
    (h : cutAt sep cs = some (before, after)) : cs = before ++ sep :: after ∧ sep ∉ before := by
  induction cs generalizing before after with
  | nil => simp [cutAt] at h
  | cons c cs ih =>
    simp only [cutAt] at h
    split at h
    · next eq => simp_all
    · next ne =>
      obtain ⟨⟨b, a⟩, hr, eq⟩ := Option.map_eq_some_iff.1 h
      obtain ⟨rfl, rfl⟩ := by simpa using eq
      obtain ⟨eq, notin⟩ := ih hr
      exact ⟨by simp [eq], by simp [notin, Ne.symm ne]⟩

/-- The first separator is where the text is cut. -/
theorem cutAt_append {sep : Char} {before : List Char} (h : sep ∉ before) (after : List Char) :
    cutAt sep (before ++ sep :: after) = some (before, after) := by
  induction before with
  | nil => simp [cutAt]
  | cons c before ih =>
    obtain ⟨hc, hb⟩ := not_or.1 fun m => h (List.mem_cons.2 m)
    rw [List.cons_append, cutAt, if_neg (Ne.symm hc), ih hb]
    rfl

variable {p : Char → Bool} {run rest : List Char}

theorem takeWhile_run (all : ∀ c ∈ run, p c = true) (stops : ∀ c ∈ rest.head?, p c = false) :
    (run ++ rest).takeWhile p = run := by
  rw [List.takeWhile_append_of_pos all]
  cases rest with
  | nil => simp
  | cons c rest => simp [stops c rfl]

theorem dropWhile_run (all : ∀ c ∈ run, p c = true) (stops : ∀ c ∈ rest.head?, p c = false) :
    (run ++ rest).dropWhile p = rest := by
  rw [List.dropWhile_append_of_pos all]
  cases rest with
  | nil => rfl
  | cons c rest => simp [stops c rfl]

end LiveTree.Text
