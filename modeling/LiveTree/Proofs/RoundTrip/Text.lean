import LiveTree.Proofs.RoundTrip.Number

/-!
JSON text is read back as the data it was written from: strings whatever their characters, arrays
and objects as deep as reading allows, numbers as far as they are read exactly.
-/
namespace LiveTree.Json
open Double

theorem hexValue_hexDigit : ∀ n < 16, hexValue (hexDigit n) = some n := by decide

theorem hex4_control {n : Nat} (small : n < 32) :
    hex4 '0' '0' (hexDigit (n / 16)) (hexDigit (n % 16)) = some n := by
  have zero : hexValue '0' = some 0 := rfl
  rw [hex4, zero, hexValue_hexDigit _ (by omega), hexValue_hexDigit _ (by omega)]
  simp only [Option.bind_eq_bind, Option.bind_some, Option.pure_def, Option.some.injEq]
  omega

theorem stringBody_simple {c d : Char} (escape : simpleEscape c = some d) (cs : List Char) :
    stringBody ('\\' :: c :: cs) = (stringBody cs).map fun r => (d :: r.1, r.2) := by
  have other : c ≠ 'u' := by
    rintro rfl
    cases escape
  rw [stringBody.eq_def]
  split
  case h_4 eq =>
    cases eq
    simp only [escape]
    cases stringBody cs <;> rfl
  case h_5 alone eq =>
    cases eq
    exact (alone _ _ rfl rfl).elim
  all_goals simp_all

theorem stringBody_visible {c : Char} (quote : c ≠ '"') (slash : c ≠ '\\')
    (visible : ¬ c.toNat < 32) (cs : List Char) :
    stringBody (c :: cs) = (stringBody cs).map fun r => (c :: r.1, r.2) := by
  rw [stringBody.eq_def]
  split
  case h_5 eq =>
    cases eq
    rw [if_neg (not_or.mpr ⟨visible, slash⟩)]
    cases stringBody cs <;> rfl
  all_goals simp_all

theorem stringBody_control {c : Char} (control : c.toNat < 32) (cs : List Char) :
    stringBody ('\\' :: 'u' :: '0' :: '0' :: hexDigit (c.toNat / 16) :: hexDigit (c.toNat % 16) ::
      cs) = (stringBody cs).map fun r => (c :: r.1, r.2) := by
  rw [stringBody.eq_def]
  split
  case h_3 eq =>
    cases eq
    simp only [hex4_control control, Option.bind_eq_bind, Option.bind_some]
    rw [if_neg (by omega), if_neg (by omega), Char.ofNat_toNat]
    cases stringBody cs <;> rfl
  case h_4 short eq =>
    cases eq
    exact (short _ _ _ _ _ rfl rfl).elim
  case h_5 alone eq =>
    cases eq
    exact (alone _ _ rfl rfl).elim
  all_goals simp_all

theorem stringBody_escape (c : Char) (cs : List Char) :
    stringBody (escape c ++ cs) = (stringBody cs).map fun r => (c :: r.1, r.2) := by
  unfold escape
  split
  case h_8 quote slash _ _ _ _ _ =>
    split
    · next control => exact stringBody_control control cs
    · next visible => exact stringBody_visible quote slash visible cs
  all_goals exact stringBody_simple rfl cs

/-- A quoted string ends at the quote that was written behind it. -/
theorem stringBody_quote (s rest : List Char) :
    stringBody (s.flatMap escape ++ '"' :: rest) = some (s, rest) := by
  induction s with
  | nil => simp [stringBody]
  | cons c s ih =>
    rw [List.flatMap_cons, List.append_assoc, stringBody_escape, ih]
    rfl

structure ReadsBack (depth : Nat) (json : Json) : Prop where
  opens : ∃ c cs, json.text = c :: cs ∧ Text.isSpace c = false ∧ c ≠ ']'
  reads : ∀ rest, Closes rest → value? depth (json.text ++ rest) = some (json, rest)

variable {depth : Nat}

theorem closes_cons {c : Char} {rest : List Char} (closing : c = ',' ∨ c = ']' ∨ c = '}') :
    Closes (c :: rest) := by
  intro d member
  cases member
  exact closing

theorem readsBack_null : ReadsBack (depth + 1) .null where
  opens := ⟨'n', _, rfl, rfl, by decide⟩
  reads rest _ := by
    change value? (depth + 1) ('n' :: 'u' :: 'l' :: 'l' :: rest) = _
    rw [value?, Text.skipSpaces_cons rfl]
    rfl

theorem readsBack_bool (b : Bool) : ReadsBack (depth + 1) (.bool b) where
  opens := by cases b <;> exact ⟨_, _, rfl, rfl, by decide⟩
  reads rest _ := by
    cases b with
    | true =>
      change value? (depth + 1) ('t' :: 'r' :: 'u' :: 'e' :: rest) = _
      rw [value?, Text.skipSpaces_cons rfl]
      rfl
    | false =>
      change value? (depth + 1) ('f' :: 'a' :: 'l' :: 's' :: 'e' :: rest) = _
      rw [value?, Text.skipSpaces_cons rfl]
      rfl

theorem readsBack_string (s : String) : ReadsBack (depth + 1) (.string s) where
  opens := ⟨'"', _, rfl, rfl, by decide⟩
  reads rest _ := by
    have cut : (Json.string s).text ++ rest = '"' :: (s.toList.flatMap escape ++ '"' :: rest) := by
      simp [text, quote]
    rw [cut, value?, Text.skipSpaces_cons rfl]
    simp [stringBody_quote]

theorem isSpace_of_isDigit {c : Char} (digit : Decimal.isDigit c = true) :
    Text.isSpace c = false := by
  cases space : Text.isSpace c with
  | false => rfl
  | true =>
    have blank := Text.isBlank_of_isSpace space
    rw [Decimal.isBlank_of_isDigit digit] at blank
    cases blank

theorem value?_number {c : Char} {cs : List Char} (number : c = '-' ∨ Decimal.isDigit c = true) :
    value? (depth + 1) (c :: cs) = (number? (c :: cs)).map fun r => (.number r.1, r.2) := by
  have visible : Text.isSpace c = false := by
    rcases number with rfl | digit
    · rfl
    · exact isSpace_of_isDigit digit
  rw [value?, Text.skipSpaces_cons visible]
  split
  case h_7 => rfl
  all_goals
    next eq =>
    cases eq
    rcases number with other | digit
    · cases other
    · cases digit

theorem readsBack_number {n : Nat} (small : 10 * n < 2 ^ 54) (negative : Bool) :
    ReadsBack (depth + 1) (.number (signed negative n)) := by
  have written := numberText_signed (n := n) (by omega) negative
  obtain ⟨c, cs, first, number⟩ : ∃ c cs, (Json.number (signed negative n)).text = c :: cs ∧
      (c = '-' ∨ Decimal.isDigit c = true) := by
    rw [text, written]
    cases negative with
    | true => exact ⟨'-', _, rfl, .inl rfl⟩
    | false =>
      obtain ⟨c, ds, first, digit⟩ := Decimal.exists_digit n
      rw [first]
      exact ⟨c, _, rfl, .inr digit⟩
  constructor
  · refine ⟨c, cs, first, ?_⟩
    rcases number with rfl | digit
    · exact ⟨rfl, by decide⟩
    · refine ⟨isSpace_of_isDigit digit, ?_⟩
      rintro rfl
      cases digit
  · intro rest closes
    have read := number?_text small negative closes
    rw [← written] at read
    rw [first, List.cons_append, value?_number number, ← List.cons_append, ← first, text, read]
    rfl

theorem length_itemsText (xs : List Json) : xs.length ≤ (itemsText xs).length + 1 := by
  induction xs with
  | nil => exact Nat.zero_le _
  | cons x xs ih =>
    cases xs with
    | nil => exact Nat.le_add_left _ _
    | cons y ys =>
      simp only [itemsText, List.length_append, List.length_cons] at ih ⊢
      omega

theorem items_itemsText {xs : List Json} (some : xs ≠ []) (all : ∀ x ∈ xs, ReadsBack depth x)
    (most : Nat) (enough : xs.length ≤ most) (rest : List Char) :
    items (value? depth) most (itemsText xs ++ ']' :: rest) = .some (xs, rest) := by
  induction xs generalizing most with
  | nil => exact (some rfl).elim
  | cons x xs ih =>
    obtain ⟨most, rfl⟩ : ∃ k, most = k + 1 := ⟨most - 1, by simp at enough; omega⟩
    have here := (all x List.mem_cons_self).reads
    cases xs with
    | nil =>
      rw [itemsText, items, here _ (closes_cons (.inr (.inl rfl)))]
      simp [Text.skipSpaces_cons, Text.isSpace]
    | cons y ys =>
      have there := ih (by simp) (fun z member => all z (List.mem_cons_of_mem _ member))
        most (by simpa using enough)
      rw [itemsText, List.append_assoc, List.cons_append, items, here _ (closes_cons (.inl rfl))]
      · simp [Text.skipSpaces_cons, Text.isSpace, there]
      · exact List.cons_ne_nil y ys

theorem itemsText_cons (x : Json) (xs : List Json) :
    ∃ cs, itemsText (x :: xs) = x.text ++ cs := by
  cases xs with
  | nil => exact ⟨[], (List.append_nil _).symm⟩
  | cons y ys => exact ⟨_, rfl⟩

theorem readsBack_array {xs : List Json} (all : ∀ x ∈ xs, ReadsBack (depth + 1) x) :
    ReadsBack (depth + 2) (.array xs) where
  opens := ⟨'[', _, rfl, rfl, by decide⟩
  reads rest closes := by
    have cut : (Json.array xs).text ++ rest = '[' :: (itemsText xs ++ ']' :: rest) := by simp [text]
    rw [cut, value?, Text.skipSpaces_cons rfl]
    cases xs with
    | nil => simp [itemsText, Text.skipSpaces_cons, Text.isSpace]
    | cons x xs =>
      have enough : (x :: xs).length ≤ (itemsText (x :: xs) ++ ']' :: rest).length := by
        have := length_itemsText (x :: xs)
        simp only [List.length_append, List.length_cons] at this ⊢
        omega
      have read := items_itemsText (by simp) all _ enough rest
      obtain ⟨c, cs, first, visible, inner⟩ := (all x List.mem_cons_self).opens
      obtain ⟨ds, more⟩ := itemsText_cons x xs
      have opens : itemsText (x :: xs) ++ ']' :: rest = c :: (cs ++ ds ++ ']' :: rest) := by
        rw [more, first, List.cons_append, List.cons_append]
      simp only [Nat.add_one_ne_zero, if_false, read, Option.map_some]
      rw [opens, Text.skipSpaces_cons visible]
      split
      · next eq => exact (inner (List.cons.inj eq).1).elim
      · rfl

theorem length_membersText (xs : List (String × Json)) :
    xs.length ≤ (membersText xs).length + 1 := by
  induction xs with
  | nil => exact Nat.zero_le _
  | cons x xs ih =>
    cases xs with
    | nil => exact Nat.le_add_left _ _
    | cons y ys =>
      simp only [membersText, List.length_append, List.length_cons] at ih ⊢
      omega

theorem members_membersText {xs : List (String × Json)} (some : xs ≠ [])
    (all : ∀ x ∈ xs, ReadsBack depth x.2) (most : Nat) (enough : xs.length ≤ most)
    (rest : List Char) :
    members (value? depth) most (membersText xs ++ '}' :: rest) = .some (xs, rest) := by
  induction xs generalizing most with
  | nil => exact (some rfl).elim
  | cons x xs ih =>
    obtain ⟨most, rfl⟩ : ∃ k, most = k + 1 := ⟨most - 1, by simp at enough; omega⟩
    obtain ⟨name, value⟩ := x
    have here := (all (name, value) List.mem_cons_self).reads
    cases xs with
    | nil =>
      have cut : membersText [(name, value)] ++ '}' :: rest =
          '"' :: (name.toList.flatMap escape ++ '"' :: ':' :: (value.text ++ '}' :: rest)) := by
        simp [membersText, quote]
      rw [cut, members]
      simp [Text.skipSpaces_cons, Text.isSpace, stringBody_quote, here _ (closes_cons (.inr (.inr rfl)))]
    | cons y ys =>
      have there := ih (by simp) (fun z member => all z (List.mem_cons_of_mem _ member))
        most (by simpa using enough)
      have cut : membersText ((name, value) :: y :: ys) ++ '}' :: rest =
          '"' :: (name.toList.flatMap escape ++ '"' :: ':' :: (value.text ++
            ',' :: (membersText (y :: ys) ++ '}' :: rest))) := by
        simp [membersText, quote]
      rw [cut, members]
      simp [Text.skipSpaces_cons, Text.isSpace, stringBody_quote, here _ (closes_cons (.inl rfl)), there]

theorem readsBack_object {xs : List (String × Json)} (distinct : (Keyed.names xs).Nodup)
    (all : ∀ x ∈ xs, ReadsBack (depth + 1) x.2) : ReadsBack (depth + 2) (.object xs) where
  opens := ⟨'{', _, rfl, rfl, by decide⟩
  reads rest closes := by
    have cut : (Json.object xs).text ++ rest = '{' :: (membersText xs ++ '}' :: rest) := by
      simp [text]
    rw [cut, value?, Text.skipSpaces_cons rfl]
    cases xs with
    | nil => simp [membersText, Text.skipSpaces_cons, Text.isSpace]
    | cons x xs =>
      have enough : (x :: xs).length ≤ (membersText (x :: xs) ++ '}' :: rest).length := by
        have := length_membersText (x :: xs)
        simp only [List.length_append, List.length_cons] at this ⊢
        omega
      have read := members_membersText (by simp) all _ enough rest
      have opens : ∃ cs, membersText (x :: xs) ++ '}' :: rest = '"' :: cs := by
        obtain ⟨name, value⟩ := x
        cases xs <;> exact ⟨_, rfl⟩
      obtain ⟨cs, first⟩ := opens
      simp only [Nat.add_one_ne_zero, if_false, read, Option.map_some]
      rw [first, Text.skipSpaces_cons rfl, Keyed.ofList_of_nodup distinct]
      rfl

end LiveTree.Json
