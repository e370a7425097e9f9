/-!
Records in insertion order: lists of named entries, with at most one entry a name as long as they
are built by the operations of this module.
-/
namespace LiveTree

abbrev Keyed (α : Type) := List (String × α)

namespace Keyed
variable {α β : Type}

def get? : Keyed α → String → Option α
  | [], _ => none
  | (name, a) :: rest, key => if name = key then some a else get? rest key

def contains (xs : Keyed α) (key : String) : Bool := (get? xs key).isSome

def insert : Keyed α → String → α → Keyed α
  | [], key, a => [(key, a)]
  | (name, b) :: rest, key, a =>
    if name = key then (name, a) :: rest else (name, b) :: insert rest key a

def insertNew (xs : Keyed α) (key : String) (a : α) : Keyed α :=
  if contains xs key then xs else xs ++ [(key, a)]

def erase (xs : Keyed α) (key : String) : Keyed α := xs.filter fun x => x.1 ≠ key

def modify (xs : Keyed α) (key : String) (f : α → α) : Keyed α :=
  xs.map fun x => if x.1 = key then (x.1, f x.2) else x

def names (xs : Keyed α) : List String := xs.map (·.1)

def entries (xs : Keyed α) : List α := xs.map (·.2)

def ofList (xs : List (String × α)) : Keyed α := xs.foldl (fun acc x => insert acc x.1 x.2) []

theorem mem_of_get? {xs : Keyed α} {key : String} {a : α} (found : get? xs key = some a) :
    (key, a) ∈ xs := by
  induction xs with
  | nil => cases found
  | cons x rest ih =>
    obtain ⟨name, b⟩ := x
    by_cases h : name = key
    · simp only [get?, h, ↓reduceIte, Option.some.injEq] at found
      rw [h, found]
      exact List.mem_cons_self
    · simp only [get?, h, ↓reduceIte] at found
      exact List.mem_cons_of_mem _ (ih found)

theorem get?_of_mem {xs : Keyed α} (distinct : (names xs).Nodup) {e : String × α} (member : e ∈ xs) :
    get? xs e.1 = some e.2 := by
  induction xs with
  | nil => cases member
  | cons x rest ih =>
    obtain ⟨name, b⟩ := x
    obtain ⟨fresh, apart⟩ := List.nodup_cons.1 distinct
    rcases List.mem_cons.1 member with rfl | there
    · simp [get?]
    · have other : name ≠ e.1 := by
        rintro rfl
        exact fresh (List.mem_map.2 ⟨e, there, rfl⟩)
      rw [get?, if_neg other, ih apart there]

/-- An entry of a record with one entry replaced or added is that one or was there before. -/
theorem mem_insert {xs : Keyed α} {key : String} {a : α} {e : String × α}
    (member : e ∈ insert xs key a) : e = (key, a) ∨ e ∈ xs := by
  induction xs with
  | nil => exact .inl (by simpa [insert] using member)
  | cons x rest ih =>
    obtain ⟨name, b⟩ := x
    by_cases h : name = key
    · rw [insert, if_pos h] at member
      rcases List.mem_cons.mp member with here | there
      · exact .inl (by rw [here, h])
      · exact .inr (List.mem_cons_of_mem _ there)
    · rw [insert, if_neg h] at member
      rcases List.mem_cons.mp member with here | there
      · exact .inr (here ▸ List.mem_cons_self)
      · exact (ih there).imp_right (List.mem_cons_of_mem _)

theorem get?_insert_self (xs : Keyed α) (key : String) (a : α) :
    get? (insert xs key a) key = some a := by
  induction xs with
  | nil => simp [insert, get?]
  | cons x rest ih =>
    obtain ⟨name, b⟩ := x
    by_cases h : name = key <;> simp [insert, get?, h, ih]

theorem get?_insert_of_ne (xs : Keyed α) {key other : String} (a : α) (h : other ≠ key) :
    get? (insert xs key a) other = get? xs other := by
  induction xs with
  | nil => simp [insert, get?, Ne.symm h]
  | cons x rest ih =>
    obtain ⟨name, b⟩ := x
    by_cases hn : name = key
    · subst hn; simp [insert, get?, Ne.symm h]
    · simp only [insert, hn, ↓reduceIte, get?, ih]

theorem names_insert (xs : Keyed α) (key : String) (a : α) :
    names (insert xs key a) = if key ∈ names xs then names xs else names xs ++ [key] := by
  induction xs with
  | nil => simp [insert, names]
  | cons x rest ih =>
    obtain ⟨name, b⟩ := x
    by_cases h : name = key
    · simp [insert, names, h]
    · simp only [names] at ih
      by_cases hm : key ∈ rest.map (·.1) <;> simp [insert, h, names, ih, hm, Ne.symm h]

theorem nodup_insert {xs : Keyed α} (h : (names xs).Nodup) (key : String) (a : α) :
    (names (insert xs key a)).Nodup := by
  rw [names_insert]
  split
  · exact h
  · next out => exact List.nodup_append.2 ⟨h, by simp, by simp; grind⟩

theorem insert_of_notMem {xs : Keyed α} {key : String} (free : key ∉ names xs) (a : α) :
    insert xs key a = xs ++ [(key, a)] := by
  induction xs with
  | nil => rfl
  | cons x rest ih =>
    obtain ⟨name, b⟩ := x
    obtain ⟨other, there⟩ := not_or.1 fun member => free (List.mem_cons.2 member)
    rw [insert, if_neg (Ne.symm other), ih there]
    rfl

/-- Entries of different names are a record as they are. -/
theorem ofList_of_nodup {xs : List (String × α)} (distinct : (names xs).Nodup) : ofList xs = xs := by
  have appended (ys : Keyed α) (fresh : (names (ys ++ xs)).Nodup) :
      xs.foldl (fun acc x => insert acc x.1 x.2) ys = ys ++ xs := by
    induction xs generalizing ys with
    | nil => simp
    | cons x xs ih =>
      have free : x.1 ∉ names ys := by
        intro member
        simp only [names, List.map_append, List.map_cons] at fresh member
        exact (List.nodup_append.1 fresh).2.2 _ member _ List.mem_cons_self rfl
      rw [List.foldl_cons, insert_of_notMem free, ih, List.append_assoc]
      · rfl
      · exact (List.nodup_cons.1 distinct).2
      · simpa [names] using fresh
  exact appended [] distinct

theorem isSome_get? (xs : Keyed α) (key : String) : (get? xs key).isSome = true ↔ key ∈ names xs := by
  induction xs with
  | nil => simp [get?, names]
  | cons x rest ih =>
    obtain ⟨name, b⟩ := x
    simp only [names] at ih
    by_cases h : name = key
    · simp [get?, names, h]
    · simp [get?, names, h, ih, Ne.symm h]

theorem nodup_insertNew {xs : Keyed α} (h : (names xs).Nodup) (key : String) (a : α) :
    (names (insertNew xs key a)).Nodup := by
  unfold insertNew contains
  split
  · exact h
  · next out =>
    rw [isSome_get?] at out
    simp only [names, List.map_append, List.map_cons, List.map_nil] at h out ⊢
    exact List.nodup_append.2 ⟨h, by simp, by simp; grind⟩

/-- A record made from entries that go by their own names is looked up in them. -/
theorem get?_map_entries (xs : Keyed α) (own : α → String) (f : α → β)
    (named : ∀ e ∈ xs, own e.2 = e.1) (key : String) :
    get? (xs.entries.map fun a => (own a, f a)) key = (get? xs key).map f := by
  induction xs with
  | nil => simp [get?, entries]
  | cons x rest ih =>
    obtain ⟨name, b⟩ := x
    have here : own b = name := named (name, b) List.mem_cons_self
    have there := ih fun e member => named e (List.mem_cons_of_mem _ member)
    change get? ((own b, f b) :: (entries rest).map fun a => (own a, f a)) key = _
    by_cases h : name = key
    · simp [get?, here, h]
    · simp [get?, here, h, there]

theorem get?_append (xs ys : Keyed α) (key : String) :
    get? (xs ++ ys) key = (get? xs key).or (get? ys key) := by
  induction xs with
  | nil => simp [get?]
  | cons x rest ih =>
    obtain ⟨name, b⟩ := x
    by_cases h : name = key <;> simp [get?, h, ih]

/-- What was there stays; the new entry is found only under a name that was free. -/
theorem get?_insertNew (xs : Keyed α) (key other : String) (a : α) :
    get? (insertNew xs key a) other =
      (get? xs other).or (if key = other then some a else none) := by
  cases h : get? xs key with
  | some b =>
    have taken : contains xs key = true := by rw [contains, h]; rfl
    rw [insertNew, if_pos taken]
    by_cases eq : key = other
    · subst eq; simp [h]
    · simp [eq]
  | none =>
    have free : contains xs key = false := by rw [contains, h]; rfl
    rw [insertNew, free, if_neg Bool.false_ne_true, get?_append]
    rfl

theorem get?_erase (xs : Keyed α) (key other : String) :
    get? (erase xs key) other = if other = key then none else get? xs other := by
  induction xs with
  | nil => simp [erase, get?]
  | cons x rest ih =>
    obtain ⟨name, b⟩ := x
    simp only [erase] at ih
    by_cases hk : name = key <;> by_cases ho : name = other <;>
      simp_all [erase, get?, Ne.symm]

@[simp] theorem names_modify (xs : Keyed α) (key : String) (f : α → α) :
    names (modify xs key f) = names xs := by
  simp only [names, modify, List.map_map]
  exact List.map_congr_left fun x _ => by by_cases h : x.1 = key <;> simp [h]

theorem get?_modify (xs : Keyed α) (key other : String) (f : α → α) :
    get? (modify xs key f) other =
      if other = key then (get? xs other).map f else get? xs other := by
  induction xs with
  | nil => simp [modify, get?]
  | cons x rest ih =>
    obtain ⟨name, b⟩ := x
    simp only [modify] at ih
    by_cases hk : name = key <;> by_cases ho : name = other <;> simp_all [modify, get?]

end Keyed
end LiveTree
