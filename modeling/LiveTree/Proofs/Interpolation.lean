import Mathlib.Data.List.Basic
import Mathlib.Data.List.Infix
import LiveTree.Catalog
import LiveTree.Fault

/-! Templates and their places. The arguments go into their places one after the other, and a later one is
looked for in what an earlier one has brought in as well. For a template whose braces open nothing but
places this is the same as going through it once, with the values left alone, as long as no value has an
opening brace; the order of the arguments is of no account then. For all templates alike, and values
without braces, it is the same exactly if no value is part of the name of a later argument: what surrounds
the value could complete that name otherwise. -/
namespace LiveTree
namespace Interpolation

def opens (text : List Char) (a : String × String) : Bool := (Text.strip? (placeholder a.1) text).isSome

/-- Puts the arguments into their places in a text that is gone through once, so that what they bring in is
not looked at. `skip` counts the characters of the current place that are still to be passed over. -/
def fillFrom (arguments : List (String × String)) : (skip : Nat) → List Char → List Char
  | _, [] => []
  | skip + 1, _ :: cs => fillFrom arguments skip cs
  | 0, c :: cs =>
    match arguments.find? (opens (c :: cs)) with
    | some a => a.2.toList ++ fillFrom arguments ((placeholder a.1).length - 1) cs
    | none => c :: fillFrom arguments 0 cs

def fill (arguments : List (String × String)) (text : List Char) : List Char := fillFrom arguments 0 text

def Bare (cs : List Char) : Prop := '{' ∉ cs ∧ '}' ∉ cs

instance (cs : List Char) : Decidable (Bare cs) := inferInstanceAs (Decidable (_ ∧ _))

variable {arguments : List (String × String)} {name other : String} {c : Char} {cs text : List Char}

theorem opens_iff {a : String × String} : opens text a = true ↔ placeholder a.1 <+: text := Text.isSome_strip?

theorem fillFrom_length (arguments : List (String × String)) (used text : List Char) :
    fillFrom arguments used.length (used ++ text) = fill arguments text := by
  induction used with
  | nil => rfl
  | cons c used ih => exact ih

/-- Where no place begins the text is left as it is. -/
theorem fill_cons (none : ∀ a ∈ arguments, ¬placeholder a.1 <+: c :: cs) :
    fill arguments (c :: cs) = c :: fill arguments cs := by
  have missing : arguments.find? (opens (c :: cs)) = .none :=
    List.find?_eq_none.mpr fun a member => mt opens_iff.mp (none a member)
  rw [fill, fillFrom, missing]
  rfl

theorem head?_of_starts (starts : placeholder name <+: c :: cs) : c = '{' ∧ cs.head? = some '{' := by
  obtain ⟨rest, same⟩ := starts
  obtain ⟨rfl, behind⟩ := List.cons.inj same
  exact ⟨rfl, by rw [← behind]; rfl⟩

theorem fill_append (free : '{' ∉ cs) (text : List Char) :
    fill arguments (cs ++ text) = cs ++ fill arguments text := by
  induction cs with
  | nil => rfl
  | cons c cs ih =>
    obtain ⟨other, later⟩ := not_or.mp fun member => free (List.mem_cons.mpr member)
    rw [List.cons_append, fill_cons, ih later, List.cons_append]
    exact fun a _ starts => other (head?_of_starts starts).1.symm

theorem fill_free (free : '{' ∉ cs) : fill arguments cs = cs := by
  have kept : fill arguments (cs ++ []) = cs ++ fill arguments [] := fill_append free []
  rwa [List.append_nil, show fill arguments [] = [] from rfl, List.append_nil] at kept

/-- A text that goes on with a brace behind a bare beginning tells where that ends. -/
theorem bare_unique {b b' : Char} {xs ys xs' ys' : List Char} (bare : Bare xs) (bare' : Bare xs')
    (brace : b = '{' ∨ b = '}') (brace' : b' = '{' ∨ b' = '}') (same : xs ++ b :: ys = xs' ++ b' :: ys') :
    xs = xs' ∧ b = b' := by
  induction xs generalizing xs' with
  | nil =>
    cases xs' with
    | nil => exact ⟨rfl, (List.cons.inj same).1⟩
    | cons x xs' =>
      obtain rfl := (List.cons.inj same).1
      rcases brace with rfl | rfl
      · exact absurd List.mem_cons_self bare'.1
      · exact absurd List.mem_cons_self bare'.2
  | cons x xs ih =>
    have later : Bare xs := ⟨mt (List.mem_cons_of_mem x) bare.1, mt (List.mem_cons_of_mem x) bare.2⟩
    cases xs' with
    | nil =>
      obtain rfl := (List.cons.inj same).1
      rcases brace' with rfl | rfl
      · exact absurd List.mem_cons_self bare.1
      · exact absurd List.mem_cons_self bare.2
    | cons x' xs' =>
      obtain ⟨rfl, behind⟩ := List.cons.inj same
      have later' : Bare xs' := ⟨mt (List.mem_cons_of_mem x) bare'.1, mt (List.mem_cons_of_mem x) bare'.2⟩
      obtain ⟨rfl, rfl⟩ := ih later later' behind
      exact ⟨rfl, rfl⟩

theorem placeholder_eq (name : String) (text : List Char) :
    placeholder name ++ text = '{' :: '{' :: (name.toList ++ '}' :: '}' :: text) := by
  simp [placeholder]

/-- Where a place begins no name but its own is found. -/
theorem starts_placeholder_iff (bare : Bare name.toList) (bare' : Bare other.toList) :
    placeholder other <+: placeholder name ++ text ↔ other = name := by
  constructor
  · rintro ⟨rest, same⟩
    rw [placeholder_eq, placeholder_eq] at same
    have same := List.tail_eq_of_cons_eq (List.tail_eq_of_cons_eq same)
    exact String.toList_inj.mp (bare_unique bare' bare (.inr rfl) (.inr rfl) same).1
  · rintro rfl
    exact List.prefix_append _ _

structure WellNamed (arguments : List (String × String)) : Prop where
  names : (Keyed.names arguments).Nodup
  bare : ∀ a ∈ arguments, Bare a.1.toList

theorem WellNamed.singleton {a : String × String} (bare : Bare a.1.toList) : WellNamed [a] where
  names := List.nodup_cons.mpr ⟨List.not_mem_nil, List.nodup_nil⟩
  bare := List.forall_mem_singleton.mpr bare

theorem WellNamed.perm {others : List (String × String)} (named : WellNamed arguments)
    (perm : arguments.Perm others) : WellNamed others where
  names := (perm.map Prod.fst).nodup_iff.mp named.names
  bare a given := named.bare a (perm.mem_iff.mpr given)

/-- At most one argument has a place where the text begins. -/
theorem WellNamed.unique (named : WellNamed arguments) {a b : String × String} (given : a ∈ arguments)
    (given' : b ∈ arguments) (starts : placeholder a.1 <+: text) (starts' : placeholder b.1 <+: text) : a = b := by
  obtain ⟨rest, rfl⟩ := starts
  have same : b.1 = a.1 := (starts_placeholder_iff (named.bare a given) (named.bare b given')).mp starts'
  have value := Keyed.get?_of_mem named.names given'
  rw [same, Keyed.get?_of_mem named.names given] at value
  exact Prod.ext same.symm (Option.some.inj value)

theorem WellNamed.find? (named : WellNamed arguments) {a : String × String} (given : a ∈ arguments)
    (starts : placeholder a.1 <+: text) : arguments.find? (opens text) = some a := by
  obtain ⟨b, found⟩ := Option.isSome_iff_exists.mp (List.find?_isSome.mpr ⟨a, given, opens_iff.mpr starts⟩)
  rw [found, named.unique given (List.mem_of_find?_eq_some found) starts (opens_iff.mp (List.find?_some found))]

/-- A place of an argument takes its value. -/
theorem fill_placeholder (named : WellNamed arguments) {a : String × String} (given : a ∈ arguments)
    (text : List Char) : fill arguments (placeholder a.1 ++ text) = a.2.toList ++ fill arguments text := by
  have found := named.find? given (List.prefix_append (placeholder a.1) text)
  have passed := fillFrom_length arguments (placeholder a.1).tail text
  rw [fill, placeholder_eq, fillFrom, ← placeholder_eq, found]
  refine congrArg (a.2.toList ++ ·) ?_
  rw [← passed, List.length_tail]
  simp [placeholder]

/-- A place without an argument stays. -/
theorem fill_other (bare : ∀ a ∈ arguments, Bare a.1.toList) (bare' : Bare name.toList)
    (missing : name ∉ Keyed.names arguments) (text : List Char) :
    fill arguments (placeholder name ++ text) = placeholder name ++ fill arguments text := by
  have free : '{' ∉ name.toList ++ ['}', '}'] := by simp [bare'.1]
  have behind : fill arguments (name.toList ++ '}' :: '}' :: text) =
      name.toList ++ '}' :: '}' :: fill arguments text := by
    simpa using fill_append free text
  have first : (name.toList ++ '}' :: '}' :: text).head? ≠ some '{' := by
    intro brace
    have member : '{' ∈ (name.toList ++ ['}', '}']).head? := by
      cases letters : name.toList <;> simp_all
    exact free (List.mem_of_mem_head? member)
  rw [placeholder_eq, placeholder_eq, fill_cons, fill_cons]
  · rw [behind]
  · exact fun a _ starts => first (head?_of_starts starts).2
  · intro a given starts
    rw [← placeholder_eq, starts_placeholder_iff bare' (bare a given)] at starts
    exact missing (starts ▸ List.mem_map.mpr ⟨a, given, rfl⟩)

theorem fill_single_other {x : String × String} (bare : Bare x.1.toList) (bare' : Bare name.toList)
    (other : x.1 ≠ name) (text : List Char) :
    fill [x] (placeholder name ++ text) = placeholder name ++ fill [x] text :=
  fill_other (List.forall_mem_singleton.mpr bare) bare' (by simpa [Keyed.names] using other.symm) text

theorem fill_place (named : WellNamed arguments) (bare : Bare name.toList) (text : List Char) :
    fill arguments (placeholder name ++ text) =
      (Keyed.get? arguments name).elim (placeholder name) String.toList ++ fill arguments text := by
  cases found : Keyed.get? arguments name with
  | none =>
    refine fill_other named.bare bare (fun member => ?_) text
    rw [← Keyed.isSome_get?, found] at member
    exact Bool.false_ne_true member
  | some value => exact fill_placeholder named (Keyed.mem_of_get? found) text

/-- The arguments may be given in any order. -/
theorem fill_perm {others : List (String × String)} (named : WellNamed arguments) (perm : arguments.Perm others)
    (text : List Char) : fill arguments text = fill others text := by
  have found (text : List Char) : arguments.find? (opens text) = others.find? (opens text) := by
    cases there : others.find? (opens text) with
    | none => exact List.find?_eq_none.mpr fun a given => List.find?_eq_none.mp there a (perm.mem_iff.mp given)
    | some a =>
      exact named.find? (perm.mem_iff.mpr (List.mem_of_find?_eq_some there)) (opens_iff.mp (List.find?_some there))
  have every (skip : Nat) : fillFrom arguments skip text = fillFrom others skip text := by
    induction text generalizing skip with
    | nil => rw [fillFrom, fillFrom]
    | cons c cs ih =>
      cases skip with
      | zero => simp only [fillFrom, found, ih]
      | succ skip => rw [fillFrom, fillFrom, ih]
  exact every 0

theorem replaceFrom_eq (name value : String) (skip : Nat) (text : List Char) :
    Text.replaceFrom (placeholder name) value.toList skip text = fillFrom [(name, value)] skip text := by
  induction text generalizing skip with
  | nil => rw [Text.replaceFrom, fillFrom]
  | cons c cs ih =>
    cases skip with
    | zero =>
      rw [Text.replaceFrom, fillFrom, List.find?_singleton, opens]
      split <;> simp [ih]
    | succ skip => rw [Text.replaceFrom, fillFrom, ih]

theorem replace_eq_fill (name value : String) (text : List Char) :
    Text.replace (placeholder name) value.toList text = fill [(name, value)] text :=
  replaceFrom_eq name value 0 text

theorem interpolate_eq (template : String) (arguments : List (String × String)) :
    interpolate template arguments =
      String.ofList (arguments.foldl (fun text a => fill [a] text) template.toList) := by
  simp only [interpolate, replace_eq_fill]

/-- A text in which braces open nothing but places of bare names. -/
inductive Flat : List Char → Prop
  | nil : Flat []
  | cons {c : Char} {cs : List Char} (plain : c ≠ '{') (rest : Flat cs) : Flat (c :: cs)
  | place {name : String} {cs : List Char} (bare : Bare name.toList) (rest : Flat cs) : Flat (placeholder name ++ cs)

theorem Flat.append (free : '{' ∉ cs) (flat : Flat text) : Flat (cs ++ text) := by
  induction cs with
  | nil => exact flat
  | cons c cs ih =>
    obtain ⟨other, later⟩ := not_or.mp fun member => free (List.mem_cons.mpr member)
    exact .cons (Ne.symm other) (ih later)

variable {a : String × String}

theorem WellNamed.single (named : WellNamed (a :: arguments)) : WellNamed [a] :=
  .singleton (named.bare a List.mem_cons_self)

theorem WellNamed.tail (named : WellNamed (a :: arguments)) : WellNamed arguments where
  names := (List.nodup_cons.mp named.names).2
  bare b member := named.bare b (List.mem_cons_of_mem a member)

theorem fill_plain (plain : c ≠ '{') : fill arguments (c :: cs) = c :: fill arguments cs :=
  fill_cons fun _ _ starts => plain (head?_of_starts starts).1

theorem Flat.fill (flat : Flat text) (named : WellNamed [a]) (free : '{' ∉ a.2.toList) : Flat (fill [a] text) := by
  induction flat with
  | nil => exact .nil
  | cons plain rest ih =>
    rw [fill_plain plain]
    exact .cons plain ih
  | @place name cs bare rest ih =>
    by_cases here : name = a.1
    · subst here
      rw [fill_placeholder named (List.mem_singleton_self a)]
      exact .append free ih
    · rw [fill_single_other (named.bare a (List.mem_singleton_self a)) bare (Ne.symm here)]
      exact .place bare ih

/-- A place is filled by the argument in front of the others or by those behind it. -/
theorem fill_fill_place (named : WellNamed (a :: arguments)) (free : '{' ∉ a.2.toList) (bare : Bare name.toList)
    (text : List Char) : fill arguments (fill [a] (placeholder name ++ text)) =
      (Keyed.get? (a :: arguments) name).elim (placeholder name) String.toList ++
        fill arguments (fill [a] text) := by
  by_cases here : a.1 = name
  · subst here
    rw [fill_placeholder named.single (List.mem_singleton_self a), fill_append free, Keyed.get?, if_pos rfl]
    rfl
  · rw [fill_single_other (named.bare a List.mem_cons_self) bare here, fill_place named.tail bare, Keyed.get?,
      if_neg here]

/-- In a flat template the value of an argument does not open a place for the others. -/
theorem Flat.fill_fill (flat : Flat text) (named : WellNamed (a :: arguments)) (free : '{' ∉ a.2.toList) :
    Interpolation.fill arguments (Interpolation.fill [a] text) = Interpolation.fill (a :: arguments) text := by
  induction flat with
  | nil => rfl
  | cons plain rest ih => rw [fill_plain plain, fill_plain plain, fill_plain plain, ih]
  | place bare rest ih => rw [fill_fill_place named free bare, fill_place named bare, ih]

theorem fill_nil (text : List Char) : fill [] text = text := by
  induction text with
  | nil => rfl
  | cons c cs ih => rw [fill_cons (List.forall_mem_nil _), ih]

/-- The places of a flat template are all filled at once if no value opens a place of its own. -/
theorem interpolate_of_flat {template : String} (flat : Flat template.toList) (named : WellNamed arguments)
    (free : ∀ a ∈ arguments, '{' ∉ a.2.toList) :
    interpolate template arguments = String.ofList (fill arguments template.toList) := by
  rw [interpolate_eq]
  refine congrArg String.ofList ?_
  generalize template.toList = text at flat
  induction arguments generalizing text with
  | nil => exact (fill_nil text).symm
  | cons a arguments ih =>
    have here := free a List.mem_cons_self
    rw [List.foldl_cons, ih named.tail (fun b member => free b (List.mem_cons_of_mem a member)) _
      (flat.fill named.single here), flat.fill_fill named here]

/-- A value with an opening brace can open a place. -/
example : interpolate "{{a}}{{b}}" [("a", "{{b}}"), ("b", "x")] = "xx" := by decide +kernel

/-- In flat templates, and if no value opens a place, the arguments may be given in any order. -/
theorem interpolate_perm_of_flat {others : List (String × String)} {template : String} (flat : Flat template.toList)
    (named : WellNamed arguments) (perm : arguments.Perm others) (free : ∀ a ∈ arguments, '{' ∉ a.2.toList) :
    interpolate template arguments = interpolate template others := by
  rw [interpolate_of_flat flat named free, interpolate_of_flat flat (named.perm perm)
    fun a given => free a (perm.mem_iff.mpr given), fill_perm named perm]

theorem interpolate_perm_of_flat_swapped :
    Flat "{{a}}, {{b}}".toList ∧ WellNamed [("a", "b"), ("b", "a")] ∧
      interpolate "{{a}}, {{b}}" [("a", "b"), ("b", "a")] = interpolate "{{a}}, {{b}}" [("b", "a"), ("a", "b")] := by
  have flat : Flat "{{a}}, {{b}}".toList := by
    have last : Flat (", ".toList ++ (placeholder "b" ++ [])) := .append (by decide) (.place (by decide) .nil)
    have whole : Flat (placeholder "a" ++ (", ".toList ++ (placeholder "b" ++ []))) := .place (by decide) last
    exact whole
  have named : WellNamed [("a", "b"), ("b", "a")] := ⟨by decide, by decide⟩
  exact ⟨flat, named, interpolate_perm_of_flat flat named (.swap _ _ _) (by decide)⟩

theorem infix_of_infix_placeholder {value : List Char} (bare : Bare value) (inside : value <:+: placeholder name) :
    value <:+: name.toList := by
  cases value with
  | nil => exact List.nil_infix
  | cons x xs =>
    have opened {cs : List Char} (inside : x :: xs <:+: '{' :: cs) : x :: xs <:+: cs := by
      refine (List.infix_cons_iff.mp inside).resolve_left fun starts => bare.1 ?_
      rw [(List.cons_prefix_cons.mp starts).1]
      exact List.mem_cons_self
    have closed {cs : List Char} (inside : x :: xs <:+: cs ++ ['}']) : x :: xs <:+: cs := by
      refine (List.infix_concat_iff.mp inside).resolve_left fun ends => bare.2 ?_
      obtain ⟨front, same⟩ := ends
      have last := congrArg List.getLast? same
      rw [List.getLast?_append_of_ne_nil _ (List.cons_ne_nil x xs), List.getLast?_concat] at last
      exact List.mem_of_getLast? last
    have split : placeholder name = '{' :: '{' :: (name.toList ++ ['}'] ++ ['}']) := by simp [placeholder]
    rw [split] at inside
    exact closed (closed (opened (opened inside)))

/-- What begins like the end of a place in a text with values in it began so before: a bare value that is not
in the name of the place can be neither all of its text nor a part of it. -/
theorem prefix_of_prefix_fill {part : List Char} (named : WellNamed [a]) (bare : Bare a.2.toList)
    (foreign : ¬a.2.toList <:+: name.toList) (behind : part <:+ placeholder name)
    (starts : part <+: fill [a] text) : part <+: text := by
  induction part generalizing text with
  | nil => exact List.nil_prefix
  | cons d part ih =>
    have last : '}' ∈ d :: part := by
      obtain ⟨front, same⟩ := behind
      have last := congrArg List.getLast? same
      rw [List.getLast?_append_of_ne_nil _ (List.cons_ne_nil d part), placeholder] at last
      exact List.mem_of_getLast? (last.trans (by simp [List.getLast?_cons]))
    have later := (List.suffix_cons d part).trans behind
    by_cases place : placeholder a.1 <+: text
    · obtain ⟨rest, rfl⟩ := place
      rw [fill_placeholder named (List.mem_singleton_self a)] at starts
      rcases List.prefix_or_prefix_of_prefix starts (List.prefix_append _ _) with inner | outer
      · exact absurd (inner.subset last) bare.2
      · exact absurd (infix_of_infix_placeholder bare (outer.isInfix.trans behind.isInfix)) foreign
    · cases text with
      | nil => exact starts
      | cons c cs =>
        rw [fill_cons fun b member => List.mem_singleton.mp member ▸ place] at starts
        obtain ⟨same, inner⟩ := List.cons_prefix_cons.mp starts
        exact List.cons_prefix_cons.mpr ⟨same, ih later inner⟩

theorem fill_fill (named : WellNamed (a :: arguments)) (bare : Bare a.2.toList)
    (foreign : ∀ b ∈ arguments, ¬a.2.toList <:+: b.1.toList) (text : List Char) :
    fill arguments (fill [a] text) = fill (a :: arguments) text := by
  -- By the length of the text, since a place takes several characters at once.
  induction length : text.length using Nat.strongRecOn generalizing text with
  | _ n ih =>
    by_cases place : ∃ b ∈ a :: arguments, placeholder b.1 <+: text
    · obtain ⟨b, given, rest, rfl⟩ := place
      have shorter : rest.length < n := by
        rw [← length, List.length_append, placeholder]
        simp
      have bare_b := named.bare b given
      rw [fill_fill_place named bare.1 bare_b, fill_place named bare_b, ih _ shorter rest rfl]
    · have none (b : String × String) (given : b ∈ a :: arguments) : ¬placeholder b.1 <+: text :=
        fun starts => place ⟨b, given, starts⟩
      cases text with
      | nil => rfl
      | cons c cs =>
        have here : fill [a] (c :: cs) = c :: fill [a] cs :=
          fill_cons fun b member => List.mem_singleton.mp member ▸ none a List.mem_cons_self
        rw [here, fill_cons none, fill_cons, ih _ (by rw [← length]; exact Nat.lt_succ_self _) cs rfl]
        intro b given starts
        rw [← here] at starts
        exact none b (List.mem_cons_of_mem a given) (prefix_of_prefix_fill named.single bare (foreign b given)
          List.suffix_rfl starts)

/-- The places of any template are all filled at once if the values are bare and none is in the name of a
later argument. -/
theorem interpolate_of_foreign (named : WellNamed arguments) (bare : ∀ a ∈ arguments, Bare a.2.toList)
    (foreign : arguments.Pairwise fun a b => ¬a.2.toList <:+: b.1.toList) (template : String) :
    interpolate template arguments = String.ofList (fill arguments template.toList) := by
  rw [interpolate_eq]
  refine congrArg String.ofList ?_
  generalize template.toList = text
  induction arguments generalizing text with
  | nil => exact (fill_nil text).symm
  | cons a arguments ih =>
    obtain ⟨first, foreign⟩ := List.pairwise_cons.mp foreign
    rw [List.foldl_cons, ih named.tail (fun b member => bare b (List.mem_cons_of_mem a member)) foreign,
      fill_fill named (bare a List.mem_cons_self) first]

def nestedPlace (left : List Char) (name : String) (right : List Char) : List Char :=
  '{' :: '{' :: (left ++ (placeholder name ++ (right ++ ['}', '}'])))

variable {left right : List Char}

/-- No place begins where a bare beginning is cut off by another place. -/
theorem not_starts_nested (bare : Bare name.toList) (bare' : Bare left) (text : List Char) :
    ¬placeholder name <+: '{' :: '{' :: (left ++ '{' :: text) := by
  rintro ⟨rest, same⟩
  rw [placeholder_eq] at same
  have behind := List.tail_eq_of_cons_eq (List.tail_eq_of_cons_eq same)
  exact absurd (bare_unique bare bare' (.inr rfl) (.inl rfl) behind).2 (by decide)

/-- Of a place in a place only the inner one is filled. -/
theorem fill_nestedPlace (bare : ∀ a ∈ arguments, Bare a.1.toList) (bare' : Bare left)
    (name : String) (right : List Char) : fill arguments (nestedPlace left name right) =
      '{' :: '{' :: (left ++ fill arguments (placeholder name ++ (right ++ ['}', '}']))) := by
  rw [nestedPlace, fill_cons, fill_cons, fill_append bare'.1]
  · intro a given starts
    cases left with
    | nil =>
      rw [List.nil_append, placeholder_eq] at starts
      exact not_starts_nested (bare a given) ⟨List.not_mem_nil, List.not_mem_nil⟩ _ starts
    | cons c left =>
      have second := (head?_of_starts starts).2
      rw [List.cons_append, List.head?_cons, Option.some.injEq] at second
      exact bare'.1 (second ▸ List.mem_cons_self)
  · intro a given starts
    rw [placeholder_eq] at starts
    exact not_starts_nested (bare a given) bare' _ starts

theorem fill_nestedPlace_other {x : String × String} (bare : Bare x.1.toList) (bare_name : Bare name.toList)
    (bare_left : Bare left) (bare_right : Bare right) (other : x.1 ≠ name) :
    fill [x] (nestedPlace left name right) = nestedPlace left name right := by
  have free : '{' ∉ right ++ ['}', '}'] := by simp [bare_right.1]
  rw [fill_nestedPlace (List.forall_mem_singleton.mpr bare) bare_left, fill_single_other bare bare_name other,
    fill_free free]
  rfl

theorem fill_nestedPlace_self (bare : Bare a.1.toList) (bare_left : Bare left) (bare_right : Bare right)
    (spelled : left ++ a.2.toList ++ right = name.toList) :
    fill [a] (nestedPlace left a.1 right) = placeholder name := by
  have free : '{' ∉ right ++ ['}', '}'] := by simp [bare_right.1]
  rw [fill_nestedPlace (List.forall_mem_singleton.mpr bare) bare_left,
    fill_placeholder (.singleton bare) (List.mem_singleton_self a), fill_free free, placeholder, ← spelled]
  simp

theorem fill_own (bare : Bare a.1.toList) : fill [a] (placeholder a.1) = a.2.toList := by
  have filled := fill_placeholder (.singleton bare) (List.mem_singleton_self a) []
  rwa [List.append_nil, fill_free List.not_mem_nil, List.append_nil] at filled

theorem fill_other_alone {x : String × String} (bare : Bare x.1.toList) (bare' : Bare name.toList)
    (other : x.1 ≠ name) : fill [x] (placeholder name) = placeholder name := by
  have kept := fill_single_other bare bare' other []
  rwa [List.append_nil, fill_free List.not_mem_nil, List.append_nil] at kept

theorem foldl_fill_of_kept {xs : List (String × String)} (kept : ∀ x ∈ xs, fill [x] text = text) :
    xs.foldl (fun text a => fill [a] text) text = text := by
  induction xs with
  | nil => rfl
  | cons x xs ih =>
    rw [List.foldl_cons, kept x List.mem_cons_self]
    exact ih fun y member => kept y (List.mem_cons_of_mem x member)

/-- If a value is in the name of a later argument, there is a template in which it completes a place of that
argument: what it leaves of the name stands around its own place. -/
theorem exists_template {a b : String × String} {xs ys zs : List (String × String)}
    (named : WellNamed (xs ++ a :: (ys ++ b :: zs))) (bare : Bare b.2.toList)
    (inside : a.2.toList <:+: b.1.toList) :
    ∃ template, interpolate template (xs ++ a :: (ys ++ b :: zs)) = b.2 ∧
      ∃ cs, fill (xs ++ a :: (ys ++ b :: zs)) template.toList = '{' :: cs := by
  obtain ⟨left, right, spelled⟩ := inside
  have bare_a : Bare a.1.toList := named.bare a (by simp)
  have bare_b : Bare b.1.toList := named.bare b (by simp)
  have part {cs : List Char} (inside : cs ⊆ b.1.toList) : Bare cs :=
    ⟨mt (inside ·) bare_b.1, mt (inside ·) bare_b.2⟩
  have bare_left : Bare left := part (by simp [← spelled])
  have bare_right : Bare right := part (by simp [← spelled])
  have names := named.names
  simp only [Keyed.names, List.map_append, List.map_cons] at names
  obtain ⟨-, later, apart⟩ := List.nodup_append.mp names
  obtain ⟨-, -, apart'⟩ := List.nodup_append.mp (List.nodup_cons.mp later).2
  refine ⟨String.ofList (nestedPlace left a.1 right), ?_, ?_⟩
  · have before (x : String × String) (given : x ∈ xs) :
        fill [x] (nestedPlace left a.1 right) = nestedPlace left a.1 right :=
      fill_nestedPlace_other (named.bare x (List.mem_append_left _ given)) bare_a bare_left bare_right
        (apart _ (List.mem_map_of_mem given) _ List.mem_cons_self)
    have between (y : String × String) (given : y ∈ ys) : fill [y] (placeholder b.1) = placeholder b.1 :=
      fill_other_alone (named.bare y (by simp [given])) bare_b
        (apart' _ (List.mem_map_of_mem given) _ List.mem_cons_self)
    rw [interpolate_eq, String.toList_ofList, List.foldl_append, foldl_fill_of_kept before, List.foldl_cons,
      fill_nestedPlace_self bare_a bare_left bare_right spelled, List.foldl_append, foldl_fill_of_kept between,
      List.foldl_cons, fill_own bare_b, foldl_fill_of_kept fun _ _ => fill_free bare.1, String.ofList_toList]
  · rw [String.toList_ofList, fill_nestedPlace named.bare bare_left]
    exact ⟨_, rfl⟩

/-- Among bare values those that are in no later name are the ones for which every template is filled all at
once: where a value is in a later name, the rest of that name around the value's place opens a place that
the template does not have. -/
theorem interpolate_exact (named : WellNamed arguments) (bare : ∀ a ∈ arguments, Bare a.2.toList) :
    (∀ template, interpolate template arguments = String.ofList (fill arguments template.toList)) ↔
      arguments.Pairwise fun a b => ¬a.2.toList <:+: b.1.toList := by
  refine ⟨fun all => List.pairwise_iff_forall_sublist.mpr fun {a b} pair inside => ?_,
    fun foreign template => interpolate_of_foreign named bare foreign template⟩
  obtain ⟨front, behind, rfl, first, second⟩ := List.cons_sublist_iff.mp pair
  obtain ⟨xs, ys, rfl⟩ := List.append_of_mem first
  obtain ⟨ys', zs, rfl⟩ := List.append_of_mem (List.singleton_sublist.mp second)
  have order : xs ++ a :: ys ++ (ys' ++ b :: zs) = xs ++ a :: (ys ++ ys' ++ b :: zs) := by simp
  rw [order] at named bare all
  have bare_value := bare b (by simp)
  obtain ⟨template, sequential, cs, once⟩ := exists_template named bare_value inside
  have same := all template
  rw [sequential, once] at same
  exact bare_value.1 (by simp [same])

theorem interpolate_exact_rename :
    WellNamed [("a", "name"), ("rename", "x")] ∧ (∀ a ∈ [("a", "name"), ("rename", "x")], Bare a.2.toList) ∧
      ∃ template, interpolate template [("a", "name"), ("rename", "x")] ≠
        String.ofList (fill [("a", "name"), ("rename", "x")] template.toList) := by
  have named : WellNamed [("a", "name"), ("rename", "x")] := ⟨by decide, by decide⟩
  have bare : ∀ a ∈ [("a", "name"), ("rename", "x")], Bare a.2.toList := by decide
  refine ⟨named, bare, not_forall.mp fun all => ?_⟩
  have foreign := (interpolate_exact named bare).mp all
  exact List.rel_of_pairwise_cons foreign List.mem_cons_self (by decide)

end Interpolation

open Interpolation

theorem Fault.wellNamed (fault : Fault) : WellNamed fault.arguments := by
  cases fault <;> exact ⟨by simp [arguments, Keyed.names], by simp [arguments, Bare]⟩

namespace Catalog

theorem toList_place (name : String) : (place name).toList = placeholder name := by
  rw [place, String.toList_ofList]

theorem lookup?_english (key : String) : english.lookup? "en" key = Keyed.get? englishMessages key := by
  have table : english.tables.get? "en" = some englishMessages := by decide +kernel
  rw [lookup?, table, Option.bind_some]

theorem flat_english {message : String × String} (member : message ∈ englishMessages) : Flat message.2.toList := by
  have last {text : String} (free : '{' ∉ text.toList) : Flat text.toList :=
    List.append_nil text.toList ▸ Flat.nil.append free
  revert message
  simp only [englishMessages, List.forall_mem_cons, String.toList_append, toList_place, List.append_assoc]
  refine ⟨?_, ?_, ?_, ?_, ?_, ?_, ?_, ?_, ?_, ?_, ?_, List.forall_mem_nil _⟩
  all_goals
    repeat first
      | exact last (by simp)
      | refine Flat.place (by decide) ?_
      | refine Flat.append (by simp) ?_

/-- The catalog has the message of a fault itself if none of its values opens a place. A broken template is told
without the reason and an unknown method with a stop. -/
theorem localize?_english (fault : Fault) (free : ∀ a ∈ fault.arguments, '{' ∉ a.2.toList) :
    english.localize? fault.key fault.arguments = some (match fault with
      | .badTemplate element _ =>
        s!"{element}: 'template' property accepts a string that must be valid template markup."
      | .unknownMethod .. => fault.message ++ "."
      | _ => fault.message) := by
  have named := fault.wellNamed
  have filled {template : String} (found : Keyed.get? englishMessages fault.key = some template) :
      english.localize? fault.key fault.arguments =
        some (String.ofList (fill fault.arguments template.toList)) := by
    rw [localize?, show english.locale = "en" from rfl, lookup?_english, found]
    exact congrArg some (interpolate_of_flat (flat_english (Keyed.mem_of_get? found)) named free)
  have kept {arguments : List (String × String)} {text : String} (free : '{' ∉ text.toList) :
      fill arguments text.toList = text.toList := fill_free free
  have same (text : String) : toString text = text := rfl
  unfold Fault.message
  cases fault
  all_goals
    rw [filled (by simp only [englishMessages, Fault.key, Keyed.get?, String.reduceEq, ↓reduceIte]; rfl),
      Option.some.injEq, ← String.toList_inj]
    simp (disch := decide) only [String.toList_append, toList_place, List.append_assoc, fill_append,
      fill_place named, kept]
    simp only [Fault.arguments, Keyed.get?, String.reduceEq, ↓reduceIte, Option.elim_some, same,
      String.toList_ofList]
    -- What is left are texts that are cut into pieces in two ways.
    try rfl

theorem localize?_english_unknown :
    (∀ a ∈ (Fault.unknownMethod "x-a" "go").arguments, '{' ∉ a.2.toList) ∧
      english.localize? (Fault.unknownMethod "x-a" "go").key (Fault.unknownMethod "x-a" "go").arguments =
        some ((Fault.unknownMethod "x-a" "go").message ++ ".") := by
  have free : ∀ a ∈ (Fault.unknownMethod "x-a" "go").arguments, '{' ∉ a.2.toList := by decide
  exact ⟨free, localize?_english _ free⟩

end Catalog
end LiveTree
