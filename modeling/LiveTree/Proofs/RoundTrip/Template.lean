import Mathlib.Data.List.TakeWhile
import LiveTree.Markup.Reader
import LiveTree.Proofs.Document.Operations

/-!
Templates written out and read back. Only what markup can say at all is written: no reference is
needed for any character, no text is dropped as blank or runs into the next one, and the elements
that have no closing tag have no children.
-/
namespace LiveTree

theorem String.toLower_of_not_isUpper {s : String} (lower : ∀ c ∈ s.toList, c.isUpper = false) :
    s.toLower = s := by
  have each : ∀ c ∈ s.toList, c.toLower = c := fun c member =>
    dif_neg (of_decide_eq_false (lower c member))
  have map : s.toLower.toList = s.toList.map Char.toLower := String.toList_map
  rw [← String.toList_inj, map]
  exact (List.map_congr_left each).trans (List.map_id _)

namespace Markup

def PlainTag (tag : String) : Prop :=
  (∃ c ∈ tag.toList.head?, c.isLower = true) ∧
    ∀ c ∈ tag.toList, c.isLower ∨ c.isDigit ∨ c = '-' ∨ c = '_' ∨ c = ':'

structure PlainAttribute (a : String × String) : Prop where
  named : a.1 ≠ ""
  lower : ∀ c ∈ a.1.toList, c.isUpper = false
  name : ∀ c ∈ a.1.toList, Text.isBlank c = false ∧ c ∉ ['=', '>', '/', '"', '\'', '<']
  value : '"' ∉ a.2.toList ∧ '&' ∉ a.2.toList

structure PlainText (text : String) : Prop where
  visible : ∃ c ∈ text.toList, Text.isBlank c = false
  plain : '<' ∉ text.toList ∧ '&' ∉ text.toList

instance (tag : String) : Decidable (PlainTag tag) :=
  decidable_of_iff (tag.toList.head?.any Char.isLower = true ∧
      (tag.toList.all fun c => c.isLower ∨ c.isDigit ∨ c = '-' ∨ c = '_' ∨ c = ':') = true)
    (by simp [PlainTag, Option.any_eq_true])

instance (a : String × String) : Decidable (PlainAttribute a) :=
  decidable_of_iff (a.1 ≠ "" ∧ (a.1.toList.all fun c => c.isUpper = false) = true ∧
      (a.1.toList.all fun c =>
        Text.isBlank c = false ∧ c ∉ ['=', '>', '/', '"', '\'', '<']) = true ∧
      '"' ∉ a.2.toList ∧ '&' ∉ a.2.toList) <| by
    simp only [List.all_eq_true, decide_eq_true_eq]
    exact ⟨fun ⟨named, lower, name, value⟩ => ⟨named, lower, name, value⟩,
      fun ⟨named, lower, name, value⟩ => ⟨named, lower, name, value⟩⟩

instance (text : String) : Decidable (PlainText text) :=
  decidable_of_iff ((text.toList.any fun c => Text.isBlank c = false) = true ∧
      '<' ∉ text.toList ∧ '&' ∉ text.toList) <| by
    simp only [List.any_eq_true, decide_eq_true_eq]
    exact ⟨fun ⟨visible, plain⟩ => ⟨visible, plain⟩, fun ⟨visible, plain⟩ => ⟨visible, plain⟩⟩

theorem PlainText.toList_ne_nil {text : String} (plain : PlainText text) : text.toList ≠ [] :=
  plain.visible.elim fun _ h => List.ne_nil_of_mem h.1

inductive Plain : List Markup → Prop
  | nil : Plain []
  | element {tag : String} {as : List (String × String)} {children rest : List Markup}
    (name : PlainTag tag) (attributes : ∀ a ∈ as, PlainAttribute a) (inner : Plain children)
    (void : tag ∈ voidTags → children = []) (next : Plain rest) :
    Plain (.element tag as children :: rest)
  | text {body : String} {rest : List Markup} (plain : PlainText body)
    (alone : ∀ m ∈ rest.head?, m.tag?.isSome = true) (next : Plain rest) :
    Plain (.text body :: rest)

def renderAttribute (a : String × String) : List Char :=
  ' ' :: a.1.toList ++ '=' :: '"' :: a.2.toList ++ ['"']

mutual
def render : Markup → List Char
  | .element tag as children =>
    '<' :: tag.toList ++ as.flatMap renderAttribute ++ '>' ::
      if tag ∈ voidTags then [] else renderAll children ++ '<' :: '/' :: tag.toList ++ ['>']
  | .text body => body.toList

def renderAll : List Markup → List Char
  | [] => []
  | m :: rest => render m ++ renderAll rest
end

theorem PlainTag.toLower_eq {tag : String} (plain : PlainTag tag) : tag.toLower = tag := by
  apply String.toLower_of_not_isUpper
  intro c member
  unfold Char.isUpper
  simp only [decide_eq_false_iff_not, ge_iff_le, UInt32.le_iff_toNat_le]
  change ¬(65 ≤ _ ∧ _ ≤ 90)
  rcases plain.2 c member with letter | digit | rfl | rfl | rfl
  · unfold Char.isLower at letter
    simp only [Bool.and_eq_true, decide_eq_true_eq, ge_iff_le, UInt32.le_iff_toNat_le] at letter
    change 97 ≤ _ ∧ _ at letter
    omega
  · unfold Char.isDigit at digit
    simp only [Bool.and_eq_true, decide_eq_true_eq, ge_iff_le, UInt32.le_iff_toNat_le] at digit
    change _ ∧ _ ≤ 57 at digit
    omega
  all_goals decide

namespace Reader
variable {tag : String} {a : String × String} {rest : List Char}

theorem tag?_append (plain : PlainTag tag) (ends : ∀ c ∈ rest.head?, isTagPart c = false) :
    tag? (tag.toList ++ rest) = some (tag.toList, rest) := by
  obtain ⟨⟨c, first, letter⟩, parts⟩ := plain
  obtain ⟨cs, split⟩ := List.head?_eq_some_iff.mp first
  have all : ∀ d ∈ cs, isTagPart d = true := by
    intro d member
    have part := parts d (by rw [split]; exact List.mem_cons_of_mem c member)
    unfold isTagPart Char.isAlphanum Char.isAlpha
    simp only [Bool.or_eq_true, beq_iff_eq]
    tauto
  have alpha : c.isAlpha = true := (Bool.or_eq_true _ _).mpr (.inr letter)
  rw [split, List.cons_append, tag?, if_pos alpha, Text.takeWhile_run all ends,
    Text.dropWhile_run all ends]

theorem isNamePart_of_mem (plain : PlainAttribute a) : ∀ c ∈ a.1.toList, isNamePart c = true := by
  intro c member
  obtain ⟨visible, other⟩ := plain.name c member
  simp only [List.mem_cons, List.not_mem_nil, or_false, not_or] at other
  simp [isNamePart, visible, other]

theorem skipSpaces_name (plain : PlainAttribute a) (rest : List Char) :
    Text.skipSpaces (' ' :: a.1.toList ++ rest) = a.1.toList ++ rest := by
  obtain ⟨c, cs, split⟩ := List.exists_cons_of_ne_nil (mt String.toList_eq_nil_iff.mp plain.named)
  have visible : Text.isSpace c = false := by
    apply Bool.eq_false_iff.mpr
    intro space
    have blank := Text.isBlank_of_isSpace space
    have seen := (plain.name c (by rw [split]; exact List.mem_cons_self)).1
    exact nomatch blank.symm.trans seen
  rw [split, List.cons_append, Text.skipSpaces, List.dropWhile_cons_of_pos rfl]
  exact Text.skipSpaces_cons visible _

theorem assigned?_quoted {value : List Char} (free : '"' ∉ value) (rest : List Char) :
    assigned? ('=' :: '"' :: (value ++ '"' :: rest)) = some (value, rest) := by
  simp [assigned?, Text.skipSpaces_cons, Text.isSpace, value?, Text.cutAt_append free]

theorem attribute?_append (plain : PlainAttribute a) (rest : List Char) :
    attribute? (renderAttribute a ++ rest) = some (a, rest) := by
  have split : renderAttribute a ++ rest =
      ' ' :: a.1.toList ++ '=' :: '"' :: (a.2.toList ++ '"' :: rest) := by
    simp [renderAttribute]
  have name : (a.1.toList ++ '=' :: '"' :: (a.2.toList ++ '"' :: rest)).takeWhile isNamePart =
      a.1.toList := by
    apply Text.takeWhile_run (isNamePart_of_mem plain)
    rintro c ⟨rfl⟩
    rfl
  have named : ¬a.1.toList.isEmpty := by simpa using plain.named
  rw [split, attribute?, skipSpaces_name plain, name]
  simp [assigned?_quoted plain.value.1, String.toLower_of_not_isUpper plain.lower, decode,
    decodeFrom_of_notMem plain.value.2, named]

/-- The loop over the attributes ends with the last of them if none can follow. -/
theorem attributes_append {as : List (String × String)} (plain : ∀ a ∈ as, PlainAttribute a)
    (last : attribute? rest = none) {most : Nat}
    (enough : (as.flatMap renderAttribute).length ≤ most) :
    attributes most (as.flatMap renderAttribute ++ rest) = (as, rest) := by
  induction as generalizing most with
  | nil => cases most <;> simp [attributes, last]
  | cons a as ih =>
    rw [List.flatMap_cons, List.length_append] at enough
    have first : 1 ≤ (renderAttribute a).length := by simp [renderAttribute]
    obtain ⟨most, rfl⟩ :=
      Nat.exists_eq_add_of_le' (Nat.le_trans first (Nat.le_of_add_right_le enough))
    have here := attribute?_append (plain a List.mem_cons_self) (as.flatMap renderAttribute ++ rest)
    have short : (as.flatMap renderAttribute).length ≤ most := by omega
    have there := ih (fun b member => plain b (List.mem_cons_of_mem a member)) short
    rw [List.flatMap_cons, List.append_assoc, attributes, here]
    simp only [there]

def Closes (rest : List Char) : Prop := rest = [] ∨ ∃ cs, rest = '<' :: '/' :: cs

theorem attribute?_closing (rest : List Char) : attribute? ('>' :: rest) = none := by
  simp [attribute?, Text.skipSpaces_cons, Text.isSpace]

theorem isTagPart_attributes (as : List (String × String)) (rest : List Char) :
    ∀ c ∈ (as.flatMap renderAttribute ++ '>' :: rest).head?, isTagPart c = false := by
  cases as with
  | nil => rintro c ⟨rfl⟩; rfl
  | cons a as => rintro c ⟨rfl⟩; rfl

theorem nodes_of_closes (closes : Closes rest) (most : Nat) : nodes most rest = .found [] rest := by
  rcases closes with rfl | ⟨cs, rfl⟩
  · cases most with
    | zero => rfl
    | succ most => cases most <;> rfl
  · rcases most with _ | _ | most <;> rfl

/-- The attributes of an element, from its tag up to the end of its start tag. -/
theorem attributes_start {as : List (String × String)} (plain : ∀ a ∈ as, PlainAttribute a)
    (rest : List Char) :
    attributes (as.flatMap renderAttribute ++ '>' :: rest).length
      (as.flatMap renderAttribute ++ '>' :: rest) = (as, '>' :: rest) :=
  attributes_append plain (attribute?_closing rest) (by simp)

theorem element_void {as : List (String × String)} (name : PlainTag tag)
    (plain : ∀ a ∈ as, PlainAttribute a) (void : tag ∈ voidTags) (most : Nat) (rest : List Char) :
    element (most + 1) ('<' :: (tag.toList ++ (as.flatMap renderAttribute ++ '>' :: rest))) =
      .found (.element tag as []) rest := by
  rw [element, tag?_append name (isTagPart_attributes as rest)]
  simp only [attributes_start plain]
  simp [Text.skipSpaces_cons, Text.isSpace, name.toLower_eq, void]

theorem element_closed {as : List (String × String)} {children : List Markup} (name : PlainTag tag)
    (plain : ∀ a ∈ as, PlainAttribute a) (solid : tag ∉ voidTags) {most : Nat} {body : List Char}
    (inner : nodes most body = .found children ('<' :: '/' :: (tag.toList ++ '>' :: rest))) :
    element (most + 1) ('<' :: (tag.toList ++ (as.flatMap renderAttribute ++ '>' :: body))) =
      .found (.element tag as children) rest := by
  have close : tag? (tag.toList ++ '>' :: rest) = some (tag.toList, '>' :: rest) :=
    tag?_append name (by rintro c ⟨rfl⟩; rfl)
  rw [element, tag?_append name (isTagPart_attributes as body)]
  simp only [attributes_start plain]
  simp [Text.skipSpaces_cons, Text.isSpace, name.toLower_eq, solid, inner, Text.strip?, close]

theorem trim_ne_nil {body : String} (plain : PlainText body) : Text.trim body.toList ≠ [] := by
  intro empty
  obtain ⟨c, member, visible⟩ := plain.visible
  rw [Text.trim, Text.trimEnd, List.reverse_eq_nil_iff, List.dropWhile_eq_nil_iff] at empty
  cases start : Text.trimStart body.toList with
  | nil =>
    have blank := List.dropWhile_eq_nil_iff.mp start c member
    exact absurd blank (by simp [visible])
  | cons d rest =>
    have blank := empty d (by simp [start])
    exact absurd blank (by simp [Text.isBlank_head_trimStart start])

theorem text?_append {body : String} (plain : PlainText body)
    (ends : ∀ c ∈ rest.head?, c = '<') :
    text? (body.toList ++ rest) = some ([.text body], rest) := by
  have run : (body.toList ++ rest).takeWhile (· ≠ '<') = body.toList := by
    apply Text.takeWhile_run
    · intro c member
      have other : c ≠ '<' := ne_of_mem_of_not_mem member plain.plain.1
      simp [other]
    · intro c first
      simp [ends c first]
  have filled : body ≠ "" := mt String.toList_eq_nil_iff.mpr plain.toList_ne_nil
  simp only [text?, run]
  simp [filled, trim_ne_nil plain, decode, decodeFrom_of_notMem plain.plain.2]

variable {ms : List Markup} {most : Nat}

theorem nodes_element {m : Markup} {behind last : List Char} (name : PlainTag tag)
    (here : element most ('<' :: (tag.toList ++ rest)) = .found m behind)
    (next : nodes most behind = .found ms last) :
    nodes (most + 1) ('<' :: (tag.toList ++ rest)) = .found (m :: ms) last := by
  have comment : comment? ('<' :: (tag.toList ++ rest)) = none := by
    obtain ⟨c, first, letter⟩ := name.1
    obtain ⟨cs, split⟩ := List.head?_eq_some_iff.mp first
    have other : '!' ≠ c := by rintro rfl; cases letter
    simp [split, comment?, Text.strip?, other]
  simp only [nodes, comment, here, next]
  rfl

theorem nodes_text {body : String} {last : List Char} (plain : PlainText body)
    (ends : ∀ c ∈ rest.head?, c = '<') (next : nodes most rest = .found ms last) :
    nodes (most + 1) (body.toList ++ rest) = .found (.text body :: ms) last := by
  obtain ⟨c, cs, split⟩ := List.exists_cons_of_ne_nil plain.toList_ne_nil
  have other : '<' ≠ c := by
    rintro rfl
    exact plain.plain.1 (by rw [split]; exact List.mem_cons_self)
  have comment : comment? (body.toList ++ rest) = none := by
    simp [split, comment?, Text.strip?, other]
  have element : element most (body.toList ++ rest) = .absent := by
    rw [split]
    exact element.eq_2 _ _ fun _ _ _ same => other (List.cons.inj same).1.symm
  simp only [nodes, comment, element, text?_append plain ends, next]
  rfl

/-- A text ends where the next node or the closing tag begins. -/
theorem head?_render (alone : ∀ m ∈ ms.head?, m.tag?.isSome = true) (closes : Closes rest) :
    ∀ c ∈ (renderAll ms ++ rest).head?, c = '<' := by
  cases ms with
  | nil =>
    rcases closes with rfl | ⟨cs, rfl⟩
    · nofun
    · rintro c ⟨rfl⟩; rfl
  | cons m ms =>
    cases m with
    | text => cases alone _ rfl
    | element => rintro c ⟨rfl⟩; rfl

/-- Reading goes through the nodes of a forest one by one and stops behind the last of them. -/
theorem nodes_render (plain : Plain ms) (closes : Closes rest)
    (enough : (renderAll ms).length ≤ most) :
    nodes most (renderAll ms ++ rest) = .found ms rest := by
  induction plain generalizing rest most with
  | nil => exact nodes_of_closes closes most
  | @element tag as children next name attributes _ void _ inner later =>
    rw [renderAll, render, List.length_append] at enough
    obtain ⟨most, rfl⟩ : ∃ n, most = n + 2 := ⟨most - 2, by simp at enough; omega⟩
    have short : (renderAll next).length ≤ most + 1 := by
      simp at enough
      omega
    have there := later closes short
    by_cases empty : tag ∈ voidTags
    · have here := element_void name attributes empty most (renderAll next ++ rest)
      rw [renderAll, render, if_pos empty, void empty]
      simpa using nodes_element name here there
    · -- The closing tag ends the children, whatever they are.
      have ends : Closes ('<' :: '/' :: (tag.toList ++ '>' :: (renderAll next ++ rest))) :=
        .inr ⟨_, rfl⟩
      have inside : (renderAll children).length ≤ most := by
        simp [empty] at enough
        omega
      have body := inner ends inside
      have here := element_closed name attributes empty body
      rw [renderAll, render, if_neg empty]
      simpa using nodes_element name here there
  | @text body next plain alone _ later =>
    rw [renderAll, render, List.length_append] at enough
    have filled : 1 ≤ body.toList.length := List.length_pos_of_ne_nil plain.toList_ne_nil
    obtain ⟨most, rfl⟩ := Nat.exists_eq_add_of_le' (filled.trans (Nat.le_of_add_right_le enough))
    have short : (renderAll next).length ≤ most := by omega
    have there := later closes short
    rw [renderAll, render, List.append_assoc]
    exact nodes_text plain (head?_render alone closes) there

end Reader

theorem renderAll_append (ms ns : List Markup) :
    renderAll (ms ++ ns) = renderAll ms ++ renderAll ns := by
  induction ms with
  | nil => rfl
  | cons m ms ih => simp [renderAll, ih]

theorem Plain.append_right {ms ns : List Markup} (plain : Plain (ms ++ ns)) : Plain ns := by
  induction ms with
  | nil => exact plain
  | cons m ms ih =>
    cases plain with
    | element _ _ _ _ next => exact ih next
    | text _ _ next => exact ih next

theorem exists_render_eq (tag : String) (as : List (String × String)) (children : List Markup) :
    ∃ cs, render (.element tag as children) = cs ++ ['>'] := by
  rw [render]
  split
  · exact ⟨'<' :: tag.toList ++ as.flatMap renderAttribute, rfl⟩
  · exact ⟨'<' :: tag.toList ++ as.flatMap renderAttribute ++
      '>' :: (renderAll children ++ '<' :: '/' :: tag.toList), by simp⟩

/-- Texts at the ends begin or end without a blank, so that there is nothing to trim. -/
theorem trim_renderAll {ms : List Markup} (plain : Plain ms)
    (first : ∀ body, ms.head? = some (.text body) → ∀ c ∈ body.toList.head?, Text.isBlank c = false)
    (last : ∀ body, ms.getLast? = some (.text body) →
      ∀ c ∈ body.toList.getLast?, Text.isBlank c = false) :
    Text.trim (renderAll ms) = renderAll ms := by
  apply Text.trim_eq_self
  · cases plain with
    | nil => nofun
    | element => rintro c ⟨rfl⟩; rfl
    | @text body rest plain =>
      rw [renderAll, render, List.head?_append_of_ne_nil _ plain.toList_ne_nil]
      exact first body rfl
  · rcases List.eq_nil_or_concat ms with rfl | ⟨init, m, rfl⟩
    · nofun
    · rw [List.concat_eq_append] at plain last ⊢
      have final : Plain [m] := plain.append_right
      rw [renderAll_append, renderAll, renderAll, List.append_nil]
      cases final with
      | text filled =>
        rw [render, List.getLast?_append_of_ne_nil _ filled.toList_ne_nil]
        exact last _ (by simp)
      | @element tag as children =>
        obtain ⟨cs, closed⟩ := exists_render_eq tag as children
        rw [closed, ← List.append_assoc, List.getLast?_concat]
        rintro c ⟨rfl⟩
        rfl

/-- A template that was written out is read back as the same forest. -/
theorem read_render {ms : List Markup} (plain : Plain ms)
    (first : ∀ body, ms.head? = some (.text body) → ∀ c ∈ body.toList.head?, Text.isBlank c = false)
    (last : ∀ body, ms.getLast? = some (.text body) →
      ∀ c ∈ body.toList.getLast?, Text.isBlank c = false) :
    read (String.ofList (renderAll ms)) = .ok ms := by
  have whole := Reader.nodes_render plain (.inl rfl) (Nat.le_succ _)
  rw [List.append_nil] at whole
  simp only [read, String.toList_ofList, trim_renderAll plain first last, whole]

/-- Items of a list, one with an image and a text behind it. -/
theorem read_render_list :
    let ms : List Markup := [.text "Menu:",
      .element "my-list" [("class", "it's a > b"), ("dir", "")] [
        .element "li" [] [], .text " ,",
        .element "li" [] [.element "br" [("on:a", "x")] [], .text " b "]]]
    String.ofList (renderAll ms) = "Menu:<my-list class=\"it's a > b\" dir=\"\"><li></li> ," ++
        "<li><br on:a=\"x\"> b </li></my-list>" ∧
      read (String.ofList (renderAll ms)) = .ok ms := by
  intro ms
  have broken : Plain [.element "br" [("on:a", "x")] [], .text " b "] :=
    .element (by decide) (by decide) .nil (fun _ => rfl) (.text (by decide) (by decide) .nil)
  have items : Plain [.element "li" [] [], .text " ,", .element "li" [] _] :=
    .element (by decide) (by decide) .nil (by decide)
      (.text (by decide) (by decide) (.element (by decide) (by decide) broken (by decide) .nil))
  have plain : Plain ms := .text (by decide) (by decide)
    (.element (by decide) (by decide) items (by decide) .nil)
  refine ⟨by decide +kernel, read_render plain ?_ ?_⟩
  · rintro body ⟨rfl⟩ c ⟨rfl⟩
    rfl
  · nofun

end Markup
end LiveTree
