import Mathlib.Data.Option.Basic
import LiveTree.Binding.Expression
import LiveTree.Proofs.Grammar.Literal
import LiveTree.Text.Blank

/-! The grammar of binding expressions. The reader tries its forms one after the other and never
comes back to one that it has left; no form that fits the beginning of a text hides the one that
fits the whole of it. -/
namespace LiveTree

inductive Word (first others : Char → Bool) : List Char → Prop
  | run {c : Char} {cs : List Char} (start : first c = true) (all : ∀ d ∈ cs, others d = true) :
    Word first others (c :: cs)

namespace Source

abbrev IsName : List Char → Prop := Word isNameStart isNamePart

abbrev IsPath : List Char → Prop := Word isNameStart isPathPart

abbrev IsEvent : List Char → Prop := Word isEventPart isEventPart

def Spaces (cs : List Char) : Prop := ∀ c ∈ cs, Text.isSpace c = true

inductive Written : List Char → Argument → Prop
  | quoted {quote : Char} {text : List Char} (mark : quote = '\'' ∨ quote = '"')
    (free : quote ∉ text) :
    Written (quote :: (text ++ [quote])) (.literal (.string (String.ofList text)))
  | property {path : List Char} (word : IsPath path) : Written path (.property (String.ofList path))
  | number {cs : List Char} {l : Decimal.Literal} (decimal : Decimal.Written cs l) :
    Written cs (.literal (.number l.toFloat))

inductive Arguments : List Char → List Argument → Prop
  | last {cs spaces : List Char} {arg : Argument} (written : Written cs arg)
    (behind : Spaces spaces) : Arguments (cs ++ (spaces ++ [')'])) [arg]
  | more {cs before behind rest : List Char} {arg : Argument} {args : List Argument}
    (written : Written cs arg) (left : Spaces before) (right : Spaces behind)
    (next : Arguments rest args) :
    Arguments (cs ++ (before ++ ',' :: (behind ++ rest))) (arg :: args)

inductive Derives : List Char → Source → Prop
  | negated {spaces path : List Char} (between : Spaces spaces) (word : IsPath path) :
    Derives ('!' :: (spaces ++ path)) (.property (String.ofList path) true)
  | channel {path event : List Char} (word : IsPath path) (fired : IsEvent event) :
    Derives (path ++ ':' :: ':' :: event) (.channel (String.ofList path) (String.ofList event))
  | invocation {name spaces : List Char} (word : IsName name) (between : Spaces spaces) :
    Derives (name ++ '(' :: (spaces ++ [')'])) (.call (String.ofList name) [])
  | call {name spaces cs : List Char} {args : List Argument} (word : IsName name)
    (between : Spaces spaces) (arguments : Arguments cs args) :
    Derives (name ++ '(' :: (spaces ++ cs)) (.call (String.ofList name) args)
  | plain {path : List Char} (word : IsPath path) :
    Derives path (.property (String.ofList path) false)

variable {first others : Char → Bool} {cs rest used : List Char}

theorem word_of_word? {word : List Char} (read : word? first others cs = some (word, rest)) :
    Word first others word ∧ cs = word ++ rest := by
  cases cs with
  | nil => cases read
  | cons c cs =>
    rw [word?] at read
    split at read
    · next start =>
      cases read
      refine ⟨.run start fun d member => List.mem_takeWhile_imp member, ?_⟩
      rw [List.cons_append, List.takeWhile_append_dropWhile]
    · cases read

theorem exists_spaces (cs : List Char) :
    ∃ spaces, Spaces spaces ∧ cs = spaces ++ Text.skipSpaces cs :=
  ⟨cs.takeWhile Text.isSpace, fun _ member => List.mem_takeWhile_imp member,
    List.takeWhile_append_dropWhile.symm⟩

theorem exists_quote {text : List Char} (read : quoted? cs = some (text, rest)) :
    ∃ quote, (quote = '\'' ∨ quote = '"') ∧ quote ∉ text ∧
      cs = quote :: (text ++ quote :: rest) := by
  unfold quoted? at read
  split at read
  · obtain ⟨rfl, free⟩ := Text.cutAt_eq_some read
    exact ⟨'\'', .inl rfl, free, rfl⟩
  · obtain ⟨rfl, free⟩ := Text.cutAt_eq_some read
    exact ⟨'"', .inr rfl, free, rfl⟩
  · cases read

theorem exists_argument {arg : Argument} (read : argument? cs = some (arg, rest)) :
    ∃ used, Written used arg ∧ cs = used ++ rest := by
  unfold argument? at read
  split at read
  · next quoted =>
    cases read
    obtain ⟨quote, mark, free, rfl⟩ := exists_quote quoted
    exact ⟨_, .quoted mark free, by simp⟩
  · split at read
    · next path =>
      cases read
      obtain ⟨word, rfl⟩ := word_of_word? path
      exact ⟨_, .property word, rfl⟩
    · obtain ⟨⟨l, behind⟩, decimal, same⟩ := Option.map_eq_some_iff.mp read
      cases same
      obtain ⟨used, written, rfl⟩ := Decimal.exists_written decimal
      exact ⟨used, .number written, rfl⟩

theorem exists_arguments {most : Nat} {args : List Argument}
    (read : arguments? most cs = some (args, rest)) :
    ∃ used, Arguments used args ∧ cs = used ++ rest := by
  induction most generalizing cs args rest with
  | zero => cases read
  | succ most ih =>
    obtain ⟨⟨arg, behind⟩, one, step⟩ := Option.bind_eq_some_iff.mp read
    obtain ⟨used, written, start⟩ := exists_argument one
    obtain ⟨spaces, between, space⟩ := exists_spaces behind
    dsimp only at step
    split at step
    · next more comma =>
      obtain ⟨⟨others, last⟩, many, same⟩ := Option.bind_eq_some_iff.mp step
      cases same
      obtain ⟨spaces', between', space'⟩ := exists_spaces more
      obtain ⟨used', written', follow⟩ := ih many
      refine ⟨_, .more written between between' written', ?_⟩
      rw [start, space, comma, space', follow]
      simp
    · next closing =>
      cases step
      refine ⟨_, .last written between, ?_⟩
      rw [start, space, closing]
      simp
    · cases step

theorem exists_negated {s : Source} (read : negated? cs = some (s, rest)) :
    ∃ used, Derives used s ∧ cs = used ++ rest := by
  unfold negated? at read
  split at read
  · next cs =>
    obtain ⟨⟨path, behind⟩, word, same⟩ := Option.map_eq_some_iff.mp read
    cases same
    obtain ⟨spaces, between, split⟩ := exists_spaces cs
    obtain ⟨word, follows⟩ := word_of_word? word
    refine ⟨_, .negated between word, ?_⟩
    rw [split, follows]
    simp
  · cases read

theorem exists_channel {s : Source} (read : withEvent? cs = some (s, rest)) :
    ∃ used, Derives used s ∧ cs = used ++ rest := by
  obtain ⟨⟨path, behind⟩, first, read⟩ := Option.bind_eq_some_iff.mp read
  obtain ⟨behind', colons, read⟩ := Option.bind_eq_some_iff.mp read
  obtain ⟨⟨event, last⟩, second, same⟩ := Option.bind_eq_some_iff.mp read
  cases same
  obtain ⟨word, split⟩ := word_of_word? first
  obtain ⟨fired, split'⟩ := word_of_word? second
  refine ⟨_, .channel word fired, ?_⟩
  rw [split, Text.strip?_eq_some colons, split']
  simp

theorem exists_call {s : Source} (read : call? cs = some (s, rest)) :
    ∃ used, Derives used s ∧ cs = used ++ rest := by
  obtain ⟨⟨name, behind⟩, one, step⟩ := Option.bind_eq_some_iff.mp read
  obtain ⟨word, start⟩ := word_of_word? one
  dsimp only at step
  split at step
  · next inside =>
    obtain ⟨spaces, between, space⟩ := exists_spaces inside
    split at step
    · next closing =>
      cases step
      refine ⟨_, .invocation word between, ?_⟩
      rw [start, space, closing]
      simp
    · obtain ⟨⟨args, last⟩, many, same⟩ := Option.map_eq_some_iff.mp step
      cases same
      obtain ⟨used, written, follow⟩ := exists_arguments many
      refine ⟨_, .call word between written, ?_⟩
      rw [start, space, follow]
      simp
  · cases step

theorem exists_plain {s : Source} (read : plain? cs = some (s, rest)) :
    ∃ used, Derives used s ∧ cs = used ++ rest := by
  obtain ⟨⟨path, behind⟩, one, same⟩ := Option.map_eq_some_iff.mp read
  cases same
  obtain ⟨word, start⟩ := word_of_word? one
  exact ⟨path, .plain word, start⟩

theorem derives_of_read? {s : Source} (read : read? cs = some s) : Derives cs s := by
  obtain ⟨⟨s', rest⟩, form, step⟩ := Option.bind_eq_some_iff.mp read
  obtain ⟨used, derives, split⟩ : ∃ used, Derives used s' ∧ cs = used ++ rest := by
    simp only [Option.orElse_eq_orElse, Option.orElse_eq_or, Option.or_eq_some_iff] at form
    rcases form with (negated | ⟨-, form⟩)
    · exact exists_negated negated
    rcases form with (channel | ⟨-, form⟩)
    · exact exists_channel channel
    rcases form with (call | ⟨-, plain⟩)
    · exact exists_call call
    · exact exists_plain plain
  cases rest with
  | nil =>
    cases step
    rwa [split, List.append_nil]
  | cons => cases step

theorem forall_isSpace {p : Char → Prop} (all : p ' ' ∧ p '\t' ∧ p '\r' ∧ p '\n') {c : Char}
    (space : Text.isSpace c = true) : p c := by
  simp only [Text.isSpace, Bool.or_eq_true, beq_iff_eq] at space
  rcases space with ((rfl | rfl) | rfl) | rfl
  · exact all.1
  · exact all.2.1
  · exact all.2.2.1
  · exact all.2.2.2

theorem skipSpaces_append {spaces : List Char} (between : Spaces spaces)
    (visible : ∀ c ∈ rest.head?, Text.isSpace c = false) :
    Text.skipSpaces (spaces ++ rest) = rest :=
  Text.dropWhile_run between visible

theorem word?_append {word : List Char} (written : Word first others word)
    (stops : ∀ c ∈ rest.head?, others c = false) :
    word? first others (word ++ rest) = some (word, rest) := by
  obtain ⟨start, all⟩ := written
  rw [List.cons_append, word?, if_pos start, Text.takeWhile_run all stops,
    Text.dropWhile_run all stops]

theorem word?_of_head (other : ∀ c ∈ cs.head?, first c = false) : word? first others cs = none := by
  cases cs with
  | nil => rfl
  | cons c cs => simp [word?, other c rfl]

theorem quoted?_of_head (other : ∀ c ∈ cs.head?, c ≠ '\'' ∧ c ≠ '"') : quoted? cs = none := by
  unfold quoted?
  split
  · exact absurd rfl (other '\'' rfl).1
  · exact absurd rfl (other '"' rfl).2
  · rfl

structure Inner (c : Char) : Prop where
  quote : c ≠ '\'' ∧ c ≠ '"'
  mark : c ≠ '!' ∧ c ≠ ')'
  visible : Text.isSpace c = false

theorem inner_of {p : Char → Bool} {c : Char} (holds : p c = true)
    (out : ['\'', '"', '!', ')', ' ', '\t', '\r', '\n'].any p = false) : Inner c := by
  have other (d : Char) (member : d ∈ ['\'', '"', '!', ')', ' ', '\t', '\r', '\n']) : c ≠ d := by
    rintro rfl
    exact List.any_eq_false.mp out c member holds
  simp only [List.forall_mem_cons, List.not_mem_nil, false_implies, implies_true, and_true] at other
  obtain ⟨single, double, negation, closing, spaces⟩ := other
  refine ⟨⟨single, double⟩, ⟨negation, closing⟩, Bool.eq_false_iff.mpr fun space => ?_⟩
  exact forall_isSpace (p := fun d => c ≠ d) spaces space rfl

theorem inner_of_isNameStart {c : Char} (start : isNameStart c = true) : Inner c :=
  inner_of start rfl

theorem isNameStart_of_isDigit {c : Char} (digit : Decimal.isDigit c = true) :
    isNameStart c = false := by
  have other : c ≠ '_' ∧ c ≠ '$' := by
    constructor
    all_goals
      rintro rfl
      exact nomatch digit
  have bounds := Decimal.isDigit_iff.mp digit
  have letter : Text.isLetter c = false := by
    unfold Text.isLetter Char.isAlpha Char.isUpper Char.isLower
    simp only [Bool.or_eq_false_iff, Bool.and_eq_false_iff, decide_eq_false_iff_not, ge_iff_le,
      UInt32.le_iff_toNat_le]
    change (¬(65 ≤ c.toNat ∧ c.toNat ≤ 90) ∧ (¬97 ≤ c.toNat ∨ ¬c.toNat ≤ 122)) ∧
      (¬128 ≤ c.toNat ∨ _)
    omega
  simp [isNameStart, letter, other]

theorem number_start {l : Decimal.Literal} (decimal : Decimal.Written used l) :
    ∃ c cs, used = c :: cs ∧ Inner c ∧ isNameStart c = false := by
  obtain ⟨c, cs, rfl, start⟩ := decimal.exists_start
  refine ⟨c, cs, rfl, ?_⟩
  rcases start with digit | rfl | rfl | rfl
  · exact ⟨inner_of digit rfl, isNameStart_of_isDigit digit⟩
  all_goals exact ⟨⟨by decide, by decide, rfl⟩, rfl⟩

/-- An argument begins with a character that is neither skipped nor closes the arguments. -/
theorem Written.exists_start {arg : Argument} (written : Written used arg) :
    ∃ c cs, used = c :: cs ∧ Text.isSpace c = false ∧ c ≠ ')' := by
  cases written with
  | quoted mark => rcases mark with rfl | rfl <;> exact ⟨_, _, rfl, rfl, by decide⟩
  | property word =>
    obtain ⟨start, _⟩ := word
    exact ⟨_, _, rfl, (inner_of_isNameStart start).visible, (inner_of_isNameStart start).mark.2⟩
  | number decimal =>
    obtain ⟨c, cs, rfl, inner, _⟩ := number_start decimal
    exact ⟨c, cs, rfl, inner.visible, inner.mark.2⟩

def Follows (rest : List Char) : Prop := ∀ c ∈ rest.head?, c = ',' ∨ c = ')' ∨ Text.isSpace c = true

theorem follows_append {spaces : List Char} (between : Spaces spaces) {c : Char}
    (mark : c = ',' ∨ c = ')') (rest : List Char) : Follows (spaces ++ c :: rest) := by
  cases spaces with
  | nil => rintro d ⟨rfl⟩; tauto
  | cons d spaces => rintro d ⟨rfl⟩; exact .inr (.inr (between _ List.mem_cons_self))

theorem Follows.isPathPart (follows : Follows rest) : ∀ c ∈ rest.head?, isPathPart c = false := by
  intro c member
  rcases follows c member with rfl | rfl | space
  · rfl
  · rfl
  · exact forall_isSpace (p := fun c => Source.isPathPart c = false) ⟨rfl, rfl, rfl, rfl⟩ space

theorem Follows.ends (follows : Follows rest) : Decimal.Ends rest := by
  intro c member
  rcases follows c member with rfl | rfl | space
  · decide
  · decide
  · exact forall_isSpace
      (p := fun c => Decimal.isDigit c = false ∧ c ≠ '.' ∧ c ≠ 'e' ∧ c ≠ 'E') (by decide) space

theorem argument?_append {arg : Argument} (written : Written used arg) (follows : Follows rest) :
    argument? (used ++ rest) = some (arg, rest) := by
  cases written with
  | quoted mark free =>
    rcases mark with rfl | rfl <;> simp [argument?, quoted?, Text.cutAt_append free]
  | property word =>
    have path : path? (used ++ rest) = some (used, rest) := word?_append word follows.isPathPart
    have quoted : quoted? (used ++ rest) = none := by
      obtain ⟨start, _⟩ := word
      apply quoted?_of_head
      rintro c ⟨rfl⟩
      exact (inner_of_isNameStart start).quote
    simp only [argument?, quoted, path]
  | number decimal =>
    have literal := decimal.literal?_append follows.ends
    obtain ⟨c, cs, rfl, inner, other⟩ := number_start decimal
    have quoted : quoted? (c :: cs ++ rest) = none :=
      quoted?_of_head (by rintro d ⟨rfl⟩; exact inner.quote)
    have path : path? (c :: cs ++ rest) = none := word?_of_head (by rintro d ⟨rfl⟩; exact other)
    simp only [argument?, quoted, path, literal, Option.map_some]

theorem Arguments.exists_start {args : List Argument} (written : Arguments used args) :
    ∃ c cs, used = c :: cs ∧ Text.isSpace c = false ∧ c ≠ ')' := by
  cases written with
  | last written | more written =>
    obtain ⟨c, cs, rfl, start⟩ := written.exists_start
    exact ⟨c, _, rfl, start⟩

theorem Arguments.length_le {args : List Argument} (written : Arguments used args) :
    args.length ≤ used.length := by
  induction written with
  | last => simp only [List.length_append, List.length_cons, List.length_nil]; omega
  | more _ _ _ _ ih => simp only [List.length_append, List.length_cons]; omega

theorem arguments?_append {args : List Argument} (written : Arguments used args) {most : Nat}
    (enough : args.length ≤ most) : arguments? most (used ++ rest) = some (args, rest) := by
  induction written generalizing most with
  | @last cs spaces arg written between =>
    obtain ⟨most, rfl⟩ := Nat.exists_eq_add_of_le' enough
    have one := argument?_append written (follows_append between (.inr rfl) rest)
    have space : Text.skipSpaces (spaces ++ ')' :: rest) = ')' :: rest :=
      skipSpaces_append between (by rintro c ⟨rfl⟩; rfl)
    simp [arguments?, one, space]
  | @more cs before behind later arg args written left right next ih =>
    obtain ⟨most, rfl⟩ := Nat.exists_eq_add_of_le' (Nat.le_trans (Nat.le_add_left 1 _) enough)
    obtain ⟨c, later, rfl, visible, -⟩ := next.exists_start
    have one := argument?_append written
      (follows_append left (.inl rfl) (behind ++ (c :: later ++ rest)))
    have space : Text.skipSpaces (before ++ ',' :: (behind ++ (c :: later ++ rest))) =
        ',' :: (behind ++ (c :: later ++ rest)) :=
      skipSpaces_append left (by rintro d ⟨rfl⟩; rfl)
    have space' : Text.skipSpaces (behind ++ (c :: later ++ rest)) = c :: later ++ rest :=
      skipSpaces_append right (by rintro d ⟨rfl⟩; exact visible)
    have many := ih (Nat.le_of_succ_le_succ enough)
    simp only [List.cons_append] at one space space' many
    simp [arguments?, one, space, space', many]

theorem isPathPart_of_isNamePart {c : Char} (part : isNamePart c = true) : isPathPart c = true := by
  simp [isPathPart, part]

theorem isPathPart_of_isNameStart {c : Char} (start : isNameStart c = true) :
    isPathPart c = true := by
  apply isPathPart_of_isNamePart
  simp only [isNameStart, isNamePart, Bool.or_eq_true] at start ⊢
  exact start.imp_left (.imp_left Text.isLetterOrNumeral_of_isLetter)

theorem isPathPart_of_mem (word : IsPath cs) : ∀ c ∈ cs, isPathPart c = true := by
  obtain ⟨start, all⟩ := word
  exact List.forall_mem_cons.mpr ⟨isPathPart_of_isNameStart start, all⟩

/-- A name is a path without dots. -/
theorem isPath_of_isName (word : IsName cs) : IsPath cs := by
  obtain ⟨start, all⟩ := word
  exact .run start fun d member => isPathPart_of_isNamePart (all d member)

theorem negated?_of_word (word : Word isNameStart others cs) (rest : List Char) :
    negated? (cs ++ rest) = none := by
  obtain @⟨c, cs, start, _⟩ := word
  unfold negated?
  split
  · next same => exact absurd (List.cons.inj same).1 (inner_of_isNameStart start).mark.1
  · rfl

/-- A name before a parenthesis is no path with an event. -/
theorem withEvent?_of_name (word : IsName cs) (rest : List Char) :
    withEvent? (cs ++ '(' :: rest) = none := by
  have path : path? (cs ++ '(' :: rest) = some (cs, '(' :: rest) :=
    word?_append (isPath_of_isName word) (by rintro c ⟨rfl⟩; rfl)
  simp [withEvent?, path, Text.strip?]

/-- A path alone is no call: there is no parenthesis in it. -/
theorem call?_of_path (word : IsPath cs) : call? cs = none := by
  unfold call?
  cases name : name? cs with
  | none => rfl
  | some read =>
    obtain ⟨name, behind⟩ := read
    obtain ⟨-, split⟩ := word_of_word? name
    rcases behind with _ | ⟨c, behind⟩
    · rfl
    · have part := isPathPart_of_mem word c (by simp [split])
      have other : c ≠ '(' := by
        rintro rfl
        exact absurd part (by decide)
      simp [other]

theorem word?_whole {word : List Char} (written : Word first others word) :
    word? first others word = some (word, []) := by
  have ends : ∀ c ∈ ([] : List Char).head?, others c = false := by nofun
  simpa using word?_append written ends

theorem read?_of_derives {s : Source} (derives : Derives cs s) : read? cs = some s := by
  cases derives with
  | @negated spaces path between word =>
    have skip : Text.skipSpaces (spaces ++ path) = path := by
      obtain ⟨start, _⟩ := word
      refine skipSpaces_append between ?_
      rintro c ⟨rfl⟩
      exact (inner_of_isNameStart start).visible
    have whole : path? path = some (path, []) := word?_whole word
    simp [read?, negated?, skip, whole]
  | @channel path event word fired =>
    have start : path? (path ++ ':' :: ':' :: event) = some (path, ':' :: ':' :: event) :=
      word?_append word (by rintro c ⟨rfl⟩; rfl)
    have whole : event? event = some (event, []) := word?_whole fired
    simp [read?, negated?_of_word word, withEvent?, start, Text.strip?, whole]
  | @invocation name spaces word between =>
    have start : name? (name ++ '(' :: (spaces ++ [')'])) = some (name, '(' :: (spaces ++ [')'])) :=
      word?_append word (by rintro c ⟨rfl⟩; rfl)
    have skip : Text.skipSpaces (spaces ++ [')']) = [')'] :=
      skipSpaces_append between (by rintro c ⟨rfl⟩; rfl)
    simp [read?, negated?_of_word word, withEvent?_of_name word, call?, start, skip]
  | @call name spaces cs args word between arguments =>
    obtain ⟨c, cs, rfl, visible, other⟩ := arguments.exists_start
    have start : name? (name ++ '(' :: (spaces ++ c :: cs)) =
        some (name, '(' :: (spaces ++ c :: cs)) := word?_append word (by rintro c ⟨rfl⟩; rfl)
    have skip : Text.skipSpaces (spaces ++ c :: cs) = c :: cs :=
      skipSpaces_append between (by rintro d ⟨rfl⟩; exact visible)
    have whole : arguments? (c :: cs).length (c :: cs ++ []) = some (args, []) :=
      arguments?_append arguments arguments.length_le
    simp only [List.append_nil, List.length_cons] at whole
    simp [read?, negated?_of_word word, withEvent?_of_name word, call?, start, skip, other, whole]
  | plain word =>
    have whole : path? cs = some (cs, []) := word?_whole word
    have first : negated? cs = none := by simpa using negated?_of_word word []
    simp [read?, first, withEvent?, whole, Text.strip?, call?_of_path word, plain?]

/-- Reading finds the source of just the texts of the grammar. -/
theorem read?_eq_some_iff {s : Source} : read? cs = some s ↔ Derives cs s :=
  ⟨derives_of_read?, read?_of_derives⟩

end Source
end LiveTree
