import LiveTree.Proofs.Grammar.Expression
import LiveTree.Proofs.Grammar.Scan

/-! Bindings in texts, read exactly: a text has a binding if its tokens are all closed and the last of
them holds an expression of the grammar. A source that is printed between brackets is read back. -/
namespace LiveTree

namespace Source

/-- Names, paths and texts that can be printed, with the quotes chosen for the texts: no text has its
own quote or the close of the token in it. -/
inductive PrintableArgument (quote : String → Char) (close : List Char) : Argument → Prop
  | property {path : String} (word : IsPath path.toList) :
    PrintableArgument quote close (.property path)
  | text {text : String} (mark : quote text = '\'' ∨ quote text = '"')
    (free : quote text ∉ text.toList) (inside : ¬close <:+: text.toList) :
    PrintableArgument quote close (.literal (.string text))

inductive Printable (quote : String → Char) (close : List Char) : Source → Prop
  | property {path : String} (word : IsPath path.toList) (negate : Bool) :
    Printable quote close (.property path negate)
  | channel {path event : String} (word : IsPath path.toList) (fired : IsEvent event.toList) :
    Printable quote close (.channel path event)
  | call {method : String} {arguments : List Argument} (word : IsName method.toList)
    (each : ∀ a ∈ arguments, PrintableArgument quote close a) :
    Printable quote close (.call method arguments)

def printArgument (quote : String → Char) : Argument → List Char
  | .property path => path.toList
  | .literal (.string text) => quote text :: (text.toList ++ [quote text])
  | .literal _ => []

def printArguments (quote : String → Char) : List Argument → List Char
  | [] => [')']
  | [a] => printArgument quote a ++ [')']
  | a :: b :: rest => printArgument quote a ++ ',' :: ' ' :: printArguments quote (b :: rest)

def print (quote : String → Char) : Source → List Char
  | .property path negate => (if negate then ['!'] else []) ++ path.toList
  | .channel path event => path.toList ++ ':' :: ':' :: event.toList
  | .call method arguments => method.toList ++ '(' :: printArguments quote arguments

variable {quote : String → Char} {closing : List Char}

theorem PrintableArgument.written {a : Argument} (printable : PrintableArgument quote closing a) :
    Written (printArgument quote a) a := by
  cases printable with
  | @property path word => simpa [printArgument] using Written.property word
  | @text text mark free => simpa [printArgument] using Written.quoted mark free

theorem spaces_nil : Spaces [] := fun _ member => absurd member List.not_mem_nil

theorem arguments_print {a : Argument} {rest : List Argument}
    (each : ∀ b ∈ a :: rest, PrintableArgument quote closing b) :
    Arguments (printArguments quote (a :: rest)) (a :: rest) := by
  induction rest generalizing a with
  | nil =>
    have here := (each a List.mem_cons_self).written
    simpa [printArguments] using Arguments.last here spaces_nil
  | cons b rest ih =>
    have here := (each a List.mem_cons_self).written
    have there := ih fun c member => each c (List.mem_cons_of_mem a member)
    have blank : Spaces [' '] := by simp [Spaces, Text.isSpace]
    simpa [printArguments] using Arguments.more here spaces_nil blank there

theorem derives_print {s : Source} (printable : Printable quote closing s) :
    Derives (print quote s) s := by
  cases printable with
  | @property path word negate =>
    cases negate with
    | false => simpa [print] using Derives.plain word
    | true => simpa [print] using Derives.negated spaces_nil word
  | @channel path event word fired => simpa [print] using Derives.channel word fired
  | @call method arguments word each =>
    cases arguments with
    | nil => simpa [print, printArguments] using Derives.invocation word spaces_nil
    | cons a rest => simpa [print] using Derives.call word spaces_nil (arguments_print each)

/-! ## Brackets

Both brackets are doubled characters, so that it is enough to look at neighbours. -/

end Source

namespace Text

def Undoubled {ι : Type} (char : ι → Char) (cs : List Char) : Prop :=
  cs.IsChain fun x y => ∀ i, ¬(x = char i ∧ y = char i)

variable {ι : Type} {char : ι → Char} {parts : ι → List Char} {before : List Char} {i : ι}

theorem Undoubled.of_free (pairs : ∀ i, parts i = [char i, char i]) {cs : List Char}
    (free : ∀ i before after, cs ≠ before ++ (parts i ++ after)) : Undoubled char cs := by
  induction cs with
  | nil => exact .nil
  | cons x cs ih =>
    have later : Undoubled char cs := ih fun i before after split =>
      free i (x :: before) after (by rw [split, List.cons_append])
    cases cs with
    | nil => exact .singleton x
    | cons y cs =>
      refine .cons_cons ?_ later
      rintro i ⟨rfl, rfl⟩
      exact free i [] cs (by rw [pairs i]; rfl)

theorem Undoubled.of_notMem {cs : List Char} (other : ∀ i, char i ∉ cs) : Undoubled char cs := by
  induction cs with
  | nil => exact .nil
  | cons x cs ih =>
    have later : Undoubled char cs := ih fun i member => other i (List.mem_cons_of_mem x member)
    refine later.cons ?_
    rintro y - i ⟨rfl, -⟩
    exact other i List.mem_cons_self

/-- Two texts that do not meet in one of the characters. -/
theorem Undoubled.append {as bs : List Char} (left : Undoubled char as) (right : Undoubled char bs)
    (edge : ∀ i, char i ∈ as.getLast? → char i ∉ bs.head?) : Undoubled char (as ++ bs) := by
  refine List.isChain_append.mpr ⟨left, right, ?_⟩
  rintro x last y first i ⟨rfl, rfl⟩
  exact edge i last first

/-- Nothing doubled stands before a part, nor begins in what is before it and ends in the part. -/
theorem First.of_undoubled (pairs : ∀ i, parts i = [char i, char i])
    (chain : Undoubled char (before ++ [char i])) (after : List Char) :
    First parts (before ++ (parts i ++ after)) before i after := by
  induction before with
  | nil => exact .here parts i after
  | cons c before ih =>
    refine (ih chain.tail).cons fun j after' split => ?_
    rw [pairs j, pairs i] at split
    cases before with
    | nil =>
      obtain ⟨rfl, same⟩ := List.cons.inj split
      exact (List.isChain_cons_cons.mp chain).1 j ⟨rfl, (List.cons.inj same).1⟩
    | cons d before =>
      obtain ⟨rfl, same⟩ := List.cons.inj split
      exact (List.isChain_cons_cons.mp chain).1 j ⟨rfl, (List.cons.inj same).1⟩

theorem isLetterOrNumeral_of_isBlank {c : Char} (blank : isBlank c = true) :
    isLetterOrNumeral c = false :=
  forall_isBlank (p := fun c => isLetterOrNumeral c = false) (by decide +kernel) blank

end Text

namespace Source
variable {quote : String → Char} {d : Char} {as bs : List Char}

structure Sealed (d : Char) (cs : List Char) : Prop where
  inside : Text.Undoubled (fun _ : Unit => d) cs
  first : d ∉ cs.head?
  last : d ∉ cs.getLast?

theorem Sealed.of_notMem (other : d ∉ as) : Sealed d as :=
  ⟨.of_notMem fun _ => other, mt List.mem_of_mem_head? other, mt List.mem_of_mem_getLast? other⟩

theorem Sealed.append (left : Sealed d as) (right : Sealed d bs) : Sealed d (as ++ bs) := by
  refine ⟨left.inside.append right.inside fun _ last => absurd last left.last, ?_, ?_⟩
  · cases as with
    | nil => exact right.first
    | cons => exact left.first
  · cases bs with
    | nil => simpa using left.last
    | cons => simpa using right.last

theorem Sealed.quoted {q : Char} (other : q ≠ d) (inside : Text.Undoubled (fun _ : Unit => d) as) :
    Sealed d (q :: (as ++ [q])) := by
  have mark : Sealed d [q] := .of_notMem (by simpa using other.symm)
  have left : Text.Undoubled (fun _ : Unit => d) (q :: as) :=
    mark.inside.append inside fun _ last => absurd last mark.last
  refine ⟨left.append mark.inside fun _ _ => mark.first, mark.first, ?_⟩
  rw [← List.cons_append, List.getLast?_concat]
  exact mark.last

def closing : Mode → Char
  | .oneWay => ']'
  | .twoWay => '}'

theorem close_eq (mode : Mode) : Token.close mode = [closing mode, closing mode] := by
  cases mode <;> rfl

variable {mode : Mode}

theorem closing_notMem {p : Char → Bool} (out : ∀ mode, p (closing mode) = false)
    (all : ∀ c ∈ as, p c = true) : closing mode ∉ as := fun member =>
  nomatch (out mode).symm.trans (all _ member)

theorem Sealed.of_isPath (word : IsPath as) : Sealed (closing mode) as :=
  .of_notMem (closing_notMem (fun mode => by cases mode <;> rfl) (isPathPart_of_mem word))

theorem Sealed.of_isEvent (word : IsEvent as) : Sealed (closing mode) as := by
  obtain ⟨start, all⟩ := word
  exact .of_notMem (closing_notMem (p := isEventPart) (fun mode => by cases mode <;> rfl)
    (List.forall_mem_cons.mpr ⟨start, all⟩))

theorem sealed_printArgument {a : Argument}
    (printable : PrintableArgument quote (Token.close mode) a) :
    Sealed (closing mode) (printArgument quote a) := by
  cases printable with
  | property word => exact .of_isPath word
  | @text text mark _ inside =>
    have other : quote text ≠ closing mode := by
      rcases mark with mark | mark <;> rw [mark] <;> cases mode <;> decide
    have pair (_ : Unit) : Token.close mode = [closing mode, closing mode] := close_eq mode
    refine .quoted other (.of_free pair ?_)
    rintro - before after split
    exact inside ⟨before, after, by rw [split, List.append_assoc]⟩

theorem sealed_printArguments {args : List Argument}
    (each : ∀ a ∈ args, PrintableArgument quote (Token.close mode) a) :
    Sealed (closing mode) (printArguments quote args) := by
  have last : Sealed (closing mode) [')'] := .of_notMem (by cases mode <;> decide)
  have between : Sealed (closing mode) [',', ' '] := .of_notMem (by cases mode <;> decide)
  induction args with
  | nil => exact last
  | cons a rest ih =>
    have here := sealed_printArgument (each a List.mem_cons_self)
    have there := ih fun b member => each b (List.mem_cons_of_mem a member)
    cases rest with
    | nil => exact here.append last
    | cons b rest => exact here.append (between.append there)

theorem sealed_print {s : Source} (printable : Printable quote (Token.close mode) s) :
    Sealed (closing mode) (print quote s) := by
  cases printable with
  | property word negate =>
    have mark : Sealed (closing mode) (if negate then ['!'] else []) :=
      .of_notMem (by cases negate <;> cases mode <;> decide)
    exact mark.append (.of_isPath word)
  | channel word fired =>
    have colons : Sealed (closing mode) [':', ':'] := .of_notMem (by cases mode <;> decide)
    exact (Sealed.of_isPath word).append (colons.append (.of_isEvent fired))
  | call word each =>
    have parenthesis : Sealed (closing mode) ['('] := .of_notMem (by cases mode <;> decide)
    exact (Sealed.of_isPath (isPath_of_isName word)).append
      (parenthesis.append (sealed_printArguments each))

theorem isBlank_of_part {c : Char}
    (part : Text.isLetterOrNumeral c = true ∨ c ∈ ['_', '$', '.', '-']) : Text.isBlank c = false := by
  apply Bool.eq_false_iff.mpr
  intro blank
  rcases part with letter | other
  · exact nomatch letter.symm.trans (Text.isLetterOrNumeral_of_isBlank blank)
  · have visible : ['_', '$', '.', '-'].any Text.isBlank = false := rfl
    exact List.any_eq_false.mp visible c other blank

theorem isBlank_of_isPathPart {c : Char} (part : isPathPart c = true) : Text.isBlank c = false := by
  apply isBlank_of_part
  simp only [isPathPart, isNamePart, Bool.or_eq_true, beq_iff_eq] at part
  simp only [List.mem_cons, List.not_mem_nil, or_false]
  tauto

theorem isBlank_of_isEventPart {c : Char} (part : isEventPart c = true) : Text.isBlank c = false := by
  apply isBlank_of_part
  simp only [isEventPart, Bool.or_eq_true, beq_iff_eq] at part
  simp only [List.mem_cons, List.not_mem_nil, or_false]
  tauto

theorem isBlank_of_mem_path (word : IsPath as) : ∀ c ∈ as, Text.isBlank c = false :=
  fun c member => isBlank_of_isPathPart (isPathPart_of_mem word c member)

theorem isBlank_of_mem_event (word : IsEvent as) : ∀ c ∈ as, Text.isBlank c = false := by
  obtain ⟨start, all⟩ := word
  exact fun c member =>
    isBlank_of_isEventPart (List.forall_mem_cons (p := (isEventPart · = true)).mpr ⟨start, all⟩ c member)

theorem getLast?_printArguments (args : List Argument) :
    (printArguments quote args).getLast? = some ')' := by
  induction args with
  | nil => rfl
  | cons a rest ih =>
    cases rest with
    | nil => simp [printArguments]
    | cons b rest => simp [printArguments, List.getLast?_cons, ih]

theorem trim_print {s : Source} {close : List Char} (printable : Printable quote close s) :
    Text.trim (print quote s) = print quote s := by
  have visible {cs : List Char} (all : ∀ c ∈ cs, Text.isBlank c = false) : Text.trim cs = cs :=
    Text.trim_eq_self (fun c first => all c (List.mem_of_mem_head? first))
      fun c last => all c (List.mem_of_mem_getLast? last)
  cases printable with
  | property word negate =>
    apply visible
    cases negate with
    | false => simpa [print] using isBlank_of_mem_path word
    | true => simpa [print] using ⟨rfl, isBlank_of_mem_path word⟩
  | channel word fired =>
    apply visible
    intro c member
    simp only [print, List.mem_append, List.mem_cons] at member
    rcases member with path | rfl | rfl | event
    · exact isBlank_of_mem_path word c path
    · rfl
    · rfl
    · exact isBlank_of_mem_event fired c event
  | @call method arguments word each =>
    apply Text.trim_eq_self
    · intro c first
      have filled : method.toList ≠ [] := by
        intro empty
        rw [empty] at word
        cases word
      rw [print, List.head?_append_of_ne_nil _ filled] at first
      exact isBlank_of_mem_path (isPath_of_isName word) c (List.mem_of_mem_head? first)
    · have last : (print quote (.call method arguments)).getLast? = some ')' := by
        simp [print, List.getLast?_cons, getLast?_printArguments]
      rw [last]
      rintro c ⟨rfl⟩
      rfl

end Source

namespace Token

def opening : Mode → Char
  | .oneWay => '['
  | .twoWay => '{'

theorem start_eq (mode : Mode) : start mode = [opening mode, opening mode] := by
  cases mode <;> rfl

theorem read?_eq_some_iff {text : String} {t : Token} : read? text = some t ↔
    ∃ cuts cut, Scan [] text.toList cuts ∧ cuts.getLast? = some cut ∧
      Source.Derives (Text.trim cut.inside) t.source ∧
      t.expression = String.ofList (Text.trim cut.inside) ∧ t.mode = cut.mode ∧
      t.before = String.ofList cut.before ∧ t.after = String.ofList cut.after := by
  constructor
  · intro read
    obtain ⟨cut, found, step⟩ := Option.bind_eq_some_iff.mp read
    obtain ⟨source, derived, same⟩ := Option.bind_eq_some_iff.mp step
    cases same
    obtain ⟨cuts, scan⟩ := scan_of_lastCut (Nat.le_refl _) found
    have last : cuts.getLast? = some cut := by
      simpa [lastCut_of_scan scan (Nat.le_refl _)] using found
    exact ⟨cuts, cut, scan, last, Source.read?_eq_some_iff.mp derived, rfl, rfl, rfl, rfl⟩
  · rintro ⟨cuts, cut, scan, last, derives, expression, mode, before, after⟩
    have found : lastCut none [] text.toList.length text.toList = some cut := by
      simpa [lastCut_of_scan scan (Nat.le_refl _)] using last
    have derived := Source.read?_eq_some_iff.mpr derives
    obtain ⟨_, _, _, _, _⟩ := t
    simp_all [read?]

variable {quote : String → Char} {mode : Mode} {before after : List Char} {s : Source}

/-- A start of a token is found behind a text without any that does not end in the same character. -/
theorem first_start (free : Free before) (apart : opening mode ∉ before.getLast?)
    (behind : List Char) : Text.First start (before ++ (start mode ++ behind)) before mode behind := by
  refine .of_undoubled start_eq ?_ behind
  refine (Text.Undoubled.of_free start_eq free).append (.singleton _) ?_
  intro mode' last first
  have same : opening mode = opening mode' := Option.some.inj first
  exact apart (same ▸ last)

theorem first_close {cs : List Char} (inner : Source.Sealed (Source.closing mode) cs)
    (after : List Char) :
    Text.First (fun _ : Unit => close mode) (cs ++ (close mode ++ after)) cs () after := by
  refine .of_undoubled (fun _ => Source.close_eq mode) ?_ after
  exact inner.inside.append (.singleton _) fun _ last => absurd last inner.last

theorem read?_print (printable : Source.Printable quote (close mode) s) (free : Free before)
    (apart : opening mode ∉ before.getLast?) (rest : Free after) :
    read? (String.ofList
        (before ++ (start mode ++ (Source.print quote s ++ (close mode ++ after))))) =
      some {
        expression := String.ofList (Source.print quote s)
        source := s
        mode := mode
        before := String.ofList before
        after := String.ofList after } := by
  have scan : Scan []
      (before ++ (start mode ++ (Source.print quote s ++ (close mode ++ after)))) _ :=
    .token (first_start free apart _) (first_close (Source.sealed_print printable) after)
      (.done rest)
  have derives := Source.derives_print printable
  rw [← Source.trim_print printable] at derives
  refine read?_eq_some_iff.mpr
    ⟨_, _, by rwa [String.toList_ofList], rfl, derives, ?_, rfl, rfl, rfl⟩
  exact congrArg String.ofList (Source.trim_print printable).symm

/-- A text has a binding if all its tokens are closed, there is one, and the last of them holds an
expression of the grammar; an expression is that of one source only. What is behind the token has no
start of a token. A source printed between brackets is read back with what is around it. -/
theorem read?_exact :
    (∀ text t, read? text = some t ↔
      ∃ cuts cut, Scan [] text.toList cuts ∧ cuts.getLast? = some cut ∧
        Source.Derives (Text.trim cut.inside) t.source ∧
        t.expression = String.ofList (Text.trim cut.inside) ∧ t.mode = cut.mode ∧
        t.before = String.ofList cut.before ∧ t.after = String.ofList cut.after) ∧
    (∀ text cuts cut, Scan [] text cuts → cuts.getLast? = some cut →
      text = cut.before ++ start cut.mode ++ cut.inside ++ close cut.mode ++ cut.after ∧
        Free cut.after) ∧
    (∀ cs s s', Source.Derives cs s → Source.Derives cs s' → s = s') ∧
    ∀ quote mode s before after, Source.Printable quote (close mode) s → Free before →
      opening mode ∉ before.getLast? → Free after →
      read? (String.ofList
          (before ++ (start mode ++ (Source.print quote s ++ (close mode ++ after))))) =
        some {
          expression := String.ofList (Source.print quote s)
          source := s
          mode := mode
          before := String.ofList before
          after := String.ofList after } := by
  refine ⟨fun _ _ => read?_eq_some_iff, fun text cuts cut scan last => ?_,
    fun cs s s' one two => ?_, fun _ _ _ _ _ => read?_print⟩
  · simpa using scan.text_eq last
  · exact Option.some.inj ((Source.read?_eq_some_iff.mpr one).symm.trans (Source.read?_eq_some_iff.mpr two))

/-- A call with a path and a text in double quotes. -/
theorem read?_exact_call :
    read? "Hello [[total(user.price, \"it's\")]]!" = some {
      expression := "total(user.price, \"it's\")"
      source := .call "total" [.property "user.price", .literal (.string "it's")]
      mode := .oneWay
      before := "Hello "
      after := "!" } := by
  have price : Source.IsPath "user.price".toList := .run rfl (List.all_eq_true.mp rfl)
  have printable : Source.Printable (fun _ => '"') (close .oneWay)
      (.call "total" [.property "user.price", .literal (.string "it's")]) := by
    refine .call (.run rfl (List.all_eq_true.mp rfl)) fun a member => ?_
    rcases List.mem_pair.mp member with rfl | rfl
    · exact .property price
    · exact .text (.inr rfl) (by decide) (by decide)
  have read := read?_exact.2.2.2 (fun _ => '"') .oneWay _ "Hello ".toList "!".toList printable
    (nextStart_eq_none_iff.mp rfl) (by decide) (nextStart_eq_none_iff.mp rfl)
  have printed : Source.print (fun _ => '"')
      (.call "total" [.property "user.price", .literal (.string "it's")]) =
      "total(user.price, \"it's\")".toList := by decide
  have text : String.ofList ("Hello ".toList ++ (start .oneWay ++
      ("total(user.price, \"it's\")".toList ++ (close .oneWay ++ "!".toList)))) =
      "Hello [[total(user.price, \"it's\")]]!" := by decide
  rw [printed, text] at read
  simpa only [String.ofList_toList] using read

end Token
end LiveTree
