import Mathlib.Data.List.Basic
import Mathlib.Data.List.TakeWhile
import LiveTree.Signature

/-! Signatures as texts. Between the parts of a signature any number of blanks may stand; whatever they are,
the text is read as the signature that it was written for. -/
namespace LiveTree

namespace Text

def Blanks (cs : List Char) : Prop := ∀ c ∈ cs, isBlank c = true

theorem blanks_nil : Blanks [] := nofun

theorem blanks_space : Blanks [' '] := by simp [Blanks]; decide

structure Solid (cs : List Char) : Prop where
  filled : cs ≠ []
  first : ∀ c ∈ cs.head?, isBlank c = false
  last : ∀ c ∈ cs.getLast?, isBlank c = false

variable {before cs ds between behind rest : List Char}

theorem trimStart_blanks (blanks : Blanks before) (stops : ∀ c ∈ rest.head?, isBlank c = false) :
    trimStart (before ++ rest) = rest :=
  dropWhile_run blanks stops

theorem trimStart_of_blanks (blanks : Blanks cs) : trimStart cs = [] :=
  List.dropWhile_eq_nil_iff.mpr blanks

theorem Solid.of_visible (filled : cs ≠ []) (visible : ∀ c ∈ cs, isBlank c = false) : Solid cs where
  filled := filled
  first c first := visible c (List.mem_of_mem_head? first)
  last c last := visible c (List.mem_of_mem_getLast? last)

theorem Solid.append (left : Solid cs) (right : Solid ds) (between : List Char) :
    Solid (cs ++ (between ++ ds)) where
  filled := List.append_ne_nil_of_left_ne_nil left.filled _
  first c first := left.first c (by rwa [List.head?_append_of_ne_nil _ left.filled] at first)
  last c last := right.last c (by
    rwa [← List.append_assoc, List.getLast?_append_of_ne_nil _ right.filled] at last)

theorem Solid.trim_eq (solid : Solid cs) (left : Blanks before) (right : Blanks behind) :
    trim (before ++ (cs ++ behind)) = cs := by
  have first : ∀ c ∈ (cs ++ behind).head?, isBlank c = false := by
    rw [List.head?_append_of_ne_nil _ solid.filled]
    exact solid.first
  have last : ∀ c ∈ cs.reverse.head?, isBlank c = false := by
    rw [List.head?_reverse]
    exact solid.last
  have turned : Blanks behind.reverse := fun c member => right c (List.mem_reverse.mp member)
  rw [trim, trimStart_blanks left first, trimEnd, List.reverse_append, dropWhile_run turned last,
    List.reverse_reverse]

theorem isWord_of_isBlank {c : Char} (blank : isBlank c = true) : isWord c = false :=
  forall_isBlank (p := fun c => isWord c = false) (by decide +kernel) blank

theorem isBlank_of_isWord {c : Char} (word : isWord c = true) : isBlank c = false :=
  Bool.eq_false_iff.mpr fun blank => nomatch word.symm.trans (isWord_of_isBlank blank)

end Text

theorem Kind.isWord_of_mem_name (kind : Kind) : ∀ c ∈ kind.name.toList, Text.isWord c = true :=
  List.all_eq_true.mp (by cases kind <;> decide)

namespace Signature
open Text (Blanks Solid blanks_nil blanks_space)

inductive Union : List Char → List Kind → Prop
  | last {kind : Kind} : Union kind.name.toList [kind]
  | more {before behind rest : List Char} {kind : Kind} {kinds : List Kind} (left : Blanks before)
    (right : Blanks behind) (next : Union rest kinds) :
    Union (kind.name.toList ++ (before ++ '|' :: (behind ++ rest))) (kind :: kinds)

inductive Mark : List Char → (optional : Bool) → Prop
  | none : Mark [] false
  | optional {before : List Char} (blanks : Blanks before) : Mark (before ++ ['?']) true

inductive Kinds : List Char → List Kind → Prop
  | none : Kinds [] []
  | union {before behind cs : List Char} {kinds : List Kind} (left : Blanks before)
    (right : Blanks behind) (union : Union cs kinds) :
    Kinds (before ++ ':' :: (behind ++ cs)) kinds

inductive WrittenParameter : List Char → Parameter → Prop
  | parts {mark cs : List Char} {p : Parameter} (marked : Mark mark p.optional)
    (kinds : Kinds cs p.kinds) : WrittenParameter (p.name.toList ++ (mark ++ cs)) p

inductive Parameters : List Char → List Parameter → Prop
  | last {cs : List Char} {p : Parameter} (written : WrittenParameter cs p) : Parameters cs [p]
  | more {before behind cs rest : List Char} {p : Parameter} {ps : List Parameter}
    (written : WrittenParameter cs p) (left : Blanks before) (right : Blanks behind)
    (next : Parameters rest ps) :
    Parameters (cs ++ (before ++ ',' :: (behind ++ rest))) (p :: ps)

inductive Inside : List Char → List Parameter → Prop
  | empty {cs : List Char} (blanks : Blanks cs) : Inside cs []
  | filled {before behind cs : List Char} {ps : List Parameter} (left : Blanks before)
    (right : Blanks behind) (parameters : Parameters cs ps) : Inside (before ++ (cs ++ behind)) ps

inductive Written : List Char → Signature → Prop
  | parts {before inside result behind : List Char} {s : Signature} (left : Blanks before)
    (parameters : Inside inside s.parameters) (results : Kinds result (s.results.getD []))
    (right : Blanks behind) :
    Written (before ++ '(' :: (inside ++ ')' :: (result ++ behind))) s

/-- A parameter that can be printed: its name is a word, and where all kinds fit, none is listed. -/
structure PrintableParameter (p : Parameter) : Prop where
  filled : p.name.toList ≠ []
  word : ∀ c ∈ p.name.toList, Text.isWord c = true
  listed : Kind.any ∉ p.kinds

structure Printable (s : Signature) : Prop where
  parameters : ∀ p ∈ s.parameters, PrintableParameter p
  results : ∀ kinds ∈ s.results, kinds ≠ [] ∧ Kind.any ∉ kinds

variable {before behind cs : List Char} {kinds : List Kind} {p : Parameter} {ps : List Parameter}

def isPart (c : Char) : Bool := isUnionPart c || c == ':'

theorem isUnionPart_of_isWord {c : Char} (word : Text.isWord c = true) : isUnionPart c = true := by
  simp [isUnionPart, word]

theorem isUnionPart_of_isBlank {c : Char} (blank : Text.isBlank c = true) : isUnionPart c = true := by
  simp [isUnionPart, blank]

theorem isPart_of_isUnionPart {c : Char} (part : isUnionPart c = true) : isPart c = true := by
  simp [isPart, part]

theorem isPart_of_isBlank {c : Char} (blank : Text.isBlank c = true) : isPart c = true :=
  isPart_of_isUnionPart (isUnionPart_of_isBlank blank)

theorem solid_name (kind : Kind) : Solid kind.name.toList :=
  .of_visible (by cases kind <;> decide) fun c member => Text.isBlank_of_isWord (kind.isWord_of_mem_name c member)

theorem Union.solid (union : Union cs kinds) : Solid cs := by
  induction union with
  | @last kind => exact solid_name kind
  | @more before behind rest kind kinds left right next ih =>
    have split : before ++ '|' :: (behind ++ rest) = before ++ ('|' :: behind) ++ rest := by simp
    rw [split]
    exact (solid_name kind).append ih _

theorem Union.isUnionPart (union : Union cs kinds) : ∀ c ∈ cs, isUnionPart c = true := by
  induction union with
  | @last kind => exact fun c member => isUnionPart_of_isWord (kind.isWord_of_mem_name c member)
  | @more before behind rest kind kinds left right next ih =>
    simp only [List.mem_append, List.mem_cons]
    rintro c (name | space | rfl | space | rest)
    · exact isUnionPart_of_isWord (kind.isWord_of_mem_name c name)
    · exact isUnionPart_of_isBlank (left c space)
    · rfl
    · exact isUnionPart_of_isBlank (right c space)
    · exact ih c rest

theorem Kinds.isPart (written : Kinds cs kinds) : ∀ c ∈ cs, isPart c = true := by
  cases written with
  | none => nofun
  | union left right union =>
    simp only [List.mem_append, List.mem_cons]
    rintro c (space | rfl | space | name)
    · exact isPart_of_isBlank (left c space)
    · rfl
    · exact isPart_of_isBlank (right c space)
    · exact isPart_of_isUnionPart (union.isUnionPart c name)

theorem Mark.isPart {optional : Bool} (marked : Mark cs optional) : ∀ c ∈ cs, isPart c = true := by
  cases marked with
  | none => nofun
  | optional blanks =>
    simp only [List.mem_append, List.mem_singleton]
    rintro c (space | rfl)
    · exact isPart_of_isBlank (blanks c space)
    · rfl

theorem WrittenParameter.isPart (written : WrittenParameter cs p)
    (word : ∀ c ∈ p.name.toList, Text.isWord c = true) : ∀ c ∈ cs, isPart c = true := by
  obtain ⟨marked, kinds⟩ := written
  simp only [List.mem_append]
  rintro c (name | mark | kind)
  · exact isPart_of_isUnionPart (isUnionPart_of_isWord (word c name))
  · exact marked.isPart c mark
  · exact kinds.isPart c kind

theorem notMem_of_isPart {d : Char} (out : isPart d = false) (all : ∀ c ∈ cs, isPart c = true) : d ∉ cs :=
  fun member => nomatch out.symm.trans (all d member)

theorem partName_name (left : Blanks before) (right : Blanks behind) (kind : Kind) :
    partName (before ++ (kind.name.toList ++ behind)) = kind.name.toList := by
  rw [partName, (solid_name kind).trim_eq left right]
  cases kind <;> decide

/-- The names in a union, each without the blanks around it. -/
theorem Union.splitOn_names (union : Union cs kinds) (left : Blanks before) :
    (Text.splitOn '|' (before ++ cs)).map partName = kinds.map fun kind => kind.name.toList := by
  have apart {part : List Char} (all : ∀ c ∈ part, Text.isWord c = true ∨ Text.isBlank c = true) :
      '|' ∉ part := fun member => (all _ member).elim nofun nofun
  induction union generalizing before with
  | @last kind =>
    rw [Text.splitOn_of_notMem]
    · have name := partName_name left blanks_nil kind
      rw [List.append_nil] at name
      rw [List.map_singleton, name, List.map_singleton]
    · exact apart fun c member => (List.mem_append.mp member).elim (.inr <| left c ·)
        (.inl <| kind.isWord_of_mem_name c ·)
  | @more between behind rest kind kinds middle right next ih =>
    have split : before ++ (kind.name.toList ++ (between ++ '|' :: (behind ++ rest))) =
        (before ++ (kind.name.toList ++ between)) ++ '|' :: (behind ++ rest) := by simp
    rw [split, Text.splitOn_append, List.map_cons, partName_name left middle, ih right, List.map_cons]
    refine apart fun c member => ?_
    simp only [List.mem_append] at member
    rcases member with space | name | space
    · exact .inr (left c space)
    · exact .inl (kind.isWord_of_mem_name c name)
    · exact .inr (middle c space)

theorem mapM_named? (kinds : List Kind) :
    (kinds.map fun kind => kind.name.toList).mapM (fun name => Kind.named? (String.ofList name)) = some kinds := by
  induction kinds with
  | nil => rfl
  | cons kind kinds ih => simp [ih, Kind.named?_name]

theorem Union.kinds?_eq (union : Union cs kinds) (listed : Kind.any ∉ kinds) :
    kinds? (Text.splitOn '|' cs) = some kinds := by
  have names := union.splitOn_names blanks_nil
  have all : (kinds.map fun kind => kind.name.toList).takeWhile (· ≠ "any".toList) =
      kinds.map fun kind => kind.name.toList := by
    refine List.takeWhile_eq_self_iff.mpr fun name member => ?_
    obtain ⟨kind, there, rfl⟩ := List.mem_map.mp member
    refine decide_eq_true fun same => ?_
    have any : Kind.named? "any" = some kind := by
      rw [← kind.named?_name, ← String.toList_inj.mp same]
    cases any
    exact listed there
  have count := congrArg List.length names
  rw [List.length_map, List.nil_append] at count
  rw [List.nil_append] at names
  simp only [kinds?, names, all]
  rw [mapM_named?]
  simp [count]

theorem Union.union?_eq (union : Union cs kinds) (left : Blanks before) (right : Blanks behind) :
    union? (before ++ (cs ++ behind)) = some cs := by
  have filled : cs.isEmpty = false := by simpa using union.solid.filled
  have all : cs.all Signature.isUnionPart = true := List.all_eq_true.mpr union.isUnionPart
  simp only [union?, union.solid.trim_eq left right, filled, all]
  rfl

/-- What stands behind a name or a list of parameters: nothing, or a colon with the kinds of a union. -/
theorem Kinds.trimStart_eq (written : Kinds cs kinds) (right : Blanks behind) :
    kinds = [] ∧ Text.trimStart (cs ++ behind) = [] ∨
      ∃ rest used, Text.trimStart (cs ++ behind) = ':' :: rest ∧ union? rest = some used ∧ Union used kinds := by
  cases written with
  | none =>
    exact .inl ⟨rfl, Text.trimStart_of_blanks right⟩
  | @union before between used _ left middle union =>
    refine .inr ⟨between ++ (used ++ behind), used, ?_, union.union?_eq middle right, union⟩
    rw [List.append_assoc, List.cons_append, List.append_assoc, Text.trimStart_blanks left]
    rintro c ⟨rfl⟩
    rfl

/-- What may stand behind a word without belonging to it. -/
theorem stops_blanks (blanks : Blanks before) (stops : ∀ c ∈ cs.head?, Text.isWord c = false) :
    ∀ c ∈ (before ++ cs).head?, Text.isWord c = false := by
  cases before with
  | nil => exact stops
  | cons d before =>
    rintro c ⟨rfl⟩
    exact Text.isWord_of_isBlank (blanks d List.mem_cons_self)

theorem Kinds.stops (written : Kinds cs kinds) (right : Blanks behind) :
    ∀ c ∈ (cs ++ behind).head?, Text.isWord c = false := by
  cases written with
  | none =>
    have stops : ∀ c ∈ (behind ++ []).head?, Text.isWord c = false := stops_blanks right nofun
    rwa [List.append_nil] at stops
  | union left middle union =>
    rw [List.append_assoc]
    refine stops_blanks left ?_
    rintro c ⟨rfl⟩
    rfl

theorem parameter?_eq (written : WrittenParameter cs p) (printable : PrintableParameter p)
    (left : Blanks before) (right : Blanks behind) :
    parameter? (before ++ (cs ++ behind)) = some p := by
  obtain @⟨mark, cs, p, marked, kinds⟩ := written
  have solid : Solid p.name.toList :=
    .of_visible printable.filled fun c member => Text.isBlank_of_isWord (printable.word c member)
  have start : Text.trimStart (before ++ (p.name.toList ++ (mark ++ cs) ++ behind)) =
      p.name.toList ++ (mark ++ (cs ++ behind)) := by
    rw [Text.trimStart_blanks left]
    · simp
    · rw [List.append_assoc, List.head?_append_of_ne_nil _ printable.filled]
      exact solid.first
  have stops : ∀ c ∈ (mark ++ (cs ++ behind)).head?, Text.isWord c = false := by
    revert marked
    generalize p.optional = optional
    intro marked
    cases marked with
    | none => exact kinds.stops right
    | optional blanks =>
      rw [List.append_assoc]
      refine stops_blanks blanks ?_
      rintro c ⟨rfl⟩
      rfl
  have asked {blanks : List Char} (between : Blanks blanks) :
      Text.trimStart (blanks ++ '?' :: (cs ++ behind)) = '?' :: (cs ++ behind) := by
    refine Text.trimStart_blanks between ?_
    rintro c ⟨rfl⟩
    rfl
  obtain ⟨name, listed, optional⟩ := p
  rw [parameter?, start]
  dsimp only
  rw [Text.takeWhile_run printable.word stops, Text.dropWhile_run printable.word stops, guard,
    if_pos printable.filled]
  rcases kinds.trimStart_eq right with ⟨none, rest⟩ | ⟨rest, used, found, read, union⟩
  · obtain rfl : listed = [] := none
    cases marked with
    | none => simp [rest]
    | optional between => simp [asked between, rest]
  · have listed := union.kinds?_eq printable.listed
    cases marked with
    | none => simp [found, read, listed]
    | optional between => simp [asked between, found, read, listed]

/-- The parameters between commas. -/
theorem Parameters.splitOn_read (written : Parameters cs ps)
    (printable : ∀ p ∈ ps, PrintableParameter p) (left : Blanks before) (right : Blanks behind) :
    (Text.splitOn ',' (before ++ (cs ++ behind))).mapM parameter? = some ps := by
  have apart {part : List Char} (all : ∀ c ∈ part, isPart c = true) : ',' ∉ part := notMem_of_isPart rfl all
  induction written generalizing before with
  | @last cs p written =>
    have printable := printable p List.mem_cons_self
    rw [Text.splitOn_of_notMem]
    · simp [parameter?_eq written printable left right]
    · refine apart fun c member => ?_
      simp only [List.mem_append] at member
      rcases member with space | part | space
      · exact isPart_of_isBlank (left c space)
      · exact written.isPart printable.word c part
      · exact isPart_of_isBlank (right c space)
  | @more between beyond cs rest p ps written middle after next ih =>
    have here := printable p List.mem_cons_self
    have split : before ++ (cs ++ (between ++ ',' :: (beyond ++ rest)) ++ behind) =
        (before ++ (cs ++ between)) ++ ',' :: (beyond ++ (rest ++ behind)) := by simp
    rw [split, Text.splitOn_append]
    · simp [parameter?_eq written here left middle,
        ih (fun q member => printable q (List.mem_cons_of_mem _ member)) after]
    · refine apart fun c member => ?_
      simp only [List.mem_append] at member
      rcases member with space | part | space
      · exact isPart_of_isBlank (left c space)
      · exact written.isPart here.word c part
      · exact isPart_of_isBlank (middle c space)

theorem Mark.solid {optional : Bool} (marked : Mark cs optional) {word : List Char} (solid : Solid word) :
    Solid (word ++ cs) := by
  cases marked with
  | none => rwa [List.append_nil]
  | optional => exact solid.append (.of_visible (List.cons_ne_nil _ _) (by simp; decide)) _

theorem Kinds.solid (written : Kinds cs kinds) {word : List Char} (solid : Solid word) : Solid (word ++ cs) := by
  cases written with
  | none => rwa [List.append_nil]
  | @union before behind used _ _ _ union =>
    have split : before ++ ':' :: (behind ++ used) = before ++ ':' :: behind ++ used := by simp
    rw [split]
    exact solid.append union.solid _

theorem WrittenParameter.solid (written : WrittenParameter cs p) (printable : PrintableParameter p) : Solid cs := by
  obtain ⟨marked, kinds⟩ := written
  rw [← List.append_assoc]
  refine kinds.solid (marked.solid (.of_visible printable.filled fun c member => ?_))
  exact Text.isBlank_of_isWord (printable.word c member)

theorem Parameters.solid (written : Parameters cs ps) (printable : ∀ p ∈ ps, PrintableParameter p) :
    Solid cs := by
  induction written with
  | @last cs p written => exact written.solid (printable p List.mem_cons_self)
  | @more before behind cs rest p ps written left right next ih =>
    have split : before ++ ',' :: (behind ++ rest) = before ++ ',' :: behind ++ rest := by simp
    rw [split]
    exact (written.solid (printable p List.mem_cons_self)).append
      (ih fun q member => printable q (List.mem_cons_of_mem _ member)) _

theorem Parameters.isPart (written : Parameters cs ps) (printable : ∀ p ∈ ps, PrintableParameter p) :
    ∀ c ∈ cs, isPart c = true ∨ c = ',' := by
  induction written with
  | @last cs p written => exact fun c member => .inl (written.isPart (printable p List.mem_cons_self).word c member)
  | @more before behind cs rest p ps written left right next ih =>
    simp only [List.mem_append, List.mem_cons]
    rintro c (part | space | rfl | space | rest)
    · exact .inl (written.isPart (printable p List.mem_cons_self).word c part)
    · exact .inl (isPart_of_isBlank (left c space))
    · exact .inr rfl
    · exact .inl (isPart_of_isBlank (right c space))
    · exact ih (fun q member => printable q (List.mem_cons_of_mem _ member)) c rest

/-- The first closing parenthesis is the one behind the parameters. -/
theorem Inside.notMem (written : Inside cs ps) (printable : ∀ p ∈ ps, PrintableParameter p) : ')' ∉ cs := by
  have out {c : Char} (part : isPart c = true ∨ c = ',') : c ≠ ')' := by
    rintro rfl
    exact part.elim nofun nofun
  cases written with
  | empty blanks => exact fun member => out (.inl (isPart_of_isBlank (blanks _ member))) rfl
  | filled left right parameters =>
    simp only [List.mem_append]
    rintro (space | part | space)
    · exact out (.inl (isPart_of_isBlank (left _ space))) rfl
    · exact out (parameters.isPart printable _ part) rfl
    · exact out (.inl (isPart_of_isBlank (right _ space))) rfl

theorem Inside.read (written : Inside cs ps) (printable : ∀ p ∈ ps, PrintableParameter p) :
    Text.trim cs = [] ∧ ps = [] ∨
      Text.trim cs ≠ [] ∧ (Text.splitOn ',' (Text.trim cs)).mapM parameter? = some ps := by
  cases written with
  | empty blanks =>
    exact .inl ⟨by rw [Text.trim, Text.trimStart_of_blanks blanks]; rfl, rfl⟩
  | filled left right parameters =>
    have solid := parameters.solid printable
    have read := parameters.splitOn_read printable blanks_nil blanks_nil
    rw [List.nil_append, List.append_nil] at read
    rw [solid.trim_eq left right]
    exact .inr ⟨solid.filled, read⟩

theorem Union.results?_eq (union : Union cs kinds) (filled : kinds ≠ []) (listed : Kind.any ∉ kinds) :
    results? cs = some (some kinds) := by
  have read := union.kinds?_eq listed
  have spelled : ¬(cs = "void".toList ∨ cs = "any".toList) := by
    rintro (rfl | rfl)
    · cases read
    · cases read
      exact filled rfl
  rw [results?, if_neg spelled, read]
  simp [filled]

theorem read?_of_written {text : String} {s : Signature} (printable : s.Printable)
    (written : Written text.toList s) : read? text = some s := by
  generalize same : text.toList = cs at written
  obtain @⟨before, inside, result, behind, s, left, parameters, results, right⟩ := written
  have start : Text.trimStart text.toList = '(' :: (inside ++ ')' :: (result ++ behind)) := by
    rw [same]
    refine Text.trimStart_blanks left ?_
    rintro c ⟨rfl⟩
    rfl
  have inner := parameters.read printable.parameters
  obtain ⟨ps, kinds⟩ := s
  simp only [read?, start, Text.cutAt_append (parameters.notMem printable.parameters), Option.bind_eq_bind,
    Option.bind_some]
  cases kinds with
  | none =>
    rcases results.trimStart_eq right with ⟨-, rest⟩ | ⟨_, _, _, _, union⟩
    · rcases inner with ⟨empty, none⟩ | ⟨filled, each⟩
      · obtain rfl : ps = [] := none
        simp [empty, rest]
      · simp [filled, each, rest]
    · cases union
  | some kinds =>
    obtain ⟨filled, listed⟩ := printable.results kinds rfl
    rcases results.trimStart_eq right with ⟨empty, -⟩ | ⟨rest, used, found, read, union⟩
    · exact absurd empty filled
    · have checked := union.results?_eq filled listed
      rcases inner with ⟨empty, none⟩ | ⟨filled, each⟩
      · obtain rfl : ps = [] := none
        simp [empty, found, read, checked]
      · simp [filled, each, found, read, checked]

def printKinds (kinds : List Kind) : String := if kinds.isEmpty then "" else ": " ++ label kinds

def printParameter (p : Parameter) : String :=
  p.name ++ (if p.optional then "?" else "") ++ printKinds p.kinds

def print (s : Signature) : String :=
  "(" ++ ", ".intercalate (s.parameters.map printParameter) ++ ")" ++ printKinds (s.results.getD [])

theorem union_label (kind : Kind) (kinds : List Kind) :
    Union (label (kind :: kinds)).toList (kind :: kinds) := by
  induction kinds generalizing kind with
  | nil => simpa [label] using Union.last
  | cons next kinds ih =>
    have rest : Union (kind.name.toList ++ ([] ++ '|' :: ([] ++ (label (next :: kinds)).toList)))
        (kind :: next :: kinds) := .more blanks_nil blanks_nil (ih next)
    simpa [label, String.intercalate_cons_cons] using rest

theorem kinds_print (kinds : List Kind) : Kinds (printKinds kinds).toList kinds := by
  cases kinds with
  | nil => exact .none
  | cons kind kinds =>
    have written := Kinds.union blanks_nil blanks_space (union_label kind kinds)
    simpa [printKinds] using written

theorem writtenParameter_print (p : Parameter) : WrittenParameter (printParameter p).toList p := by
  obtain ⟨name, kinds, optional⟩ := p
  cases optional with
  | false =>
    have written := WrittenParameter.parts (p := ⟨name, kinds, false⟩) .none (kinds_print kinds)
    simpa [printParameter] using written
  | true =>
    have written := WrittenParameter.parts (p := ⟨name, kinds, true⟩) (.optional blanks_nil) (kinds_print kinds)
    simpa [printParameter] using written

theorem parameters_print (p : Parameter) (ps : List Parameter) :
    Parameters (", ".intercalate ((p :: ps).map printParameter)).toList (p :: ps) := by
  induction ps generalizing p with
  | nil => simpa using Parameters.last (writtenParameter_print p)
  | cons q ps ih =>
    have rest := Parameters.more (writtenParameter_print p) blanks_nil blanks_space (ih q)
    simpa [String.intercalate_cons_cons] using rest

theorem written_print (s : Signature) : Written s.print.toList s := by
  have inside : Inside (", ".intercalate (s.parameters.map printParameter)).toList s.parameters := by
    cases s.parameters with
    | nil => exact .empty blanks_nil
    | cons p ps => simpa using Inside.filled blanks_nil blanks_nil (parameters_print p ps)
  have written := Written.parts blanks_nil inside (kinds_print (s.results.getD [])) blanks_nil
  simpa [print] using written

/-- A signature whose names are words is read back from its print, and from any text that differs from it
in the blanks between the parts. -/
theorem read?_written {s : Signature} (printable : s.Printable) :
    Written s.print.toList s ∧ ∀ text : String, Written text.toList s → read? text = some s :=
  ⟨written_print s, fun _ => read?_of_written printable⟩

theorem read?_written_union :
    let s : Signature := {
      parameters := [⟨"a_1", [.composite, .number], false⟩, ⟨"b", [.object], true⟩, ⟨"c", [], true⟩]
      results := some [.boolean, .float] }
    s.print = "(a_1: composite|number, b?: object, c?): boolean|float" ∧ read? s.print = some s := by
  intro s
  have named (p : Parameter) (member : p ∈ s.parameters) : PrintableParameter p := by
    simp only [s, List.mem_cons, List.not_mem_nil, or_false] at member
    rcases member with rfl | rfl | rfl
    all_goals exact ⟨by decide, List.all_eq_true.mp (by decide), by decide⟩
  have printable : s.Printable := ⟨named, by simp [s]⟩
  obtain ⟨written, read⟩ := read?_written printable
  exact ⟨by decide, read _ written⟩

example : read? "\t( a_1: composite | number,b ? :object , c? ) :boolean| float " = some {
    parameters := [⟨"a_1", [.composite, .number], false⟩, ⟨"b", [.object], true⟩, ⟨"c", [], true⟩]
    results := some [.boolean, .float] } := by decide +kernel

end Signature
end LiveTree
