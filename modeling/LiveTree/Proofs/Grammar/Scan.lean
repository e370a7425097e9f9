import Mathlib.Data.List.Chain
import LiveTree.Binding.Token

/-! The tokens of a text, found from left to right. Each begins at the first start behind the one
before it, and ends at the first fitting close behind its own start. -/
namespace LiveTree

namespace Text

/-- One of the parts stands in the text behind `before`, and none of them begins further left. -/
structure First {ι : Type} (parts : ι → List Char) (text before : List Char) (i : ι)
    (after : List Char) : Prop where
  split : text = before ++ (parts i ++ after)
  least : ∀ before' j after', text = before' ++ (parts j ++ after') → before.length ≤ before'.length

namespace First
variable {ι : Type} {parts : ι → List Char} {text before after : List Char} {i : ι} {c : Char}

theorem here (parts : ι → List Char) (i : ι) (after : List Char) :
    First parts (parts i ++ after) [] i after :=
  ⟨rfl, fun _ _ _ _ => Nat.zero_le _⟩

theorem cons (other : ∀ j after', c :: text ≠ parts j ++ after')
    (first : First parts text before i after) : First parts (c :: text) (c :: before) i after := by
  refine ⟨by rw [first.split, List.cons_append], fun before' j after' split => ?_⟩
  cases before' with
  | nil => exact (other j after' split).elim
  | cons d before' =>
    exact Nat.succ_le_succ (first.least before' j after' (List.cons.inj split).2)

theorem of_cons (other : ∀ j after', c :: text ≠ parts j ++ after')
    (first : First parts (c :: text) before i after) :
    ∃ before', before = c :: before' ∧ First parts text before' i after := by
  obtain ⟨split, least⟩ := first
  cases before with
  | nil => exact (other i after split).elim
  | cons d before =>
    obtain ⟨same, behind⟩ := List.cons.inj split
    subst same
    refine ⟨before, rfl, behind, fun before' j after' split' => ?_⟩
    exact Nat.le_of_succ_le_succ (least (c :: before') j after' (by rw [split', List.cons_append]))

theorem before_eq_nil (first : First parts text before i after) {j : ι} {after' : List Char}
    (split : text = parts j ++ after') : before = [] :=
  List.eq_nil_of_length_eq_zero (Nat.le_zero.mp (first.least [] j after' split))

end First

theorem cutAtText_of_strip? {part text rest : List Char} (strip : strip? part text = some rest) :
    cutAtText part text = some ([], rest) := by
  cases text <;> simp [cutAtText, strip]

/-- A text is cut at the leftmost occurrence. -/
theorem cutAtText_eq_some_iff {part text before after : List Char} :
    cutAtText part text = some (before, after) ↔
      First (fun _ : Unit => part) text before () after := by
  induction text generalizing before with
  | nil =>
    cases part with
    | nil =>
      constructor
      · intro cut
        cases cut
        exact .here (fun _ : Unit => []) () []
      · rintro ⟨split, -⟩
        obtain ⟨rfl, rfl⟩ : before = [] ∧ after = [] := by simpa using split
        rfl
    | cons c part =>
      constructor
      · nofun
      · rintro ⟨split, -⟩
        simp at split
  | cons c cs ih =>
    cases strip : strip? part (c :: cs) with
    | some rest =>
      have split := strip?_eq_some strip
      rw [cutAtText_of_strip? strip, Option.some.injEq, Prod.mk.injEq]
      constructor
      · rintro ⟨rfl, rfl⟩
        rw [split]
        exact .here (fun _ : Unit => part) () rest
      · intro first
        obtain rfl := first.before_eq_nil (j := ()) split
        exact ⟨rfl, List.append_cancel_left (split.symm.trans first.split)⟩
    | none =>
      have other : ∀ (_ : Unit) rest, c :: cs ≠ part ++ rest := by
        intro _ rest split
        rw [split, strip?_append] at strip
        cases strip
      rw [cutAtText, strip]
      constructor
      · intro cut
        obtain ⟨⟨before', after'⟩, inner, same⟩ := Option.map_eq_some_iff.mp cut
        cases same
        exact (ih.mp inner).cons other
      · intro first
        obtain ⟨before', rfl, inner⟩ := first.of_cons other
        rw [ih.mpr inner]
        rfl

end Text

namespace Token

def Free (text : List Char) : Prop := ∀ mode before after, text ≠ before ++ (start mode ++ after)

/-- The tokens in `rest`, where each has its close, as parts of `seen ++ rest`. -/
inductive Scan : (seen rest : List Char) → List Cut → Prop
  | done {seen rest : List Char} (free : Free rest) : Scan seen rest []
  | token {seen rest before behind inside after : List Char} {mode : Mode} {cuts : List Cut}
    (opens : Text.First start rest before mode behind)
    (closes : Text.First (fun _ : Unit => close mode) behind inside () after)
    (next : Scan (seen ++ before ++ start mode ++ inside ++ close mode) after cuts) :
    Scan seen rest
      ({ before := seen ++ before, mode := mode, inside := inside, after := after } :: cuts)

theorem start_eq_start {m n : Mode} {cs ds : List Char} (same : start m ++ cs = start n ++ ds) :
    m = n ∧ cs = ds := by
  cases m <;> cases n <;> simp_all [start]

theorem nextStart_start (mode : Mode) (rest : List Char) :
    nextStart (start mode ++ rest) = some ([], mode, rest) := by
  cases mode <;> rfl

theorem nextStart_cons {c : Char} {cs : List Char}
    (other : ∀ mode rest, c :: cs ≠ start mode ++ rest) :
    nextStart (c :: cs) = (nextStart cs).map fun r => (c :: r.1, r.2) := by
  refine nextStart.eq_3 c cs ?_ ?_
  · rintro rest rfl rfl
    exact other .twoWay rest rfl
  · rintro rest rfl rfl
    exact other .oneWay rest rfl

theorem nextStart_eq_some_iff {text before after : List Char} {mode : Mode} :
    nextStart text = some (before, mode, after) ↔ Text.First start text before mode after := by
  induction text generalizing before with
  | nil =>
    constructor
    · nofun
    · rintro ⟨split, -⟩
      cases mode <;> simp [start] at split
  | cons c cs ih =>
    by_cases starts : ∃ mode rest, c :: cs = start mode ++ rest
    · obtain ⟨mode', rest, split⟩ := starts
      rw [split, nextStart_start, Option.some.injEq, Prod.mk.injEq, Prod.mk.injEq]
      constructor
      · rintro ⟨rfl, rfl, rfl⟩
        exact .here start mode' rest
      · intro first
        obtain rfl := first.before_eq_nil rfl
        obtain ⟨rfl, rfl⟩ := start_eq_start first.split
        exact ⟨rfl, rfl, rfl⟩
    · have other (mode : Mode) (rest : List Char) : c :: cs ≠ start mode ++ rest :=
        fun split => starts ⟨mode, rest, split⟩
      rw [nextStart_cons other]
      constructor
      · intro found
        obtain ⟨⟨before', mode', after'⟩, inner, same⟩ := Option.map_eq_some_iff.mp found
        cases same
        exact (ih.mp inner).cons other
      · intro first
        obtain ⟨before', rfl, inner⟩ := first.of_cons other
        rw [ih.mpr inner]
        rfl

theorem nextStart_eq_none_iff {text : List Char} : nextStart text = none ↔ Free text := by
  induction text with
  | nil =>
    refine ⟨fun _ mode before after split => ?_, fun _ => rfl⟩
    cases mode <;> simp [start] at split
  | cons c cs ih =>
    by_cases starts : ∃ mode rest, c :: cs = start mode ++ rest
    · obtain ⟨mode, rest, split⟩ := starts
      rw [split, nextStart_start]
      exact ⟨nofun, fun free => (free mode [] rest rfl).elim⟩
    · have other (mode : Mode) (rest : List Char) : c :: cs ≠ start mode ++ rest :=
        fun split => starts ⟨mode, rest, split⟩
      rw [nextStart_cons other, Option.map_eq_none_iff, ih]
      constructor
      · intro free mode before after split
        cases before with
        | nil => exact other mode after split
        | cons d before => exact free mode before after (List.cons.inj split).2
      · intro free mode before after split
        exact free mode (c :: before) after (by rw [split, List.cons_append])

theorem length_after {rest before behind inside after : List Char} {mode : Mode}
    (opens : Text.First start rest before mode behind)
    (closes : Text.First (fun _ : Unit => close mode) behind inside () after) :
    after.length < rest.length := by
  rw [opens.split, closes.split]
  cases mode <;> simp [start] <;> omega

theorem lastCut_of_scan {seen rest : List Char} {cuts : List Cut} (scan : Scan seen rest cuts)
    {most : Nat} (enough : rest.length ≤ most) (last : Option Cut) :
    lastCut last seen most rest = cuts.getLast?.or last := by
  induction scan generalizing most last with
  | @done seen rest free =>
    cases most with
    | zero => rfl
    | succ most => simp [lastCut, nextStart_eq_none_iff.mpr free]
  | @token seen rest before behind inside after mode cuts opens closes next ih =>
    have fewer := length_after opens closes
    obtain ⟨most, rfl⟩ := Nat.exists_eq_add_of_le' (Nat.le_trans (Nat.zero_lt_of_lt fewer) enough)
    have found := nextStart_eq_some_iff.mpr opens
    have closed := Text.cutAtText_eq_some_iff.mpr closes
    have short : after.length ≤ most := by omega
    have later := ih short
      (some { before := seen ++ before, mode := mode, inside := inside, after := after })
    simp only [lastCut, found, closed, Option.bind_eq_bind, Option.bind_some, later]
    simp [List.getLast?_cons]

theorem scan_of_lastCut {most : Nat} {seen rest : List Char} (enough : rest.length ≤ most)
    {last : Option Cut} {cut : Cut} (found : lastCut last seen most rest = some cut) :
    ∃ cuts, Scan seen rest cuts := by
  induction most generalizing seen rest last with
  | zero =>
    obtain rfl := List.eq_nil_of_length_eq_zero (Nat.le_zero.mp enough)
    exact ⟨[], .done (nextStart_eq_none_iff.mp rfl)⟩
  | succ most ih =>
    rw [lastCut] at found
    split at found
    · next missing => exact ⟨[], .done (nextStart_eq_none_iff.mp missing)⟩
    · next before mode behind begun =>
      obtain ⟨⟨inside, after⟩, closed, later⟩ := Option.bind_eq_some_iff.mp found
      have opens := nextStart_eq_some_iff.mp begun
      have closes := Text.cutAtText_eq_some_iff.mp closed
      have fewer := length_after opens closes
      obtain ⟨cuts, scan⟩ := ih (by omega) later
      exact ⟨_, .token opens closes scan⟩

/-- What is left of a text when its last token is cut out. -/
theorem Scan.text_eq {seen rest : List Char} {cuts : List Cut} (scan : Scan seen rest cuts)
    {cut : Cut} (last : cuts.getLast? = some cut) :
    seen ++ rest = cut.before ++ start cut.mode ++ cut.inside ++ close cut.mode ++ cut.after ∧
      Free cut.after := by
  induction scan with
  | done => cases last
  | @token seen rest before behind inside after mode cuts opens closes next ih =>
    have split : seen ++ rest =
        seen ++ before ++ start mode ++ inside ++ close mode ++ after := by
      rw [opens.split, closes.split]
      simp
    cases next with
    | done free =>
      cases last
      exact ⟨split, free⟩
    | token opens' closes' next' =>
      rw [List.getLast?_cons_cons] at last
      rw [split]
      exact ih last

end Token
end LiveTree
