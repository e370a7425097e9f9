import LiveTree.Codec.Number
import LiveTree.Proofs.Grammar.Literal

/-! The numbers at the start of a text found in the bytes it is stored as: offsets that are moved on over a
sign, over digits, over a point and a power of ten, and cuts of the text at such offsets. A cut is possible
only between characters. All offsets stand between characters, as what they are moved over is a byte each,
and no byte of a longer character looks like one of those. -/
namespace LiveTree.Codec

def utf8 (cs : List Char) : List UInt8 := cs.flatMap String.utf8EncodeChar

/-- Cuts a text at an offset into its bytes, if one of its characters begins there or it ends there. -/
def cut? : (cs : List Char) → (offset : Nat) → Option (List Char × List Char)
  | cs, 0 => some ([], cs)
  | [], _ => none
  | c :: cs, n => if c.utf8Size ≤ n then (cut? cs (n - c.utf8Size)).map fun r => (c :: r.1, r.2) else none

section Bytes
variable (bytes : List UInt8)

def isDigitByte (b : UInt8) : Bool := '0'.toUInt8 ≤ b && b ≤ '9'.toUInt8

def signEnd (i : Nat) : Nat :=
  if bytes[i]? = some '+'.toUInt8 ∨ bytes[i]? = some '-'.toUInt8 then i + 1 else i

def runEnd (i : Nat) : Nat :=
  if h : (bytes[i]?).any isDigitByte = true then runEnd (i + 1) else i
termination_by bytes.length - i
decreasing_by
  obtain ⟨b, found, -⟩ := (Option.any_eq_true _ _).mp h
  have := (List.getElem?_eq_some_iff.mp found).1
  omega

def mantissaEnd? (start : Nat) : Option Nat :=
  let whole := runEnd bytes start
  if bytes[whole]? = some '.'.toUInt8 then
    let stop := runEnd bytes (whole + 1)
    let digits := whole - start + (stop - (whole + 1))
    if digits = 0 then none
    else if whole + 1 < stop ∨ 0 < digits then some stop else some whole
  else if whole - start = 0 then none else some whole

def powerEnd (i : Nat) : Nat :=
  if bytes[i]? = some 'e'.toUInt8 ∨ bytes[i]? = some 'E'.toUInt8 then
    let start := signEnd bytes (i + 1)
    let stop := runEnd bytes start
    if start < stop then stop else i
  else i

def numberEnd? : Option Nat := (mantissaEnd? bytes (signEnd bytes 0)).map (powerEnd bytes)

def integerEnd? : Option Nat :=
  let start := signEnd bytes 0
  let stop := runEnd bytes start
  if stop = start then none else some stop

end Bytes

def At (text : List Char) (i : Nat) (rest : List Char) : Prop :=
  ∃ pre, text = pre ++ rest ∧ (utf8 pre).length = i

variable {text rest pre cs : List Char} {i : Nat} {c : Char}

@[simp] theorem utf8_append (cs ds : List Char) : utf8 (cs ++ ds) = utf8 cs ++ utf8 ds := List.flatMap_append

theorem utf8_cons (c : Char) (cs : List Char) : utf8 (c :: cs) = String.utf8EncodeChar c ++ utf8 cs :=
  List.flatMap_cons

theorem length_utf8_cons (c : Char) (cs : List Char) :
    (utf8 (c :: cs)).length = c.utf8Size + (utf8 cs).length := by
  rw [utf8_cons, List.length_append, String.length_utf8EncodeChar]

theorem At.start (text : List Char) : At text 0 text := ⟨[], rfl, rfl⟩

theorem cut?_append (pre rest : List Char) :
    cut? (pre ++ rest) (utf8 pre).length = some (pre, rest) := by
  induction pre with
  | nil => cases rest <;> rfl
  | cons c pre ih =>
    obtain ⟨n, length⟩ := Nat.exists_eq_add_of_lt (c.utf8Size_pos.trans_le (Nat.le_add_right _ (utf8 pre).length))
    rw [length_utf8_cons, length]
    rw [List.cons_append, cut?, if_pos (by omega)]
    · have behind : 0 + n + 1 - c.utf8Size = (utf8 pre).length := by omega
      rw [behind, ih]
      rfl
    · omega

theorem append_of_cut? (found : cut? text i = some (pre, rest)) :
    text = pre ++ rest ∧ (utf8 pre).length = i := by
  fun_induction cut? text i generalizing pre with
  | case1 cs =>
    cases found
    exact ⟨rfl, rfl⟩
  | case2 n => cases found
  | case3 n c cs _ fits ih =>
    obtain ⟨⟨_, _⟩, inner, same⟩ := Option.map_eq_some_iff.mp found
    cases same
    obtain ⟨rfl, length⟩ := ih inner
    refine ⟨rfl, ?_⟩
    rw [length_utf8_cons, length]
    omega
  | case4 n c cs short => cases found

theorem At.cut? (here : At text i rest) :
    ∃ pre, Codec.cut? text i = some (pre, rest) ∧ text = pre ++ rest := by
  obtain ⟨pre, rfl, rfl⟩ := here
  exact ⟨pre, cut?_append pre rest, rfl⟩

/-- A text can be cut at its positions. -/
theorem isSome_cut? :
    (cut? text i).isSome = true ↔ (⟨i⟩ : String.Pos.Raw).IsValid (String.ofList text) := by
  have size (cs : List Char) : (String.ofList cs).utf8ByteSize = (utf8 cs).length := by
    rw [← String.size_toByteArray, String.toByteArray_ofList, List.utf8Encode, List.size_toByteArray]
    rfl
  rw [String.Pos.Raw.isValid_ofList]
  simp only [size]
  constructor
  · intro found
    obtain ⟨⟨pre, rest⟩, found⟩ := Option.isSome_iff_exists.mp found
    obtain ⟨rfl, rfl⟩ := append_of_cut? found
    exact ⟨pre.length, by rw [List.take_left]⟩
  · rintro ⟨n, rfl⟩
    have found := cut?_append (text.take n) (text.drop n)
    rw [List.take_append_drop] at found
    rw [found]
    rfl

/-- A character is a byte of its own if it is one of the first 128, and starts with a byte above these if
not. -/
theorem exists_head_byte (c : Char) : ∃ b bs, String.utf8EncodeChar c = b :: bs ∧
    (c.toNat < 128 → b.toNat = c.toNat ∧ bs = []) ∧ (128 ≤ c.toNat → 128 ≤ b.toNat) := by
  rw [← Char.toNat_val]
  fun_cases String.utf8EncodeChar c
  all_goals
    refine ⟨_, _, rfl, ?_⟩
    simp only [UInt8.toNat_ofNat', and_true]
    omega

theorem At.getElem? (here : At text i rest) : (utf8 text)[i]? = (utf8 rest).head? := by
  obtain ⟨pre, rfl, rfl⟩ := here
  rw [utf8_append, List.getElem?_append_right (Nat.le_refl _), Nat.sub_self, List.head?_eq_getElem?]

/-- One of the first 128 characters is told by its byte. -/
theorem At.getElem?_cons (here : At text i (c :: rest)) : ∃ b, (utf8 text)[i]? = some b ∧
    (c.toNat < 128 → b.toNat = c.toNat) ∧ (128 ≤ c.toNat → 128 ≤ b.toNat) := by
  obtain ⟨b, bs, bytes, small, large⟩ := exists_head_byte c
  refine ⟨b, ?_, fun bound => (small bound).1, large⟩
  rw [here.getElem?, utf8_cons, bytes]
  rfl

theorem At.getElem?_nil (here : At text i []) : (utf8 text)[i]? = none := here.getElem?

/-- One of the first 128 characters is told by its byte. -/
theorem At.getElem?_eq {a : Char} (ascii : a.toNat < 128) (here : At text i rest) :
    (utf8 text)[i]? = some a.toUInt8 ↔ rest.head? = some a := by
  have byte : a.toUInt8.toNat = a.toNat := by
    rw [Char.toUInt8, UInt32.toNat_toUInt8, Char.toNat_val]
    omega
  cases rest with
  | nil => simp [here.getElem?_nil]
  | cons c rest =>
    obtain ⟨b, found, small, large⟩ := here.getElem?_cons
    rw [found, List.head?_cons, Option.some.injEq, Option.some.injEq, ← UInt8.toNat_inj, byte,
      ← Char.toNat_inj]
    omega

theorem At.any_isDigitByte (here : At text i rest) :
    ((utf8 text)[i]?).any isDigitByte = rest.head?.any Decimal.isDigit := by
  cases rest with
  | nil => rw [here.getElem?_nil]; rfl
  | cons c rest =>
    obtain ⟨b, found, small, large⟩ := here.getElem?_cons
    rw [found, List.head?_cons, Option.any_some, Option.any_some, Bool.eq_iff_iff]
    simp only [isDigitByte, Decimal.isDigit_iff, Bool.and_eq_true, decide_eq_true_eq,
      UInt8.le_iff_toNat_le]
    change 48 ≤ b.toNat ∧ b.toNat ≤ 57 ↔ _
    omega

/-- Over one of the first 128 characters the offset goes on by one. -/
theorem At.tail (here : At text i (c :: rest)) (ascii : c.toNat < 128) : At text (i + 1) rest := by
  obtain ⟨pre, rfl, rfl⟩ := here
  obtain ⟨b, bs, bytes, small, -⟩ := exists_head_byte c
  refine ⟨pre ++ [c], (List.append_cons pre c rest).symm ▸ rfl, ?_⟩
  rw [utf8_append, utf8_cons, bytes, (small ascii).2, List.length_append]
  rfl

theorem At.run (here : At text i rest) :
    At text (runEnd (utf8 text) i) (Decimal.digits rest).2 ∧
      runEnd (utf8 text) i = i + (Decimal.digits rest).1.length := by
  induction rest generalizing i with
  | nil =>
    have stop : ((utf8 text)[i]?).any isDigitByte = false := here.any_isDigitByte
    rw [runEnd, dif_neg (by rw [stop]; exact Bool.false_ne_true)]
    exact ⟨here, rfl⟩
  | cons c rest ih =>
    have byte : ((utf8 text)[i]?).any isDigitByte = Decimal.isDigit c := here.any_isDigitByte
    rw [runEnd, byte]
    by_cases digit : Decimal.isDigit c = true
    · have ascii : c.toNat < 128 := (Decimal.isDigit_iff.mp digit).2.trans_lt (by decide)
      obtain ⟨behind, length⟩ := ih (here.tail ascii)
      rw [dif_pos digit, Decimal.digits, List.takeWhile_cons_of_pos digit, List.dropWhile_cons_of_pos digit]
      refine ⟨behind, length.trans ?_⟩
      rw [List.length_cons, Decimal.digits, Nat.add_assoc, Nat.add_comm 1]
    · rw [dif_neg digit, Decimal.digits, List.takeWhile_cons_of_neg digit, List.dropWhile_cons_of_neg digit]
      exact ⟨here, rfl⟩

theorem At.sign (here : At text i rest) : At text (signEnd (utf8 text) i) (Decimal.sign rest).2 := by
  have plus := here.getElem?_eq (a := '+') (by decide)
  have minus := here.getElem?_eq (a := '-') (by decide)
  simp only [signEnd, plus, minus]
  fun_cases Decimal.sign rest with
  | case1 => exact here.tail (by decide)
  | case2 => exact here.tail (by decide)
  | case3 _ other other' =>
    rw [if_neg]
    · exact here
    · rw [List.head?_eq_some_iff, List.head?_eq_some_iff]
      rintro (⟨tail, same⟩ | ⟨tail, same⟩)
      · exact other' tail same
      · exact other tail same

/-- The offset behind the whole part and the fraction, if either has digits. -/
theorem At.mantissa (here : At text i rest) :
    let whole := Decimal.digits rest
    let fraction := Decimal.fraction (!whole.1.isEmpty) whole.2
    if whole.1.isEmpty && fraction.1.isEmpty then mantissaEnd? (utf8 text) i = none
    else ∃ stop, mantissaEnd? (utf8 text) i = some stop ∧ At text stop fraction.2 := by
  obtain ⟨behind, length⟩ := here.run
  have point := behind.getElem?_eq (a := '.') (by decide)
  have count : i + (Decimal.digits rest).1.length - i = (Decimal.digits rest).1.length := by omega
  rw [length] at behind point
  simp only [mantissaEnd?, length, point, count]
  generalize (Decimal.digits rest).1 = whole at *
  generalize (Decimal.digits rest).2 = left at *
  have empty : whole.length = 0 ↔ whole.isEmpty = true := by simp
  by_cases pointed : left.head? = some '.'
  · obtain ⟨tail, rfl⟩ := List.head?_eq_some_iff.mp pointed
    obtain ⟨last, length⟩ := (behind.tail (by decide)).run
    simp only [List.head?_cons, if_pos, length, Nat.add_sub_cancel_left] at last ⊢
    cases whole with
    | nil =>
      cases fraction : (Decimal.digits tail).1 with
      | nil => simp [Decimal.fraction, fraction]
      | cons d ds =>
        rw [fraction] at last
        simpa [Decimal.fraction, fraction] using last
    | cons d ds =>
      have some : 0 < ds.length + 1 + (Decimal.digits tail).1.length := by omega
      simpa [Decimal.fraction, some] using last
  · have absent : Decimal.fraction (!whole.isEmpty) left = ([], left) := by
      unfold Decimal.fraction
      split
      · exact absurd rfl pointed
      · rfl
    rw [if_neg pointed, absent, List.isEmpty_nil, Bool.and_true]
    by_cases none : whole.isEmpty = true
    · rw [if_pos none, if_pos (empty.mpr none)]
    · rw [if_neg none, if_neg (mt empty.mp none)]
      exact ⟨_, rfl, behind⟩

theorem At.power (here : At text i rest) : At text (powerEnd (utf8 text) i) (Decimal.power rest).2 := by
  have small := here.getElem?_eq (a := 'e') (by decide)
  have capital := here.getElem?_eq (a := 'E') (by decide)
  simp only [powerEnd, small, capital]
  by_cases letter : rest.head? = some 'e' ∨ rest.head? = some 'E'
  · obtain ⟨c, tail, rfl, ascii, read⟩ : ∃ c tail, rest = c :: tail ∧ c.toNat < 128 ∧
        (Decimal.power rest).2 = if (Decimal.digits (Decimal.sign tail).2).1.isEmpty then rest
          else (Decimal.digits (Decimal.sign tail).2).2 := by
      rcases letter with letter | letter
      all_goals
        obtain ⟨tail, rfl⟩ := List.head?_eq_some_iff.mp letter
        refine ⟨_, tail, rfl, by decide, ?_⟩
        rw [Decimal.power]
        exact apply_ite Prod.snd _ _ _
    obtain ⟨last, length⟩ := (here.tail ascii).sign.run
    rw [if_pos letter, read]
    by_cases none : (Decimal.digits (Decimal.sign tail).2).1.isEmpty = true
    · rw [List.isEmpty_iff.mp none, List.length_nil] at length
      rw [if_pos none, if_neg (by omega)]
      exact here
    · have some := List.length_pos_iff.mpr (mt List.isEmpty_iff.mpr none)
      rw [if_neg none, if_pos (by omega)]
      exact last
  · have absent : Decimal.power rest = (0, rest) := by
      unfold Decimal.power
      split
      · exact absurd (.inl rfl) letter
      · exact absurd (.inr rfl) letter
      · rfl
    rw [if_neg letter, absent]
    exact here

/-- The offset behind a literal stands before what the reader leaves. -/
theorem at_numberEnd? (text : List Char) :
    match Decimal.literal? text with
    | none => numberEnd? (utf8 text) = none
    | some (_, rest) => ∃ stop, numberEnd? (utf8 text) = some stop ∧ At text stop rest := by
  have mantissa := (At.start text).sign.mantissa
  unfold Decimal.literal? numberEnd?
  dsimp only at mantissa ⊢
  split at mantissa
  · next none =>
    rw [if_pos none, mantissa]
    rfl
  · next some =>
    obtain ⟨stop, found, here⟩ := mantissa
    rw [if_neg some, found]
    exact ⟨_, rfl, here.power⟩

theorem at_integerEnd? (text : List Char) :
    let run := Decimal.digits (Decimal.sign text).2
    if run.1.isEmpty then integerEnd? (utf8 text) = none
    else ∃ stop, integerEnd? (utf8 text) = some stop ∧ At text stop run.2 := by
  obtain ⟨behind, length⟩ := (At.start text).sign.run
  dsimp only
  split
  · next none =>
    rw [List.isEmpty_iff.mp none] at length
    exact if_pos length
  · next some =>
    have filled := List.length_pos_iff.mpr (mt List.isEmpty_iff.mpr some)
    exact ⟨_, if_neg (by omega), behind⟩

end LiveTree.Codec
