import LiveTree.Proofs.Numeral.Longest
import LiveTree.Proofs.Numeral.Offsets
import LiveTree.Proofs.RoundTrip.Number
import LiveTree.Schema.Name

/-! The number at the start of a text is that of the longest literal there. The number parser is given this
literal and nothing else, and takes it; with no literal there the number is not-a-number. The same is found
by byte offsets, at each of which a character of the text begins. -/
namespace LiveTree
namespace Double
open Float.Model (Format UnpackedFloat pack)
open Float.Model.UnpackedFloat (Accuracy Sign packComponents roundWithAccuracy
  unpackExponent_packComponents unpackMantissa_packComponents)

/-! ## Rounding

Rounding a decimal gives a number. It can overflow to an infinity and vanish to zero, but neither reading
digits nor scaling them by a power of ten makes not-a-number. -/

variable {u v : UnpackedFloat}

/-- Only the largest exponent can be that of not-a-number. -/
theorem isNaN_unpack_packComponents (s : Sign) {exponent : BitVec 11}
    (regular : exponent ≠ -1#11) (mantissa : BitVec 52) :
    (UnpackedFloat.unpack Format.binary64
      (packComponents Format.binary64 s exponent mantissa)).isNaN = false := by
  simp only [UnpackedFloat.unpack, unpackMantissa_packComponents,
    unpackExponent_packComponents]
  rw [if_neg regular]
  split
  · split <;> rfl
  · rfl

theorem isNaN_ofModel_pack (u : UnpackedFloat) :
    (Float.ofModel (pack u)).isNaN = u.isNaN := by
  change (UnpackedFloat.unpack Format.binary64
    (UnpackedFloat.pack Format.binary64 u)).isNaN = _
  cases u with
  | notANumber => rfl
  | infinity s => cases s <;> rfl
  | zero s => cases s <;> rfl
  | finite s m e positive =>
    rw [UnpackedFloat.pack]
    dsimp only
    split
    · cases s <;> rfl
    · next small =>
      split
      · refine isNaN_unpack_packComponents s (fun last => ?_) _
        have word := congrArg BitVec.toNat last
        rw [BitVec.toNat_ofNat] at word
        change _ % 2048 = 2047 at word
        change ¬2048 ≤ _ + 1 at small
        omega
      · exact isNaN_unpack_packComponents s (by decide) _

theorem isNaN_roundWithAccuracy (s : Sign) (m : Nat) (e : Int)
    (accuracy : Accuracy) :
    (roundWithAccuracy Format.binary64 s m e accuracy).isNaN = false := by
  unfold roundWithAccuracy
  dsimp only
  split <;> rfl

def scales : UnpackedFloat → Bool
  | .finite .. => true
  | _ => false

theorem isNaN_mul_of_scales (h : scales v = true) (number : u.isNaN = false) :
    (UnpackedFloat.mul Format.binary64 u v).isNaN = false := by
  cases v with
  | finite =>
    cases u with
    | notANumber => cases number
    | finite => exact isNaN_roundWithAccuracy ..
    | _ => rfl
  | _ => cases h

theorem isNaN_div_of_scales (h : scales v = true) (number : u.isNaN = false) :
    (UnpackedFloat.div Format.binary64 u v).isNaN = false := by
  cases v with
  | finite =>
    cases u with
    | notANumber => cases number
    | finite => exact isNaN_roundWithAccuracy ..
    | _ => rfl
  | _ => cases h

theorem isNaN_normalize (m e : Int) (s : Sign) :
    (UnpackedFloat.normalize Format.binary64 m e s).isNaN = false := by
  unfold UnpackedFloat.normalize
  split
  · exact isNaN_roundWithAccuracy ..
  · rfl
  · exact isNaN_roundWithAccuracy ..

theorem isNaN_ofScientific_model (n : Nat) (e : Int) :
    (UnpackedFloat.ofScientific Format.binary64 n e).isNaN = false := by
  unfold UnpackedFloat.ofScientific
  split
  · rfl
  · split
    · rfl
    · split
      · rfl
      · split
        · exact isNaN_mul_of_scales rfl rfl
        · exact isNaN_div_of_scales rfl rfl

/-- The powers of ten that are doubles themselves. -/
theorem scales_power : ∀ e : Fin Float.exactlyRepresentablePowersOfTen.size,
    scales Float.exactlyRepresentablePowersOfTen[e].toModel.unpack = true := by
  decide +kernel

theorem isNaN_ofScientific (n : Nat) (negative : Bool) (e : Nat) :
    (Float.ofScientific n negative e).isNaN = false := by
  unfold Float.ofScientific
  split
  · next small =>
    have number : n.toUInt64.toFloat.toModel.unpack.isNaN = false :=
      (isNaN_ofModel_pack _).trans (isNaN_normalize _ _ _)
    have power := scales_power ⟨e, Nat.lt_succ_of_le small.2⟩
    dsimp only
    split
    · exact (isNaN_ofModel_pack _).trans (isNaN_div_of_scales power number)
    · exact (isNaN_ofModel_pack _).trans (isNaN_mul_of_scales power number)
  · exact (isNaN_ofModel_pack _).trans (isNaN_ofScientific_model _ _)

theorem isNaN_neg (x : Float) : (-x).isNaN = x.isNaN := by
  refine (isNaN_ofModel_pack x.toModel.unpack.neg).trans ?_
  change _ = x.toModel.unpack.isNaN
  cases x.toModel.unpack <;> rfl

end Double

namespace Decimal

/-- The double nearest to a decimal is never not-a-number. -/
theorem isNaN_nearest (negative : Bool) (n : Nat) (exponent : Int) :
    (nearest negative n exponent).isNaN = false := by
  unfold nearest
  dsimp only
  split
  · cases negative <;> rfl
  · split
    · cases negative <;> rfl
    · split
      · exact (Double.isNaN_neg _).trans (Double.isNaN_ofScientific ..)
      · exact Double.isNaN_ofScientific ..

theorem Literal.isNaN_toFloat (l : Literal) : l.toFloat.isNaN = false := isNaN_nearest ..

theorem isNaN_nan : nan.isNaN = true := by rfl

def number? (cs : List Char) : Option Float :=
  let (negative, unsigned) := sign cs
  let word := unsigned.map Char.toLower
  if word = "inf".toList ∨ word = "infinity".toList then some (infinity negative)
  else if word = "nan".toList then some nan
  else match literal? cs with
    | some (l, []) => some l.toFloat
    | _ => none

variable {cs used rest : List Char} {l : Literal}

theorem sign_fst (cs : List Char) : (sign cs).1 = (cs.head? == some '-') := by
  fun_cases sign cs with
  | case1 => rfl
  | case2 => rfl
  | case3 _ other =>
    refine (beq_eq_false_iff_ne.mpr fun first => ?_).symm
    obtain ⟨tail, same⟩ := List.head?_eq_some_iff.mp first
    exact other tail same

/-- No word starts like a literal does behind its sign. -/
theorem Written.unsigned (written : Written used l) :
    ∃ c tail, (sign used).2 = c :: tail ∧ c.toLower ∉ ['i', 'n'] := by
  obtain @⟨s, whole, f, ds, p, negative, exponent, signed, all, behind, filled, -⟩ := written
  rw [signed.sign_append (behind.start all filled p)]
  have digit (c : Char) (digit : isDigit c = true) : c.toLower ∉ ['i', 'n'] := by
    have bounds := isDigit_iff.mp digit
    rw [toLower_of_not_isUpper (Bool.eq_false_iff.mpr fun upper => by have := isUpper_iff.mp upper; omega)]
    intro word
    obtain rfl | rfl : c = 'i' ∨ c = 'n' := by simpa using word
    all_goals cases digit
  cases whole with
  | cons c whole => exact ⟨c, _, rfl, digit c (all c List.mem_cons_self)⟩
  | nil =>
    cases behind with
    | none => simp at filled
    | point => exact ⟨'.', _, rfl, by decide⟩

theorem Written.literal?_self (written : Written used l) : literal? used = some (l, []) := by
  have ends : Ends [] := fun _ none => nomatch none
  have read := written.literal?_append ends
  rwa [List.append_nil] at read

/-- The number parser takes what is a literal as a whole. -/
theorem Written.number? (written : Written used l) : number? used = some l.toFloat := by
  obtain ⟨c, tail, unsigned, other⟩ := written.unsigned
  have word (d : Char) (ds : List Char) (first : d ∈ ['i', 'n']) :
      (sign used).2.map Char.toLower ≠ d :: ds := by
    rw [unsigned, List.map_cons]
    intro same
    rw [(List.cons.inj same).1] at other
    exact other first
  simp only [Decimal.number?]
  rw [if_neg, if_neg, written.literal?_self]
  · exact word 'n' _ (by decide)
  · exact not_or.mpr ⟨word 'i' _ (by decide), word 'i' _ (by decide)⟩

/-- Apart from the words the parser takes the literals only. -/
theorem isSome_number? : (number? cs).isSome = true ↔
    (sign cs).2.map Char.toLower ∈ ["inf".toList, "infinity".toList, "nan".toList] ∨
      cs ∈ numeral.matches' := by
  have literals : (match literal? cs with
      | some (l, []) => some l.toFloat
      | _ => none).isSome = true ↔ cs ∈ numeral.matches' := by
    rw [mem_numeral]
    constructor
    · intro taken
      split at taken
      · next l read =>
        obtain ⟨used, written, split⟩ := exists_written read
        rw [List.append_nil] at split
        exact ⟨l, split ▸ written⟩
      · cases taken
    · rintro ⟨l, written⟩
      rw [written.literal?_self]
      rfl
  simp only [number?, List.mem_cons, List.not_mem_nil, or_false]
  split
  · next word => exact iff_of_true rfl (.inl (word.imp_right .inl))
  · next word =>
    split
    · next word' => exact iff_of_true rfl (.inl (.inr (.inr word')))
    · next word' =>
      rw [literals, or_iff_right]
      rintro (same | same | same)
      · exact word (.inl same)
      · exact word (.inr same)
      · exact word' same

end Decimal

namespace Codec
open Decimal (Longest number? numeral wholeNumeral)

def numberTo (cs : List Char) : (stop? : Option Nat) → Option Float
  | none => some Decimal.nan
  | some stop => (cut? cs stop).map fun r => (number? r.1).getD Decimal.nan

def numberByOffset? (text : List Char) : Option Float :=
  let cs := Text.trimStart text
  (cut? cs (signEnd (utf8 cs) 0)).bind fun r =>
    if (Text.strip? "Infinity".toList r.2).isSome then some (Decimal.infinity (cs.head? == some '-'))
    else numberTo cs (numberEnd? (utf8 cs))

def integerByOffset? (text : List Char) : Option Float :=
  let cs := Text.trimStart text
  numberTo cs (integerEnd? (utf8 cs))

/-- `x` is not-a-number if the text starts with no piece of the language. Otherwise it is what the number
parser makes of the longest such piece, which ends at the offset where the scan stopped. -/
structure TakesLongest (language : Language Char) (text : List Char) (stop? : Option Nat) (x : Float) :
    Prop where
  isNaN_iff : x.isNaN = true ↔ ∀ used, used <+: text → used ∉ language
  none_iff : stop? = none ↔ ∀ used, used <+: text → used ∉ language
  longest : ∀ stop, stop? = some stop → (⟨stop⟩ : String.Pos.Raw).IsValid (String.ofList text) ∧
    ∃ used rest, cut? text stop = some (used, rest) ∧ Longest language text used ∧
      number? used = some x

variable {text used rest : List Char} {language : Language Char} {x : Float} {stop : Nat}

theorem At.isValid (here : At text stop rest) :
    (⟨stop⟩ : String.Pos.Raw).IsValid (String.ofList text) := by
  obtain ⟨pre, found, -⟩ := here.cut?
  exact isSome_cut?.mp (by rw [found]; rfl)

theorem takesLongest_none (absent : ∀ used, used <+: text → used ∉ language) :
    TakesLongest language text none Decimal.nan where
  isNaN_iff := iff_of_true Decimal.isNaN_nan absent
  none_iff := iff_of_true rfl absent
  longest _ found := nomatch found

theorem takesLongest_some (here : At text stop rest) (split : text = used ++ rest)
    (longest : Longest language text used) (parsed : number? used = some x) (number : x.isNaN = false) :
    TakesLongest language text (some stop) x where
  isNaN_iff := iff_of_false (by rw [number]; exact Bool.false_ne_true)
    fun absent => absent used longest.start longest.mem
  none_iff := iff_of_false (Option.some_ne_none stop)
    fun absent => absent used longest.start longest.mem
  longest := by
    rintro _ ⟨rfl⟩
    obtain ⟨pre, found, split'⟩ := here.cut?
    rw [split] at split'
    rw [← List.append_cancel_right split'] at found
    exact ⟨here.isValid, used, rest, found, longest, parsed⟩

theorem takesLongest_numberAtStart (text : List Char)
    (finite : Text.strip? "Infinity".toList (Decimal.sign (Text.trimStart text)).2 = none) :
    TakesLongest numeral.matches' (Text.trimStart text) (numberEnd? (utf8 (Text.trimStart text)))
      (numberAtStart text) := by
  have stops := at_numberEnd? (Text.trimStart text)
  simp only [numberAtStart, finite, Option.isSome_none, Bool.false_eq_true, if_false]
  cases read : Decimal.literal? (Text.trimStart text) with
  | none =>
    rw [read] at stops
    rw [stops]
    exact takesLongest_none (Decimal.literal?_eq_none.mp read)
  | some r =>
    rw [read] at stops
    obtain ⟨stop, found, here⟩ := stops
    obtain ⟨used, written, split, longest⟩ := Decimal.longest_of_literal? read
    rw [found]
    exact takesLongest_some here split longest written.number? r.1.isNaN_toFloat

theorem takesLongest_integerAtStart (text : List Char) :
    TakesLongest wholeNumeral.matches' (Text.trimStart text) (integerEnd? (utf8 (Text.trimStart text)))
      (integerAtStart text) := by
  have stops := at_integerEnd? (Text.trimStart text)
  dsimp only at stops
  simp only [integerAtStart]
  split at stops
  · next none =>
    rw [stops, if_pos none]
    exact takesLongest_none (Decimal.digits_eq_nil.mp (List.isEmpty_iff.mp none))
  · next some =>
    obtain ⟨stop, found, here⟩ := stops
    obtain ⟨used, written, split, longest⟩ :=
      Decimal.longest_of_digits (mt List.isEmpty_iff.mpr some)
    rw [found, if_neg some]
    exact takesLongest_some here split longest written.number? (Decimal.isNaN_nearest ..)

/-- The number of the longest piece is what is parsed up to the offset. -/
theorem TakesLongest.numberTo {stop? : Option Nat} (takes : TakesLongest language text stop? x)
    (absent : x.isNaN = true → x = Decimal.nan) : numberTo text stop? = some x := by
  cases stop? with
  | none => exact congrArg some (absent (takes.isNaN_iff.mpr (takes.none_iff.mp rfl))).symm
  | some stop =>
    obtain ⟨-, used, rest, found, -, parsed⟩ := takes.longest stop rfl
    simp only [Codec.numberTo, found, Option.map_some, parsed, Option.getD_some]

theorem eq_nan (nan : x.isNaN = true) : x = Decimal.nan :=
  Double.eq_of_unpack ((Double.unpack_of_isNaN nan).trans (Double.unpack_of_isNaN Decimal.isNaN_nan).symm)

theorem numberByOffset?_eq (text : List Char) : numberByOffset? text = some (numberAtStart text) := by
  obtain ⟨pre, found, split⟩ := (At.start (Text.trimStart text)).sign.cut?
  simp only [numberByOffset?, found, Option.bind_some]
  cases infinite : Text.strip? "Infinity".toList (Decimal.sign (Text.trimStart text)).2 with
  | none => exact (takesLongest_numberAtStart text infinite).numberTo eq_nan
  | some rest =>
    simp only [numberAtStart, infinite, Option.isSome_some, if_true, Decimal.sign_fst]

theorem integerByOffset?_eq (text : List Char) : integerByOffset? text = some (integerAtStart text) :=
  (takesLongest_integerAtStart text).numberTo eq_nan

/-- After the blanks a text starts with, and unless an infinity follows, the number at its start is that of
the longest literal there, and not-a-number with none; so is the whole number at its start, of the longest
run of digits with a sign. Both are found by offsets at which characters begin. -/
theorem atStart_takesLongest (text : List Char) :
    let cs := Text.trimStart text
    (numberByOffset? text = some (numberAtStart text) ∧
      integerByOffset? text = some (integerAtStart text)) ∧
    (⟨signEnd (utf8 cs) 0⟩ : String.Pos.Raw).IsValid (String.ofList cs) ∧
    (Text.strip? "Infinity".toList (Decimal.sign cs).2 = none →
      TakesLongest numeral.matches' cs (numberEnd? (utf8 cs)) (numberAtStart text)) ∧
    TakesLongest wholeNumeral.matches' cs (integerEnd? (utf8 cs)) (integerAtStart text) := by
  exact ⟨⟨numberByOffset?_eq text, integerByOffset?_eq text⟩, (At.start _).sign.isValid,
    takesLongest_numberAtStart text, takesLongest_integerAtStart text⟩

/-- A point with no digit before it, and an `e` whose digits never come. -/
theorem atStart_takesLongest_halfway :
    Text.strip? "Infinity".toList (Decimal.sign (Text.trimStart " +.5e-é".toList)).2 = none ∧
      Longest numeral.matches' "+.5e-é".toList "+.5".toList ∧
      number? "+.5".toList = some (numberAtStart " +.5e-é".toList) := by
  have finite : Text.strip? "Infinity".toList (Decimal.sign (Text.trimStart " +.5e-é".toList)).2 = none := by
    decide
  have stop : numberEnd? (utf8 (Text.trimStart " +.5e-é".toList)) = some 3 := by decide +kernel
  obtain ⟨-, -, float, -⟩ := atStart_takesLongest " +.5e-é".toList
  obtain ⟨-, used, rest, found, longest, parsed⟩ := (float finite).longest 3 stop
  have cut : cut? (Text.trimStart " +.5e-é".toList) 3 = some ("+.5".toList, "e-é".toList) := by
    decide +kernel
  obtain ⟨rfl, rfl⟩ := Prod.mk.inj (Option.some.inj (found.symm.trans cut))
  exact ⟨finite, longest, parsed⟩

end Codec
end LiveTree
