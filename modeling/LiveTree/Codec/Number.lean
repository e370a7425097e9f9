import LiveTree.Decimal.Literal
import LiveTree.Text.Blank
import LiveTree.Text.Search

/-!
Numbers at the start of an attribute text: the longest literal there, whatever follows it, or
not-a-number.
-/
namespace LiveTree.Codec

def numberAtStart (text : List Char) : Float :=
  let cs := Text.trimStart text
  let (negative, unsigned) := Decimal.sign cs
  if (Text.strip? "Infinity".toList unsigned).isSome then Decimal.infinity negative
  else match Decimal.literal? cs with
    | some (literal, _) => literal.toFloat
    | none => Decimal.nan

def integerAtStart (text : List Char) : Float :=
  let (negative, cs) := Decimal.sign (Text.trimStart text)
  let ds := (Decimal.digits cs).1
  if ds.isEmpty then Decimal.nan else Decimal.nearest negative (Decimal.ofDigits ds) 0

end LiveTree.Codec
