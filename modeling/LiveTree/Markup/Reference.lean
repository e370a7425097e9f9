import LiveTree.Json.Reader
import LiveTree.Markup.Entity

/-!
Character references in texts and attribute values: by name, or by code point in decimal or
hexadecimal digits. What is no complete reference is kept as it stands.
-/
namespace LiveTree.Markup

/-- The code points from which a reference may choose: those of characters, but of the controls
before the blank only tab, line feed, form feed and carriage return. -/
def isReferable (n : Nat) : Bool := n ∈ [9, 10, 12, 13] || 32 ≤ n && n.isValidChar

def codePoint? (n : Nat) : Option Char := if isReferable n then some (Char.ofNat n) else none

def hexNumber? (cs : List Char) : Option Nat :=
  if cs.isEmpty then none
  else cs.foldlM (fun n c => (Json.hexValue c).map (16 * n + ·)) 0

def decimalNumber? (cs : List Char) : Option Nat :=
  if !cs.isEmpty && cs.all Decimal.isDigit then some (Decimal.ofDigits cs) else none

def referent? : List Char → Option Char
  | '#' :: 'x' :: cs | '#' :: 'X' :: cs => (hexNumber? cs).bind codePoint?
  | '#' :: cs => (decimalNumber? cs).bind codePoint?
  | cs => entity? (String.ofList cs)

def isReferencePart (c : Char) : Bool := c.isAlphanum || c == '#'

def reference? (cs : List Char) : Option (Char × Nat) :=
  let inner := cs.takeWhile isReferencePart
  if (cs.drop inner.length).head? = some ';' then
    (referent? inner).map fun c => (c, inner.length + 1)
  else none

/-- Puts characters in the place of references. `skip` counts the characters of the current
reference that are still to be passed over. -/
def decodeFrom : (skip : Nat) → List Char → List Char
  | _, [] => []
  | skip + 1, _ :: cs => decodeFrom skip cs
  | 0, c :: cs =>
    if c = '&' then
      match reference? cs with
      | some (d, n) => d :: decodeFrom n cs
      | none => c :: decodeFrom 0 cs
    else c :: decodeFrom 0 cs

/-- A text without ampersands stays as it is. -/
theorem decodeFrom_of_notMem {cs : List Char} (h : '&' ∉ cs) : decodeFrom 0 cs = cs := by
  induction cs with
  | nil => rfl
  | cons c cs ih =>
    obtain ⟨hc, hcs⟩ := not_or.1 (mt List.mem_cons.2 h)
    rw [decodeFrom, if_neg (Ne.symm hc), ih hcs]

def decode (cs : List Char) : String := String.ofList (decodeFrom 0 cs)

end LiveTree.Markup
