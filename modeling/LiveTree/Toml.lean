import LiveTree.Keyed

/-!
TOML data, as far as a configuration looks at it, and the quoted texts of TOML.
-/
namespace LiveTree

inductive Toml.Origin
  | defined
  /-- Braces: nothing is added later. -/
  | braces
  | implied
  | dotted
  deriving DecidableEq

inductive Toml
  | string (s : String)
  | boolean (b : Bool)
  | scalar
  | array (items : List Toml)
  | table (origin : Toml.Origin) (members : List (String × Toml))
  | tables (items : List (List (String × Toml)))

namespace Toml

def longestRun (c : Char) (cs : List Char) : Nat :=
  (cs.foldl (fun (r : Nat × Nat) d =>
    if d = c then (r.1 + 1, max r.2 (r.1 + 1)) else (0, r.2)) (0, 0)).2

def isControl (c : Char) : Bool :=
  (c.toNat < 32 && c != '\t' && c != '\n') || c.toNat == 127

def hex4 (n : Nat) : List Char :=
  [n / 4096 % 16, n / 256 % 16, n / 16 % 16, n % 16].map fun d => (Nat.digitChar d).toUpper

def escape (several : Bool) (c : Char) : List Char :=
  if c = '\\' then ['\\', '\\']
  else if c = '\t' then ['\\', 't']
  else if c = '\x08' then ['\\', 'b']
  else if c = '\x0c' then ['\\', 'f']
  else if c = '\r' then ['\\', 'r']
  else if c = '\n' then if several then ['\n'] else ['\\', 'n']
  else if isControl c then '\\' :: 'u' :: hex4 c.toNat
  else [c]

def escaped (several : Bool) (most : Nat) : (quotes : Nat) → List Char → List Char
  | _, [] => []
  | quotes, c :: cs =>
    if c = '"' then
      if quotes < most then c :: escaped several most (quotes + 1) cs
      else '\\' :: '"' :: escaped several most 0 cs
    else escape several c ++ escaped several most 0 cs

/-- The quoted form of a text: the first of one line in double quotes, one line in single quotes,
several lines in double quotes and several lines in single quotes that needs no escape; else with
escapes. -/
def quote (text : List Char) : List Char :=
  let single := longestRun '\'' text
  let double := longestRun '"' text
  let lines := '\n' ∈ text
  let control := text.any isControl
  let backslash := '\\' ∈ text
  let fence (q : Char) (body : List Char) : List Char :=
    [q, q, q] ++ (if lines then ['\n'] else []) ++ body ++ [q, q, q]
  if ¬control ∧ ¬backslash ∧ double = 0 ∧ ¬lines then '"' :: escaped false 0 0 text ++ ['"']
  else if ¬control ∧ single = 0 ∧ ¬lines then '\'' :: text ++ ['\'']
  else if ¬control ∧ ¬backslash ∧ double ≤ 2 then fence '"' (escaped true 2 0 text)
  else if ¬control ∧ single ≤ 2 then fence '\'' text
  else if lines then fence '"' (escaped true 2 0 text)
  else '"' :: escaped false 0 0 text ++ ['"']

end Toml
end LiveTree
