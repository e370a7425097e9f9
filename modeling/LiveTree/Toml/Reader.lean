import LiveTree.Instant
import LiveTree.Json.Reader
import LiveTree.Text.Search
import LiveTree.Toml

/-!
Reading TOML documents. Every text is checked in full; of the values, texts, truth values and the
shape of arrays and tables are kept.
-/
namespace LiveTree.Toml

abbrev Table := List (String × Toml)

def skipBlanks (cs : List Char) : List Char := cs.dropWhile fun c => c = ' ' || c = '\t'

def isPlain (c : Char) : Bool := c = '\t' || (32 ≤ c.toNat && c.toNat ≠ 127)

def lineEnd? : List Char → Option (List Char)
  | '\n' :: cs => some cs
  | '\r' :: '\n' :: cs => some cs
  | _ => none

def skipComment (cs : List Char) : List Char :=
  match cs with
  | '#' :: cs => cs.dropWhile isPlain
  | cs => cs

def skipLines : (most : Nat) → List Char → List Char
  | 0, cs => cs
  | most + 1, cs =>
    let rest := skipComment (skipBlanks cs)
    match lineEnd? rest with
    | some rest => skipLines most rest
    | none => rest

def skipAll (cs : List Char) : List Char := skipLines (cs.length + 1) cs

def codePoint? (digits : Nat) (cs : List Char) : Option (Char × List Char) := do
  let ds := cs.take digits
  guard (ds.length = digits)
  let n ← ds.foldlM (fun n c => (Json.hexValue c).map (16 * n + ·)) 0
  guard n.isValidChar
  return (Char.ofNat n, cs.drop digits)

def escape? : List Char → Option (Char × List Char)
  | 'b' :: cs => some ('\x08', cs)
  | 't' :: cs => some ('\t', cs)
  | 'n' :: cs => some ('\n', cs)
  | 'f' :: cs => some ('\x0c', cs)
  | 'r' :: cs => some ('\r', cs)
  | '"' :: cs => some ('"', cs)
  | '\\' :: cs => some ('\\', cs)
  | 'u' :: cs => codePoint? 4 cs
  | 'U' :: cs => codePoint? 8 cs
  | _ => none

def basic? : (most : Nat) → List Char → Option (List Char × List Char)
  | most + 1, c :: cs =>
    if c = '"' then some ([], cs)
    else if c = '\\' then do
      let (d, cs) ← escape? cs
      let (text, cs) ← basic? most cs
      return (d :: text, cs)
    else if isPlain c then (basic? most cs).map fun r => (c :: r.1, r.2)
    else none
  | _, _ => none

def literal? : List Char → Option (List Char × List Char)
  | [] => none
  | c :: cs =>
    if c = '\'' then some ([], cs)
    else if isPlain c then (literal? cs).map fun r => (c :: r.1, r.2)
    else none

def skipFold : List Char → List Char
  | ' ' :: cs | '\t' :: cs | '\n' :: cs => skipFold cs
  | '\r' :: '\n' :: cs => skipFold cs
  | cs => cs

def fence? (q : Char) (cs : List Char) : Option (List Char × List Char) :=
  let run := cs.takeWhile (· = q)
  if run.length < 3 then none
  else
    let own := min (run.length - 3) 2
    some (run.take own, cs.drop (own + 3))

def several? (q : Char) : (most : Nat) → List Char → Option (List Char × List Char)
  | most + 1, cs =>
    match fence? q cs with
    | some r => some r
    | none =>
      match lineEnd? cs with
      | some cs => (several? q most cs).map fun r => ('\n' :: r.1, r.2)
      | none =>
        match cs with
        | [] => none
        | c :: cs =>
          if c = '\\' ∧ q = '"' then
            match lineEnd? (skipBlanks cs) with
            | some cs => several? q most (skipFold cs)
            | none => do
              let (d, cs) ← escape? cs
              let (text, cs) ← several? q most cs
              return (d :: text, cs)
          else if isPlain c then (several? q most cs).map fun r => (c :: r.1, r.2)
          else none
  | 0, _ => none

def text? (cs : List Char) : Option (List Char × List Char) :=
  match cs with
  | '"' :: '"' :: '"' :: cs => several? '"' (cs.length + 1) ((lineEnd? cs).getD cs)
  | '\'' :: '\'' :: '\'' :: cs => several? '\'' (cs.length + 1) ((lineEnd? cs).getD cs)
  | '"' :: cs => basic? cs.length cs
  | '\'' :: cs => literal? cs
  | _ => none

def isBareKey (c : Char) : Bool := c.isAlphanum || c = '-' || c = '_'

def simpleKey? (cs : List Char) : Option (String × List Char) :=
  match cs with
  | '"' :: cs => (basic? cs.length cs).map fun r => (String.ofList r.1, r.2)
  | '\'' :: cs => (literal? cs).map fun r => (String.ofList r.1, r.2)
  | cs =>
    let key := cs.takeWhile isBareKey
    if key.isEmpty then none else some (String.ofList key, cs.dropWhile isBareKey)

def keyUpTo? : (most : Nat) → List Char → Option (List String × List Char)
  | 0, _ => none
  | most + 1, cs => do
    let (key, cs) ← simpleKey? (skipBlanks cs)
    match skipBlanks cs with
    | '.' :: cs => do
      let (keys, cs) ← keyUpTo? most cs
      return (key :: keys, cs)
    | cs => return ([key], cs)

def deepest : Nat := 79

def key? (cs : List Char) : Option (List String × List Char) := keyUpTo? deepest cs

def digits? (isDigit : Char → Bool) (cs : List Char) : Option (List Char × List Char) :=
  let run := cs.takeWhile fun c => isDigit c || c = '_'
  let ok := run.head? ≠ some '_' ∧ run.getLast? ≠ some '_' ∧ Text.cutAtText ['_', '_'] run = none
  if run.isEmpty ∨ ¬ok then none else some (run.filter (· ≠ '_'), cs.drop run.length)

def based? (base : Nat) (isDigit : Char → Bool) (cs : List Char) : Option (List Char) := do
  let (ds, cs) ← digits? isDigit cs
  let n ← ds.foldlM (fun n c => (Json.hexValue c).map (base * n + ·)) 0
  guard (n < Nat.pow 2 63)
  return cs

def decimal? (cs : List Char) : Option (List Char) := do
  let (negative, unsigned) := Decimal.sign cs
  let (whole, rest) ← digits? Decimal.isDigit unsigned
  guard (whole.length = 1 ∨ whole.head? ≠ some '0')
  let (fraction, rest) ← match rest with
    | '.' :: rest => (digits? Decimal.isDigit rest).map fun r => (some r.1, r.2)
    | rest => some (none, rest)
  let (power, rest) ← match rest with
    | 'e' :: rest | 'E' :: rest =>
      let (down, rest) := Decimal.sign rest
      (digits? Decimal.isDigit rest).map fun r =>
        (some (if down then -(Decimal.ofDigits r.1 : Int) else Decimal.ofDigits r.1), r.2)
    | rest => some (none, rest)
  let n := Decimal.ofDigits whole
  if fraction.isNone ∧ power.isNone then
    guard (n < Nat.pow 2 63 ∨ (negative ∧ n = Nat.pow 2 63))
  else
    let ds := whole ++ fraction.getD []
    let x := Decimal.nearest false (Decimal.ofDigits ds) (power.getD 0 - (fraction.getD []).length)
    guard (negative ∨ ¬x.isInf)
  return rest

def time? (cs : List Char) : Option (List Char) := do
  let (hour, cs) ← Instant.digits? 2 2 cs
  let (minute, cs) ← Instant.digits? 2 2 (← Instant.char? ':' cs)
  let (second, cs) ← Instant.digits? 2 2 (← Instant.char? ':' cs)
  guard (hour ≤ 23 ∧ minute ≤ 59 ∧ second ≤ 60)
  match cs with
  | '.' :: cs => do
    guard (!(Decimal.digits cs).1.isEmpty)
    return (Decimal.digits cs).2
  | cs => return cs

def offset? (cs : List Char) : Option (List Char) :=
  match cs with
  | '−' :: _ => none
  | cs => (Instant.offset? cs).map (·.2)

def moment? (cs : List Char) : Option (List Char) :=
  (do
    let (year, cs) ← Instant.digits? 4 4 cs
    let (month, cs) ← Instant.digits? 2 2 (← Instant.char? '-' cs)
    let (day, cs) ← Instant.digits? 2 2 (← Instant.char? '-' cs)
    guard ({ year := year, month := month, day := day : Instant.Day }.exists)
    let withTime := match cs with
      | 'T' :: cs | 't' :: cs | ' ' :: cs => time? cs
      | _ => none
    match withTime with
    | some cs => return (offset? cs).getD cs
    | none => return cs) <|> time? cs

def number? (cs : List Char) : Option (List Char) :=
  match cs with
  | '0' :: 'x' :: cs => based? 16 (fun c => (Json.hexValue c).isSome) cs
  | '0' :: 'o' :: cs => based? 8 (fun c => '0' ≤ c && c ≤ '7') cs
  | '0' :: 'b' :: cs => based? 2 (fun c => c = '0' || c = '1') cs
  | cs =>
    match (Decimal.sign cs).2 with
    | 'i' :: 'n' :: 'f' :: cs | 'n' :: 'a' :: 'n' :: cs => some cs
    | _ => decimal? cs

/-- Puts a value at a dotted key. The table that takes it must come from dotted keys; one that is
only passed on the way may also be implied by a header, or be the last of an array of tables. -/
def put : (path : List String) → Toml → Table → Option Table
  | [], _, _ => none
  | [key], v, t => if Keyed.contains t key then none else some (t ++ [(key, v)])
  | key :: next :: path, v, t =>
    match Keyed.get? t key with
    | none => (put (next :: path) v []).map fun inner => t ++ [(key, .table .dotted inner)]
    | some (.table .dotted inner) =>
      (put (next :: path) v inner).map fun inner => Keyed.insert t key (.table .dotted inner)
    | some (.table .implied inner) =>
      if path.isEmpty then none
      else (put (next :: path) v inner).map fun inner => Keyed.insert t key (.table .implied inner)
    | some (.tables items) =>
      if path.isEmpty then none
      else
        match items.getLast? with
        | none => none
        | some inner =>
          (put (next :: path) v inner).map fun inner =>
            Keyed.insert t key (.tables (items.dropLast ++ [inner]))
    | some _ => none

def single? (cs : List Char) : Option (Toml × List Char) :=
  match cs with
  | 't' :: 'r' :: 'u' :: 'e' :: cs => some (.boolean true, cs)
  | 'f' :: 'a' :: 'l' :: 's' :: 'e' :: cs => some (.boolean false, cs)
  | cs =>
    match text? cs with
    | some (text, cs) => some (.string (String.ofList text), cs)
    | none => (moment? cs <|> number? cs).map fun cs => (.scalar, cs)

mutual
def value? : (depth : Nat) → List Char → Option (Toml × List Char)
  | depth + 1, '[' :: cs =>
    match skipAll cs with
    | ']' :: cs => some (.array [], cs)
    | cs => (items? depth cs.length cs).map fun r => (.array r.1, r.2)
  | depth + 1, '{' :: cs =>
    match skipBlanks cs with
    | '}' :: cs => some (.table .braces [], cs)
    | cs => (members? depth cs.length [] cs).map fun r => (.table .braces r.1, r.2)
  | _, cs => single? cs

def items? : (depth most : Nat) → List Char → Option (List Toml × List Char)
  | _, 0, _ => none
  | depth, most + 1, cs => do
    let (v, cs) ← value? depth cs
    match skipAll cs with
    | ',' :: cs =>
      match skipAll cs with
      | ']' :: cs => some ([v], cs)
      | cs => (items? depth most cs).map fun r => (v :: r.1, r.2)
    | ']' :: cs => some ([v], cs)
    | _ => none

def members? : (depth most : Nat) → Table → List Char → Option (Table × List Char)
  | _, 0, _, _ => none
  | depth, most + 1, t, cs => do
    let (path, cs) ← key? cs
    let cs ← Instant.char? '=' cs
    let (v, cs) ← value? depth (skipBlanks cs)
    let t ← put path v t
    match skipBlanks cs with
    | ',' :: cs => members? depth most t cs
    | '}' :: cs => some (t, cs)
    | _ => none
end

/-- Changes the table at a path of headers. Missing tables on the way are implied, and of an array
of tables the last is meant. -/
def descend (f : Table → Option Table) : (path : List String) → Table → Option Table
  | [], t => f t
  | key :: path, t =>
    match Keyed.get? t key with
    | none => (descend f path []).map fun inner => t ++ [(key, .table .implied inner)]
    | some (.table .braces _) => none
    | some (.table origin inner) =>
      (descend f path inner).map fun inner => Keyed.insert t key (.table origin inner)
    | some (.tables items) =>
      match items.getLast? with
      | none => none
      | some inner =>
        (descend f path inner).map fun inner =>
          Keyed.insert t key (.tables (items.dropLast ++ [inner]))
    | some _ => none

def openTable (path : List String) (root : Table) : Option Table :=
  match path.getLast? with
  | none => none
  | some key =>
    descend (fun t =>
      match Keyed.get? t key with
      | none => some (t ++ [(key, .table .defined [])])
      | some (.table .implied inner) => some (Keyed.insert t key (.table .defined inner))
      | some _ => none) path.dropLast root

def openItem (path : List String) (root : Table) : Option Table :=
  match path.getLast? with
  | none => none
  | some key =>
    descend (fun t =>
      match Keyed.get? t key with
      | none => some (t ++ [(key, .tables [[]])])
      | some (.tables items) => some (Keyed.insert t key (.tables (items ++ [[]])))
      | some _ => none) path.dropLast root

def lines? : (most : Nat) → (current : List String) → Table → List Char → Option Table
  | 0, _, _, _ => none
  | most + 1, current, root, cs => do
    let (current, root, cs) ← match skipBlanks cs with
      | [] => some (current, root, [])
      | '[' :: '[' :: cs => do
        let (path, cs) ← key? cs
        let cs ← Text.strip? [']', ']'] cs
        pure (path, ← openItem path root, cs)
      | '[' :: cs => do
        let (path, cs) ← key? cs
        let cs ← Instant.char? ']' cs
        pure (path, ← openTable path root, cs)
      | c :: cs =>
        if c = '#' ∨ c = '\n' ∨ c = '\r' then some (current, root, c :: cs)
        else do
          let (path, cs) ← key? (c :: cs)
          let cs ← Instant.char? '=' cs
          let (v, cs) ← value? deepest (skipBlanks cs)
          pure (current, ← descend (put path v) current root, cs)
    match skipComment (skipBlanks cs) with
    | [] => return root
    | cs => lines? most current root (← lineEnd? cs)

def read? (text : List Char) : Option Table :=
  let text := match text with
    | '\uFEFF' :: cs => cs
    | cs => cs
  lines? (text.length + 1) [] [] text

end LiveTree.Toml
