import LiveTree.Markup
import LiveTree.Markup.Reference
import LiveTree.Text.Blank
import LiveTree.Text.Search

/-!
Reading templates: nested elements, attributes with quoted, bare or no values, elements without a
closing tag, comments and character references. Blank texts are dropped.
-/
namespace LiveTree.Markup
namespace Reader

/-- How a part of a template was read: found, not there at all, or ended by the closing tag of
another element. The rest of the template is what lies behind. -/
inductive Parsed (α : Type)
  | found (a : α) (rest : List Char)
  | absent
  | misclosed (rest : List Char)

def Parsed.map {α β : Type} (f : α → β) : Parsed α → Parsed β
  | .found a rest => .found (f a) rest
  | .absent => .absent
  | .misclosed rest => .misclosed rest

def isTagPart (c : Char) : Bool := c.isAlphanum || c == '-' || c == '_' || c == ':'

def tag? : List Char → Option (List Char × List Char)
  | c :: cs => if c.isAlpha then some (c :: cs.takeWhile isTagPart, cs.dropWhile isTagPart) else none
  | [] => none

def isNamePart (c : Char) : Bool :=
  !Text.isBlank c && c != '=' && c != '>' && c != '/' && c != '"' && c != '\'' && c != '<'

def isBarePart (c : Char) : Bool := !Text.isBlank c && c != '>'

def bare? (cs : List Char) : Option (List Char × List Char) :=
  let value := cs.takeWhile isBarePart
  if value.isEmpty then none else some (value, cs.dropWhile isBarePart)

def value? (cs : List Char) : Option (List Char × List Char) :=
  match cs with
  | '"' :: rest => Text.cutAt '"' rest <|> bare? cs
  | '\'' :: rest => Text.cutAt '\'' rest <|> bare? cs
  | cs => bare? cs

def assigned? (cs : List Char) : Option (List Char × List Char) :=
  match Text.skipSpaces cs with
  | '=' :: cs => value? (Text.skipSpaces cs)
  | _ => none

def attribute? (cs : List Char) : Option ((String × String) × List Char) :=
  let rest := Text.skipSpaces cs
  let name := rest.takeWhile isNamePart
  if rest.length = cs.length ∨ name.isEmpty then none
  else
    let rest := rest.drop name.length
    let key := (String.ofList name).toLower
    match assigned? rest with
    | some (value, rest) => some ((key, decode value), rest)
    | none => some ((key, ""), rest)

def attributes : (most : Nat) → List Char → List (String × String) × List Char
  | 0, cs => ([], cs)
  | most + 1, cs =>
    match attribute? cs with
    | some (a, rest) =>
      let (as, rest) := attributes most rest
      (a :: as, rest)
    | none => ([], cs)

def comment? (cs : List Char) : Option (List Char) := do
  let cs ← Text.strip? "<!--".toList cs
  return (← Text.cutAtText "-->".toList cs).2

def text? (cs : List Char) : Option (List Markup × List Char) :=
  let text := cs.takeWhile (· ≠ '<')
  if text.isEmpty then none
  else
    let node := if (Text.trim text).isEmpty then [] else [.text (decode text)]
    some (node, cs.drop text.length)

mutual
def nodes : (most : Nat) → List Char → Parsed (List Markup)
  | 0, cs => .found [] cs
  | most + 1, cs =>
    match comment? cs with
    | some rest => nodes most rest
    | none =>
      match element most cs with
      | .found e rest => (nodes most rest).map (e :: ·)
      | .misclosed rest => .misclosed rest
      | .absent =>
        match text? cs with
        | some (node, rest) => (nodes most rest).map (node ++ ·)
        | none => .found [] cs

def element : (most : Nat) → List Char → Parsed Markup
  | most + 1, '<' :: cs =>
    match tag? cs with
    | none => .absent
    | some (name, cs) =>
      let tag := (String.ofList name).toLower
      let (as, cs) := attributes cs.length cs
      match Text.skipSpaces cs with
      | '/' :: '>' :: rest => .found (.element tag as []) rest
      | '>' :: rest =>
        if voidTags.contains tag then .found (.element tag as []) rest
        else
          match nodes most rest with
          | .misclosed rest => .misclosed rest
          | .absent => .absent
          | .found children rest =>
            match (Text.strip? "</".toList rest).bind tag? with
            | none => .absent
            | some (close, rest) =>
              if (String.ofList close).toLower ≠ tag then .misclosed rest
              else match Text.skipSpaces rest with
                | '>' :: rest => .found (.element tag as children) rest
                | _ => .absent
      | _ => .absent
  | _, _ => .absent
end

def near (rest : List Char) : String := "near \"" ++ String.ofList (rest.take 20) ++ "\""

end Reader

def read (template : String) : Except String (List Markup) :=
  let cs := Text.trim template.toList
  match Reader.nodes (cs.length + 1) cs with
  | .found ms [] => .ok ms
  | .found _ rest => .error ("Eof " ++ Reader.near rest)
  | .misclosed rest => .error ("in matching closing tag " ++ Reader.near rest)
  | .absent => .error ("Eof " ++ Reader.near cs)

end LiveTree.Markup
