/-!
Markup: the tree that a template denotes, elements with attributes and texts between them.
-/
namespace LiveTree

inductive Markup
  | element (tag : String) (attributes : List (String × String)) (children : List Markup)
  | text (text : String)

namespace Markup

def tag? : Markup → Option String
  | .element tag _ _ => some tag
  | .text _ => none

def voidTags : List String := [
  "area", "base", "br", "col", "embed", "hr", "img", "input", "link", "meta", "source", "track",
  "wbr"]

end Markup
end LiveTree
