import LiveTree.Value

/-!
Message catalogs: texts by locale and key, with places in double braces for named arguments.
-/
namespace LiveTree

def placeholder (name : String) : List Char := '{' :: '{' :: name.toList ++ ['}', '}']

/-- Puts the arguments into their places, one argument after the other: a later argument is also
looked for in what an earlier one brought in. -/
def interpolate (template : String) (arguments : List (String × String)) : String :=
  String.ofList <| arguments.foldl
    (fun text a => Text.replace (placeholder a.1) a.2.toList text) template.toList

structure Catalog where
  locale : String
  fallback : String
  tables : Keyed (Keyed String)

namespace Catalog

def empty (locale : String) : Catalog := { locale := locale, fallback := locale, tables := [] }

def add (c : Catalog) (locale : String) (messages : List (String × String)) : Catalog :=
  let table := (c.tables.get? locale).getD []
  let table := messages.foldl (fun t m => Keyed.insert t m.1 m.2) table
  { c with tables := c.tables.insert locale table }

def lookup? (c : Catalog) (locale key : String) : Option String :=
  (c.tables.get? locale).bind (·.get? key)

def localize? (c : Catalog) (key : String) (arguments : List (String × String)) : Option String :=
  (c.lookup? c.locale key <|> c.lookup? c.fallback key).map (interpolate · arguments)

def toValue (c : Catalog) : Value :=
  .object <| (c.tables.mergeSort fun a b => decide (a.1 ≤ b.1)).map fun table =>
    (table.1, .object (table.2.map fun m => (m.1, .string m.2)))

def place (name : String) : String := String.ofList (placeholder name)

def englishMessages : List (String × String) := [
  ("propertyUnknownType", "'" ++ place "name" ++ "' property is with undefined 'type' member!"),
  ("propertyInvalidValue", "Invalid '" ++ place "name" ++ "' property value! Actual value: '" ++
    place "actualValue" ++ "', Expected value: '" ++ place "value" ++ "'!"),
  ("propertyInvalidValueType", "Invalid '" ++ place "name" ++
    "' property value type! Actual type: '" ++ place "actualType" ++ "', Expected type: '" ++
    place "type" ++ "'!"),
  ("methodInvalidValueType", "Invalid '" ++ place "name" ++
    "' method argument value type! Actual type: '" ++ place "actualType" ++
    "', Expected type: '" ++ place "type" ++ "' for argument with index: '" ++
    place "argumentIndex" ++ "'!"),
  ("methodInvalidArgumentsCount", "Invalid '" ++ place "name" ++
    "' method arguments count! Actual arguments count: '" ++ place "actualArgumentsCount" ++
    "', Expected at least: '" ++ place "argumentsCount" ++ "' argument(s)!"),
  ("methodInvalidReturnType", "Invalid '" ++ place "name" ++
    "' method return type! Actual type: '" ++ place "actualType" ++ "', Expected type: '" ++
    place "type" ++ "'!"),
  ("elementNotInDOM", "Element does not exist in DOM! Please, add the element to the DOM, " ++
    "before invoking a method."),
  ("moduleUndefined", "Module is undefined."),
  ("missingReference", place "elementType" ++ ": Missing reference to '" ++ place "files" ++ "'."),
  ("invalidTemplate", place "elementType" ++ ": '" ++ place "property" ++
    "' property accepts a string that must be valid template markup."),
  ("methodUnknown", place "elementType" ++ ": unknown method '" ++ place "name" ++ "'.")]

def english : Catalog := (empty "en").add "en" englishMessages

end Catalog
end LiveTree
