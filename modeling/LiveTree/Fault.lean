import LiveTree.Journal

/-!
What can be wrong with a component, its properties and its method calls: one constructor a cause,
with its English message, the key and the named arguments of its localized one, and its level.
-/
namespace LiveTree

inductive Fault
  | unknownKind (name : String)
  | valueNotAllowed (name actual expected : String)
  | valueKind (name actual expected : String)
  | argumentKind (method actual expected : String) (index : Nat)
  | argumentCount (method : String) (actual expected : Nat)
  | resultKind (method actual expected : String)
  | missingModules (element missing : String)
  | notAttached
  | badTemplate (element reason : String)
  | unknownMethod (element name : String)
  deriving DecidableEq, Repr

namespace Fault

def message : Fault → String
  | .unknownKind name => s!"'{name}' property is with undefined 'type' member!"
  | .valueNotAllowed name actual expected =>
    s!"Invalid '{name}' property value! Actual value: '{actual}', Expected value: '{expected}'!"
  | .valueKind name actual expected =>
    s!"Invalid '{name}' property value type! Actual type: '{actual}', Expected type: '{expected}'!"
  | .argumentKind method actual expected index =>
    s!"Invalid '{method}' method argument value type! Actual type: '{actual}', " ++
      s!"Expected type: '{expected}' for argument with index: '{index}'!"
  | .argumentCount method actual expected =>
    s!"Invalid '{method}' method arguments count! Actual arguments count: '{actual}', " ++
      s!"Expected at least: '{expected}' argument(s)!"
  | .resultKind method actual expected =>
    s!"Invalid '{method}' method return type! Actual type: '{actual}', Expected type: '{expected}'!"
  | .missingModules element missing => s!"{element}: Missing reference to '{missing}'."
  | .notAttached =>
    "Element does not exist in DOM! Please, add the element to the DOM, before invoking a method."
  | .badTemplate element reason => s!"{element}: invalid template: {reason}"
  | .unknownMethod element name => s!"{element}: unknown method '{name}'"

def key : Fault → String
  | .unknownKind .. => "propertyUnknownType"
  | .valueNotAllowed .. => "propertyInvalidValue"
  | .valueKind .. => "propertyInvalidValueType"
  | .argumentKind .. => "methodInvalidValueType"
  | .argumentCount .. => "methodInvalidArgumentsCount"
  | .resultKind .. => "methodInvalidReturnType"
  | .missingModules .. => "missingReference"
  | .notAttached => "elementNotInDOM"
  | .badTemplate .. => "invalidTemplate"
  | .unknownMethod .. => "methodUnknown"

def level : Fault → Level
  | .valueKind .. | .missingModules .. | .badTemplate .. => .error
  | _ => .log

def arguments : Fault → List (String × String)
  | .unknownKind name => [("name", name)]
  | .valueNotAllowed name actual expected =>
    [("name", name), ("actualValue", actual), ("value", expected)]
  | .valueKind name actual expected | .resultKind name actual expected =>
    [("name", name), ("actualType", actual), ("type", expected)]
  | .argumentKind method actual expected index =>
    [("name", method), ("actualType", actual), ("type", expected),
      ("argumentIndex", toString index)]
  | .argumentCount method actual expected =>
    [("name", method), ("actualArgumentsCount", toString actual),
      ("argumentsCount", toString expected)]
  | .missingModules element missing => [("elementType", element), ("files", missing)]
  | .notAttached => []
  | .badTemplate element reason =>
    [("elementType", element), ("property", "template"), ("reason", reason)]
  | .unknownMethod element name => [("elementType", element), ("name", name)]

end Fault
end LiveTree
