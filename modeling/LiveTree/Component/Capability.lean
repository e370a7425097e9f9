import LiveTree.Journal
import LiveTree.Property

/-!
Capabilities: units of properties, methods and hooks that component types are composed of. Code of
the consumer appears as a handle of type `κ`; the methods that come with the library are told apart
from it, because they act on the tree itself.
-/
namespace LiveTree

inductive Service
  | log (level : Level)
  | localize
  | addMessages
  | addBinding
  | removeBinding
  deriving DecidableEq, Repr

inductive Method (κ : Type)
  | service (s : Service)
  | custom (k : κ)

structure Capability (κ : Type) where
  name : String
  properties : List Property := []
  methods : List (String × Method κ) := []
  created : Option κ := none
  ready : Option κ := none
  attached : Option κ := none
  detached : Option κ := none

namespace Capability
variable {κ : Type}

def errors : Capability κ where
  name := "ErrorModule"
  properties := [
    { Property.ofKind "rethrowError" .boolean with default := .bool false, reflect := false },
    { Property.ofKind "debugMode" .boolean with default := .bool true, reflect := false }]
  methods := [
    ("log", .service (.log .log)), ("warn", .service (.log .warn)),
    ("error", .service (.log .error))]

def localization : Capability κ where
  name := "LocalizationModule"
  properties := [
    { Property.ofKind "messages" .object with default := .object [], reflect := false },
    { Property.ofKind "locale" .string with default := .string "en", reflect := false },
    { Property.ofKind "localizeFormatFunction" .function with
      nullable := true, default := .null, reflect := false }]
  methods := [("localize", .service .localize), ("addMessages", .service .addMessages)]

def binding : Capability κ where
  name := "BindingModule"
  methods := [
    ("addPropertyBinding", .service .addBinding),
    ("removePropertyBinding", .service .removeBinding)]

def standard : List (Capability κ) := [errors, localization, binding]

end Capability
end LiveTree
