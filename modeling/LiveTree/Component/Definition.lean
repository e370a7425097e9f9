import LiveTree.Component.Capability
import LiveTree.Schema
import LiveTree.Signature

/-!
Component types. A `Declaration` is what a consumer writes down, with the types it extends; its
`Definition` is what follows from it: whatever is declared anew wins over the bases, and of the
bases the first one wins. `Definition.compose` adds capabilities, again the first owner of a name
keeping it.
-/
namespace LiveTree

structure Hooks (κ : Type) where
  created : Option κ := none
  ready : Option κ := none
  attached : Option κ := none
  detached : Option κ := none
  completed : Option κ := none
  changed : Option κ := none

def Hooks.or {κ : Type} (h base : Hooks κ) : Hooks κ where
  created := h.created <|> base.created
  ready := h.ready <|> base.ready
  attached := h.attached <|> base.attached
  detached := h.detached <|> base.detached
  completed := h.completed <|> base.completed
  changed := h.changed <|> base.changed

structure Subscription where
  target : Option String
  event : String
  handler : String
  deriving DecidableEq, Repr

/-- A subscription as it is declared: `button.click` is the event `click` at the node `button`. -/
def Subscription.ofDeclared (event handler : String) : Subscription :=
  match Text.cutAt '.' event.toList with
  | some (target, event) =>
    { target := some (String.ofList target), event := String.ofList event, handler := handler }
  | none => { target := none, event := event, handler := handler }

structure MethodEntry (κ : Type) where
  /-- The capability that provides the method; none if it is the type's own. -/
  owner : Option String
  method : Method κ

structure Definition (κ : Type) where
  tag : String
  schema : Schema
  template : Option String
  ownMethods : Keyed κ
  methods : Keyed (MethodEntry κ)
  signatures : Keyed Signature
  subscriptions : List Subscription
  capabilities : List (Capability κ)
  requires : List String
  hooks : Hooks κ

structure Declaration (κ : Type) where
  tag : String
  bases : List (Definition κ) := []
  properties : List Property := []
  template : Option String := none
  methods : List (String × κ) := []
  signatures : List (String × String) := []
  subscriptions : List (String × String) := []
  capabilities : List (Capability κ) := []
  requires : List String := []
  hooks : Hooks κ := {}

namespace Definition
variable {κ : Type}

def has (d : Definition κ) (capability : String) : Bool :=
  d.capabilities.any fun c => c.name == capability

def method? (d : Definition κ) (name : String) : Option (Method κ) :=
  (d.methods.get? name).map MethodEntry.method

def ownTable (methods : Keyed κ) : Keyed (MethodEntry κ) :=
  methods.map fun m => (m.1, { owner := none, method := .custom m.2 })

def addMethods (table : Keyed (MethodEntry κ)) (c : Capability κ) : Keyed (MethodEntry κ) :=
  c.methods.foldl (fun acc m => acc.insertNew m.1 { owner := some c.name, method := m.2 }) table

def extend (d base : Definition κ) : Definition κ :=
  { d with
    schema := d.schema.extend base.schema
    template := d.template <|> base.template
    ownMethods := base.ownMethods.foldl (fun acc m => acc.insertNew m.1 m.2) d.ownMethods
    signatures := base.signatures.foldl (fun acc m => acc.insertNew m.1 m.2) d.signatures
    subscriptions :=
      base.subscriptions.filter (!d.subscriptions.contains ·) ++ d.subscriptions
    capabilities := base.capabilities ++ d.capabilities
    requires := base.requires.foldl
      (fun acc name => if acc.contains name then acc else acc ++ [name]) d.requires
    hooks := d.hooks.or base.hooks }

def add? (d : Definition κ) (c : Capability κ) : Option (Definition κ) :=
  if d.has c.name then none
  else some { d with
    schema := c.properties.foldl Schema.declareNew d.schema
    methods := addMethods d.methods c
    capabilities := d.capabilities ++ [c] }

def compose (d : Definition κ) (defaults : List (Capability κ)) : Definition κ :=
  let d := (defaults ++ d.capabilities).foldl (fun acc c => (acc.add? c).getD acc)
    { d with capabilities := [] }
  { d with methods := d.capabilities.foldl addMethods (ownTable d.ownMethods) }

theorem tag_add? {d e : Definition κ} {c : Capability κ} (added : d.add? c = some e) :
    e.tag = d.tag := by
  unfold add? at added
  split at added
  · cases added
  · cases added
    rfl

@[simp] theorem tag_compose (d : Definition κ) (defaults : List (Capability κ)) :
    (d.compose defaults).tag = d.tag := by
  have fold (cs : List (Capability κ)) (e : Definition κ) :
      (cs.foldl (fun acc c => (acc.add? c).getD acc) e).tag = e.tag := by
    induction cs generalizing e with
    | nil => rfl
    | cons c rest ih =>
      rw [List.foldl_cons, ih]
      cases added : e.add? c with
      | none => rfl
      | some f => exact tag_add? added
  exact fold _ _

end Definition

def Declaration.define {κ : Type} (d : Declaration κ) : Definition κ :=
  let own : Definition κ := {
    tag := d.tag.toLower
    schema := d.properties.foldl Schema.declare {}
    template := d.template
    ownMethods := Keyed.ofList d.methods
    methods := []
    signatures := Keyed.ofList <| d.signatures.filterMap fun s =>
      (Signature.read? s.2).map fun signature => (s.1, signature)
    subscriptions := d.subscriptions.map fun s => .ofDeclared s.1 s.2
    capabilities := d.capabilities
    requires := d.requires
    hooks := d.hooks }
  let whole := d.bases.foldl Definition.extend own
  { whole with methods := Definition.ownTable whole.ownMethods }

end LiveTree
