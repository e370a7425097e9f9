import LiveTree.Proofs.Attributes.Connection
import LiveTree.Proofs.Guards

/-! Attributes before or after the first connection. The first connection takes the attributes of the
host node over, and from then on each is taken over when it is set. For a component on its own both
ways come to the same values. -/
namespace LiveTree
variable {κ σ : Type} {env : Environment κ σ}

namespace Script

def dress (x : NodeId) : List (String × String) → Script κ σ Unit
  | [] => return ()
  | a :: rest => do
    let _ ← request (.setAttribute x a.1 a.2)
    dress x rest

def attributesFirst (tag : String) (attributes : List (String × String)) (parent : NodeId) :
    Script κ σ NodeId := do
  let x ← request (.createElement tag)
  dress x attributes
  request (.appendChild parent x)
  return x

def connectionFirst (tag : String) (attributes : List (String × String)) (parent : NodeId) :
    Script κ σ NodeId := do
  let x ← request (.createElement tag)
  request (.appendChild parent x)
  dress x attributes
  return x

section Dress
variable {n : Nat} {d : Definition κ} {codec : Codec} {id : ComponentId} {x : NodeId} {s : Scene κ}
  {values : String → Option Value}

/-- Attributes of a component that is configured come to its properties. -/
theorem gives_dress_running (passive : d.Passive) (attributes : List (String × String))
    (running : s.Running d codec id x values) :
    (dress x attributes).Gives env (n + 2) s fun _ t =>
      t.Running d codec id x (attributes.foldl (d.schema.fed codec) values) := by
  induction attributes generalizing s values with
  | nil => exact .pure running
  | cons a rest ih =>
    obtain ⟨stage, before, configured, lone⟩ := running
    refine .bind (.request (Act.gives_setAttribute passive configured lone a.1 a.2)) fun _ t lone => ?_
    exact ih ⟨stage, _, configured, lone⟩

/-- Those of a component that was never connected stay at its node. -/
theorem gives_dress_created {attributes : Keyed String} (added : List (String × String))
    (lone : s.Lone d codec id x (.calm .created values attributes)) :
    (dress x added).Gives env (n + 2) s fun _ t => t.document.tree = s.document.tree ∧
      t.loading = s.loading ∧ t.Lone d codec id x
        (.calm .created values (added.foldl (fun acc a => acc.insert a.1 a.2) attributes)) := by
  induction added generalizing s attributes with
  | nil => exact .pure ⟨rfl, rfl, lone⟩
  | cons a rest ih =>
    refine .bind (.request (Act.gives_setAttribute_early rfl lone a.1 a.2)) ?_
    rintro _ _ rfl
    refine (ih (lone.setAttribute a.1 a.2)).mono ?_
    rintro _ t ⟨tree, loading, lone⟩
    exact ⟨tree.trans (s.document.tree_setAttribute x a.1 a.2), loading, lone⟩

end Dress
end Script

namespace Environment.Reachable
variable {w : World κ σ}

/-- No template is being expanded. -/
theorem unowned (reached : env.Reachable w) : w.scene.templateOwner = none := reached.idle.template

end Environment.Reachable

/-- What comes after an element has been made is played from where it has been made. -/
theorem Script.play_createElement {α : Type} {fuel : Nat} {tag : String} {w w' : World κ σ} {x : NodeId}
    (made : (Act.createElement tag).run (env.answer fuel) w = some (x, w')) (rest : NodeId → Script κ σ α) :
    env.play fuel (Script.request (.createElement tag) >>= rest) w = env.play fuel (rest x) w' := by
  have asked : (Script.request (.createElement tag)).run (env.answer fuel) w = some (x, w') := by
    simp only [request, run, Request.act, made]
  exact (run_bind (env.answer fuel) _ rest w).trans (by rw [asked]; rfl)

section Both
variable {n : Nat} {d : Definition κ} {codec : Codec} {id : ComponentId} {x : NodeId} {s : Scene κ}
  {values : String → Option Value}

def Scene.Having (d : Definition κ) (codec : Codec) (id : ComponentId) (x : NodeId)
    (values : String → Option Value) (s : Scene κ) : Prop :=
  ∃ stage attributes, s.Lone d codec id x (.calm stage values attributes)

theorem Scene.Having.held? (having : s.Having d codec id x values) (name : String) :
    s.held? id name = (values name).map fun v => (v, false) := by
  obtain ⟨stage, attributes, lone⟩ := having
  obtain ⟨c, found, own⟩ := lone.component
  rw [Scene.held?, Scene.slot?, found, Option.bind_some, own.slots]
  rfl

theorem Scene.Having.host (having : s.Having d codec id x values) : s.componentAt? x = some id := by
  obtain ⟨stage, attributes, lone⟩ := having
  exact lone.host

def Scene.dressed (s : Scene κ) (schema : Schema) (attributes : List (String × String)) (parent x : NodeId) :
    String → Option Value :=
  if s.Joins parent x then attributes.foldl (schema.fed s.codec) schema.defaults else schema.defaults

variable (passive : d.Passive) (nameless : d.schema.Nameless) {attributes : List (String × String)}
  (distinct : (Keyed.names attributes).Nodup) (others : contextAttribute ∉ Keyed.names attributes)
  (lone : s.Lone d s.codec id x (.calm .created d.schema.defaults [])) (top : s.document.parent? x = none)
  (parent : NodeId)
include passive nameless distinct others lone top

theorem Script.gives_attributesFirst (env : Environment κ σ) :
    (do
      Script.dress x attributes
      Script.request (.appendChild parent x)
      return x : Script κ σ NodeId).Gives env (n + 2) s fun y t =>
        y = x ∧ t.Having d s.codec id x (s.dressed d.schema attributes parent x) := by
  refine .bind (gives_dress_created attributes lone) ?_
  rintro _ t ⟨tree, loading, lone⟩
  have all : attributes.foldl (fun acc a => Keyed.insert acc a.1 a.2) [] = attributes :=
    Keyed.ofList_of_nodup distinct
  have free : Keyed.get? attributes contextAttribute = none :=
    Option.not_isSome_iff_eq_none.mp fun there => others ((Keyed.isSome_get? _ _).mp there)
  rw [all] at lone
  refine .bind (.request (Act.gives_appendChild passive nameless distinct free
    ((Document.parent?_of_tree tree x).trans top) parent lone)) ?_
  rintro _ u ⟨joined, apart⟩
  refine .pure ⟨rfl, ?_⟩
  rw [Scene.joins_of_tree tree loading] at joined apart
  unfold Scene.dressed
  split
  · next joins =>
    obtain ⟨stage, attributes, -, lone⟩ := joined joins
    exact ⟨stage, attributes, lone⟩
  · next stays => exact ⟨_, _, apart stays⟩

omit distinct others in
theorem Script.gives_connectionFirst (env : Environment κ σ) :
    (do
      Script.request (.appendChild parent x)
      Script.dress x attributes
      return x : Script κ σ NodeId).Gives env (n + 2) s fun y t =>
        y = x ∧ t.Having d s.codec id x (s.dressed d.schema attributes parent x) := by
  have none : (Keyed.names ([] : Keyed String)).Nodup := List.nodup_nil
  refine .bind (.request (Act.gives_appendChild passive nameless none rfl top parent lone)) ?_
  rintro _ t ⟨joined, apart⟩
  unfold Scene.dressed
  split
  · next joins =>
    refine .bind (gives_dress_running passive attributes (joined joins)) ?_
    rintro _ u ⟨stage, attributes, -, lone⟩
    exact .pure ⟨rfl, stage, attributes, lone⟩
  · next stays =>
    refine .bind (gives_dress_created attributes (apart stays)) ?_
    rintro _ u ⟨-, -, lone⟩
    exact .pure ⟨rfl, _, _, lone⟩

end Both

/-- Whatever has been done before, a new component of a type without template and without code of the
consumer comes to the same values whether its attributes are set before it is connected or after it.
The type shows no property in the attribute that names a context, from which fields of the context
would come as well. -/
theorem attributes_first_or_last (env : Environment κ σ) {w : World κ σ} (reached : env.Reachable w)
    {tag : String} {d : Definition κ} (registered : w.scene.definition? tag = some d)
    (passive : d.Passive) (nameless : d.schema.Nameless) {attributes : List (String × String)}
    (distinct : (Keyed.names attributes).Nodup) (others : contextAttribute ∉ Keyed.names attributes)
    (parent : NodeId) (fuel : Nat) : ∃ x id v u,
      env.play (fuel + 2) (Script.attributesFirst tag attributes parent) w = some (x, v) ∧
      env.play (fuel + 2) (Script.connectionFirst tag attributes parent) w = some (x, u) ∧
      v.scene.componentAt? x = some id ∧ u.scene.componentAt? x = some id ∧
      ∀ name, v.scene.held? id name = u.scene.held? id name := by
  obtain ⟨x, w', made, rfl, document, lone⟩ :=
    Act.gives_createElement (env.answer (fuel + 2)) passive registered reached.placed reached.unowned w.store
  have top : w'.scene.document.parent? ⟨w.scene.document.size⟩ = none := by
    rw [document, Document.createElement, Document.parent?_add, Document.parent?_of_new]
  have codec : w'.scene.codec = w.scene.codec := lone.codec
  rw [← codec] at lone
  obtain ⟨y, v, first, rfl, here⟩ := Script.gives_attributesFirst (n := fuel) passive nameless distinct
    others lone top parent env w'.store
  obtain ⟨y, u, last, rfl, there⟩ := Script.gives_connectionFirst (n := fuel) passive nameless lone
    top parent env w'.store
  refine ⟨_, _, v, u, ?_, ?_, here.host, there.host, fun name => ?_⟩
  · exact (Script.play_createElement made _).trans first
  · exact (Script.play_createElement made _).trans last
  · rw [here.held?, there.held?]

def titling : Script Empty Unit Unit := do
  let _ ← Script.request (.register (Declaration.define {
    tag := "x-a"
    properties := [.ofKind "name" .string, .ofKind "on" .boolean] }))

theorem attributes_first_or_last_titling : ∃ w d, silent.Reachable w ∧
    w.scene.definition? "x-a" = some d ∧ d.Passive ∧ d.schema.Nameless ∧ ∃ x id v u,
      silent.play 4 (Script.attributesFirst "x-a" [("name", "Ada"), ("on", "false")] Document.root) w =
        some (x, v) ∧
      silent.play 4 (Script.connectionFirst "x-a" [("name", "Ada"), ("on", "false")] Document.root) w =
        some (x, u) ∧
      v.scene.componentAt? x = some id ∧ u.scene.componentAt? x = some id ∧
      ∀ name, v.scene.held? id name = u.scene.held? id name := by
  have played : ∃ r ∈ silent.play 20 titling ⟨.ofConfig {} none, ()⟩, ∃ d ∈ r.2.scene.definition? "x-a",
      d.template = none ∧ d.subscriptions = [] ∧ (∀ p ∈ d.schema.toList, p.validator = none ∧ p.observer = none) ∧
      ∀ p ∈ d.schema.toList, p.reflect = true → p.reflectDefault = true →
        p.attributeName ≠ contextAttribute := by decide +kernel
  obtain ⟨⟨⟨⟩, w⟩, named, d, registered, template, subscriptions, plain, nameless⟩ := played
  have reached : silent.Reachable w := (Environment.Reachable.start {} none ()).play titling named
  have passive : d.Passive := .of_isEmpty template subscriptions plain
  exact ⟨w, d, reached, registered, passive, nameless,
    attributes_first_or_last silent reached registered passive nameless (by decide) (by decide) _ 2⟩

def christening : Script Empty Unit Unit := do
  let c ← Script.request (.createContext [("name", .string "Ada")])
  Script.request (.registerContext "c" c)
  let _ ← Script.request (.register (Declaration.define {
    tag := "x-a"
    properties := [{ Property.ofKind "dataContext" .string with default := .string "c", reflectDefault := true },
      .ofKind "name" .string] }))

/-- A context is bound at the first connection, and only what stands at the host node by then asks for
its fields. -/
theorem attributes_not_first_or_last : ∃ w d x v u, silent.Reachable w ∧
    w.scene.definition? "x-a" = some d ∧ d.Passive ∧
    silent.play 20 (Script.attributesFirst "x-a" [("name", "\x7b\x7bname\x7d\x7d")] Document.root) w =
      some (x, v) ∧
    silent.play 20 (Script.connectionFirst "x-a" [("name", "\x7b\x7bname\x7d\x7d")] Document.root) w =
      some (x, u) ∧
    v.scene.componentAt? x = some ⟨0⟩ ∧ u.scene.componentAt? x = some ⟨0⟩ ∧
    v.scene.held? ⟨0⟩ "name" ≠ u.scene.held? ⟨0⟩ "name" := by
  have played : ∃ r ∈ silent.play 20 christening ⟨.ofConfig {} none, ()⟩,
      (∃ d ∈ r.2.scene.definition? "x-a", d.template = none ∧ d.subscriptions = [] ∧
        ∀ p ∈ d.schema.toList, p.validator = none ∧ p.observer = none) ∧
      ∃ v ∈ silent.play 20 (Script.attributesFirst "x-a" [("name", "\x7b\x7bname\x7d\x7d")] Document.root) r.2,
      ∃ u ∈ silent.play 20 (Script.connectionFirst "x-a" [("name", "\x7b\x7bname\x7d\x7d")] Document.root) r.2,
        v.1 = ⟨1⟩ ∧ u.1 = ⟨1⟩ ∧ v.2.scene.componentAt? ⟨1⟩ = some ⟨0⟩ ∧ u.2.scene.componentAt? ⟨1⟩ = some ⟨0⟩ ∧
        ((v.2.scene.held? ⟨0⟩ "name").map fun h => h.1.display) = some "Ada" ∧
        ((u.2.scene.held? ⟨0⟩ "name").map fun h => h.1.isUndefined) = some true := by decide +kernel
  obtain ⟨⟨⟨⟩, w⟩, named, ⟨d, registered, template, subscriptions, plain⟩, ⟨x, v⟩, first, ⟨y, u⟩, last, rfl, rfl,
    here, there, fed, bare⟩ := played
  have reached : silent.Reachable w := (Environment.Reachable.start {} none ()).play christening named
  refine ⟨w, d, ⟨1⟩, v, u, reached, registered, .of_isEmpty template subscriptions plain, first, last, here, there,
    fun same => ?_⟩
  rw [← same] at bare
  obtain ⟨h, held, nothing⟩ := Option.map_eq_some_iff.mp bare
  rw [held] at fed
  obtain ⟨value, busy⟩ := h
  cases value with
  | undefined =>
    have fed : Value.undefined.display = "Ada" := Option.some.inj fed
    exact absurd fed (by decide)
  | _ => cases nothing

end LiveTree
