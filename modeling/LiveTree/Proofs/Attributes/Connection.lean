import LiveTree.Proofs.Attributes.Acts
import LiveTree.Proofs.Readiness

/-! The first connection of a component on its own. Once its attributes have been taken over, what is
done until it is attached leaves its values alone, for there is nothing to expand, nobody to wait for
and nobody to be told. -/
namespace LiveTree
variable {κ σ α : Type} {env : Environment κ σ} {n : Nat} {d : Definition κ} {codec : Codec}
  {id : ComponentId} {x : NodeId} {o : Outlook} {s : Scene κ} {stage : Stage}
  {values : String → Option Value} {attributes : Keyed String}

def Scene.Running (d : Definition κ) (codec : Codec) (id : ComponentId) (x : NodeId)
    (values : String → Option Value) (s : Scene κ) : Prop :=
  ∃ stage attributes, stage.isConfigured = true ∧ s.Lone d codec id x (.calm stage values attributes)

theorem Component.Lone.sites {c : Component κ} (own : c.Lone d x o) :
    (c.bindings.map BindingTree.toList).getD [] = [] ∨
      (c.bindings.map BindingTree.toList).getD [] = [(0, { node := x })] := by
  cases tree : c.bindings with
  | none => exact .inl rfl
  | some t =>
    rw [own.bindings t tree]
    exact .inr rfl

namespace Act
open Returns

section Lone
variable {answer : (c : Call κ) → World κ σ → Option (c.Answer × World κ σ)} (passive : d.Passive)

include passive in
theorem gives_tellParts (m : Moment) (lone : s.Lone d codec id x o) :
    (Act.tellParts id m).Gives answer s fun _ t => t.Lone d codec id x o ∧ t.document = s.document := by
  obtain ⟨c, found, own⟩ := lone.component
  refine .withComponent found (.bind (R := fun _ t => t.Lone d codec id x o ∧ t.document = s.document)
    (.update ⟨?_, rfl⟩) ?_)
  · refine lone.modify (fun c own => { own with parts := fun p inside => ?_ }) rfl
    obtain ⟨q, there, rfl⟩ := List.mem_map.mp inside
    cases m <;> exact own.parts q there
  · refine fun _ t kept => .each c.parts (fun p inside t kept => ?_) kept
    rw [passive.capabilities _ (own.parts p inside) m]
    exact .pure kept

include passive in
theorem returns_tellParts (m : Moment) :
    (Act.tellParts id m).Returns answer fun s => s.Lone d codec id x o :=
  fun _ lone => (gives_tellParts passive m lone).mono fun _ _ kept => kept.1

include passive in
theorem gives_runHook (name : String) {pick : Hooks κ → Option κ} (unset : pick {} = none)
    (lone : s.Lone d codec id x o) : (Act.runHook id name pick).Gives answer s fun _ t => t = s := by
  obtain ⟨c, found, own⟩ := lone.component
  refine .withComponent found ?_
  rw [own.definition, passive.hooks, unset]
  exact .pure rfl

include passive in
theorem returns_runHook (name : String) {pick : Hooks κ → Option κ} (unset : pick {} = none) :
    (Act.runHook id name pick).Returns answer fun s => s.Lone d codec id x o :=
  fun _ lone => (gives_runHook passive name unset lone).mono fun _ _ same => same ▸ lone

theorem returns_pushTexts :
    (Act.pushTexts id).Returns answer fun s => s.Lone d codec id x o := by
  refine returns_withComponent fun c own => ?_
  refine composes.bind (returns_modify fun _ own => { own with }) fun _ => composes.sceneBind fun s => ?_
  rcases own.sites with same | same <;> rw [same]
  · exact composes.bind (composes.pure ()) fun _ => composes.pure ()
  · exact composes.bind (composes.pure ()) fun _ => composes.pure ()

theorem returns_pushFirst :
    (Act.pushFirst id).Returns answer fun s => s.Lone d codec id x o :=
  composes.bind (returns_modify fun _ own => { own with }) fun _ =>
    composes.bind returns_pushTexts fun _ => returns_pushBound

include passive in
theorem returns_wire : (Act.wire id).Returns answer fun s => s.Lone d codec id x o := by
  refine returns_withComponent fun c own => composes.ite ?_ (composes.pure ())
  have none : subscriptionsOf c = [] := by
    unfold subscriptionsOf
    dsimp only
    rw [own.definition, passive.subscriptions]
    rcases own.sites with empty | host
    · rw [empty]; rfl
    · rw [host]; rfl
  rw [none]
  exact composes.bind (composes.pure []) fun _ => returns_modify fun c own => { own with }

/-- Nothing waits for the component. -/
theorem returns_tellWaiting : (Act.tellWaiting id).Returns answer fun s => s.Lone d codec id x o := by
  refine composes.bind (returns_withComponent fun _ own => ?_) fun _ =>
    returns_withComponent fun _ own => ?_
  · rw [own.whenReady]
    exact composes.bind (returns_modify fun _ own => { own with whenReady := rfl }) fun _ =>
      composes.pure ()
  · rw [own.waiters]
    exact composes.bind (returns_modify fun c own => { own with waiters := rfl }) fun _ =>
      composes.pure ()

theorem returns_noteMissing :
    (Act.noteMissing id d).Returns (env.answer (n + 1)) fun s => s.Lone d codec id x o := by
  unfold Act.noteMissing
  split
  · exact composes.pure ()
  · refine returns_logging (Logging.composes.bind (.report _ _) fun _ => Logging.composes.pure _)

end Lone

section Running
variable {answer : (c : Call κ) → World κ σ → Option (c.Answer × World κ σ)}

theorem returns_running {m : Act κ α}
    (spares : ∀ o, m.Returns answer fun s => s.Lone d codec id x o) :
    m.Returns answer (Scene.Running d codec id x values) := by
  rintro s ⟨stage, attributes, configured, lone⟩
  exact (spares _ s lone).mono fun _ _ lone => ⟨stage, attributes, configured, lone⟩

theorem returns_setStage {stage : Stage} (configured : stage.isConfigured = true) :
    (Act.setStage id stage).Returns answer (Scene.Running d codec id x values) := by
  rintro s ⟨_, attributes, -, lone⟩
  exact .update ⟨stage, attributes, configured, lone.modify (fun c own => { own with stage := rfl }) rfl⟩

variable (passive : d.Passive)
include passive

theorem returns_enter : (Act.enter id).Returns answer (Scene.Running d codec id x values) :=
  composes.bind (returns_setStage rfl) fun _ =>
    composes.bind (returns_running fun _ => returns_tellParts passive .attached) fun _ =>
      composes.bind (returns_running fun _ => returns_runHook passive "attached" rfl) fun _ =>
        returns_running fun _ => returns_wire passive

/-- A component on its own becomes ready with the values that it has. -/
theorem returns_complete :
    (Act.complete id).Returns (env.answer (n + 1)) (Scene.Running d codec id x values) := by
  refine .withComponent (C := fun c => c.definition = d) ?_ fun c own => composes.ite ?_ (composes.pure ())
  · rintro s ⟨stage, attributes, -, lone⟩
    obtain ⟨c, found, own⟩ := lone.component
    exact ⟨c, found, own.definition⟩
  rintro s running
  have none : s.owners id = [] := by
    obtain ⟨stage, attributes, -, lone⟩ := running
    obtain ⟨c, found, own⟩ := lone.component
    unfold Scene.owners
    cases s.components.size with
    | zero => rfl
    | succ most => rw [Scene.ownersUpTo, found, Option.bind_some, own.owner]
  refine .scene ?_
  rw [none, own]
  refine (?_ : Act.Returns (env.answer (n + 1)) (Scene.Running d codec id x values) _) s running
  refine composes.bind (returns_running fun _ => returns_noteMissing) fun _ => ?_
  refine composes.bind (composes.pure ()) fun _ => ?_
  refine composes.bind (returns_running fun _ => returns_pushFirst) fun _ => ?_
  refine composes.bind (returns_setStage rfl) fun _ => ?_
  refine composes.bind (returns_running fun _ => returns_tellParts passive .ready) fun _ => ?_
  refine composes.bind (returns_running fun _ => returns_runHook passive "ready" rfl) fun _ => ?_
  refine composes.bind (returns_enter passive) fun _ => ?_
  refine composes.bind (returns_running fun _ => returns_modify fun _ own => { own with }) fun _ => ?_
  refine composes.bind (returns_running fun _ => returns_runHook passive "completed" rfl) fun _ => ?_
  exact returns_running fun _ => returns_tellWaiting

theorem returns_release :
    (Act.release id).Returns (env.answer (n + 1)) (Scene.Running d codec id x values) := by
  refine .withComponent (C := fun _ => True) ?_ fun c _ => ?_
  · rintro s ⟨stage, attributes, -, lone⟩
    obtain ⟨c, found, -⟩ := lone.component
    exact ⟨c, found, trivial⟩
  refine composes.bind (returns_running fun _ => returns_modify fun c own => { own with }) fun _ => ?_
  exact composes.ite (returns_complete passive) (composes.pure ())

end Running

end Act

/-- There is no component below its node. -/
theorem Scene.Lone.componentsIn (lone : s.Lone d codec id x o) : s.componentsIn x = [id] := by
  obtain ⟨m, there, -, childless, -⟩ := lone.node
  have bare : s.document.children x = [] := by
    rw [Document.children, there, Option.map_some, Option.getD_some, childless]
  have none : s.document.descendants x = [] := by
    unfold Document.descendants
    cases s.document.size with
    | zero => rfl
    | succ most => rw [Document.descendantsUpTo, bare, List.flatMap_nil]
  rw [Scene.componentsIn, Document.subtree, none, List.filterMap_cons, lone.host, List.filterMap_nil]

namespace Act
open Returns
variable (passive : d.Passive)
include passive

/-- Without a template there is nothing to expand, and the component completes. -/
theorem gives_applyTemplate (lone : s.Lone d codec id x (.calm .configured values attributes)) :
    (Act.applyTemplate id).Gives (env.answer (n + 2)) s fun _ t => t.Running d codec id x values := by
  obtain ⟨c, found, own⟩ := lone.component
  have configured : c.stage = .configured := own.stage
  have plain (light : List NodeId) : Act.expand id c light = (pure none : Act κ _) := by
    rw [Act.expand, own.definition, passive.template, Option.map_none]
  refine .withComponent found ?_
  rw [if_pos configured]
  refine .scene (.bind (R := fun r t => none = r ∧ s = t) ?_ ?_)
  · rw [plain]
    exact .pure ⟨rfl, rfl⟩
  rintro _ _ ⟨rfl, rfl⟩
  refine .bind (R := fun r t => r.2 = .ofHost x ∧ s = t) ?_ ?_
  · rw [own.node]
    exact .scene (.bind (R := fun _ t => s = t) (.update rfl) fun _ t same => .pure ⟨rfl, same⟩)
  rintro ⟨layout, tree⟩ _ ⟨rfl, rfl⟩
  dsimp only
  rw [if_neg (show ¬none.isSome = true from Bool.false_ne_true)]
  refine .bind (R := fun _ t => s = t) (.pure rfl) ?_
  rintro text _ rfl
  refine .bind (R := fun _ t => t.Lone d codec id x (.calm .expanded values attributes)) ?_ ?_
  · refine .update (lone.modify (fun c own => ?_) rfl)
    exact { own with stage := rfl, bindings := fun t same => (Option.some.inj same).symm, boundProperties := rfl }
  intro _ t lone
  refine .bind (R := fun _ t => t.Lone d codec id x (.calm .expanded values attributes)) ?_ ?_
  · have none : (t.componentsIn c.node).filter (fun child =>
        child ≠ id && (t.component? child).any fun c => !c.completed) = [] := by
      rw [own.node, lone.componentsIn]
      simp
    refine .scene ?_
    simp only [none]
    exact .bind (R := fun _ t => t.Lone d codec id x (.calm .expanded values attributes)) (.pure lone)
      fun _ _ lone => .pure lone
  · intro _ t lone
    refine .ask fun store => ?_
    exact returns_release passive t ⟨.expanded, attributes, rfl, lone⟩ store

variable (nameless : d.schema.Nameless) (distinct : attributes.names.Nodup)
  (free : attributes.get? contextAttribute = none)
include nameless distinct free

/-- The first connection takes the attributes over. -/
theorem gives_connect (lone : s.Lone d codec id x (.calm .created values attributes))
    (loaded : s.loading = false) : (Act.connect id).Gives (env.answer (n + 2)) s fun _ t =>
      t.Running d codec id x (attributes.foldl (d.schema.fed codec) values) := by
  obtain ⟨c, found, own⟩ := lone.component
  have created : c.stage = .created := own.stage
  refine .withComponent found ?_
  rw [created]
  refine .scene ?_
  rw [loaded]
  refine .bind (gives_configure passive nameless distinct free lone) ?_
  rintro _ t ⟨later, lone⟩
  exact gives_applyTemplate passive lone

end Act

namespace Document
variable {d e : Document}

theorem allows_of_tree (same : e.tree = d.tree) (parent child : NodeId) :
    e.Allows parent child ↔ d.Allows parent child := by
  have there (x : NodeId) : e.contains x = d.contains x := by
    rw [Bool.eq_iff_iff, contains_iff, contains_iff, size_of_tree same]
  rw [Allows, Allows, there, there, isWithin_of_tree same]

/-- Where a node comes to when it is put under another is settled by the tree alone. -/
theorem parent?_appendChild_of_tree (same : e.tree = d.tree) (parent child x : NodeId) :
    (e.appendChild parent child).parent? x = (d.appendChild parent child).parent? x := by
  by_cases allowed : d.Allows parent child
  · rw [parent?_appendChild allowed, parent?_appendChild ((allows_of_tree same _ _).mpr allowed),
      parent?_of_tree same]
  · have barred := fun allows => allowed ((allows_of_tree same parent child).mp allows)
    rw [appendChild, if_pos (not_not.mp barred), appendChild, if_pos (not_not.mp allowed),
      parent?_of_tree same]

end Document

def Scene.Joins (s : Scene κ) (parent x : NodeId) : Prop :=
  s.loading = false ∧ (s.document.appendChild parent x).parent? x = some parent ∧
    (s.document.appendChild parent x).isConnected x = true

instance (s : Scene κ) (parent x : NodeId) : Decidable (s.Joins parent x) :=
  inferInstanceAs (Decidable (_ ∧ _ ∧ _))

theorem Scene.joins_of_tree {s t : Scene κ} (same : t.document.tree = s.document.tree)
    (loading : t.loading = s.loading) (parent x : NodeId) : t.Joins parent x ↔ s.Joins parent x := by
  have above := Document.parent?_appendChild_of_tree same parent x
  have size : (t.document.appendChild parent x).size = (s.document.appendChild parent x).size := by
    rw [Document.size_appendChild, Document.size_appendChild, Document.size_of_tree same]
  rw [Joins, Joins, loading, above, Document.isConnected, Document.isConnected,
    Document.isWithin_congr above size]

namespace Act

/-- A component that was never connected has nothing to leave. -/
theorem gives_detach {answer : (c : Call κ) → World κ σ → Option (c.Answer × World κ σ)}
    (lone : s.Lone d codec id x (.calm .created values attributes)) :
    (Act.detach id).Gives answer s fun _ t => t.Lone d codec id x (.calm .created values attributes) ∧
      t.document = s.document ∧ t.loading = s.loading := by
  obtain ⟨c, found, own⟩ := lone.component
  have created : c.stage = .created := own.stage
  refine .withComponent found ?_
  rw [if_neg (by rw [created]; exact Stage.noConfusion)]
  refine .bind (R := fun _ t => t.Lone d codec id x (.calm .created values attributes) ∧
    t.document = s.document ∧ t.loading = s.loading) (.update ⟨?_, rfl, rfl⟩) ?_
  · exact ⟨lone.component, lone.host, lone.node, lone.codec⟩
  · rintro _ t kept
    refine .scene ?_
    rw [own.owner]
    exact .pure kept

/-- While the document is loading a component waits. -/
theorem gives_queue {answer : (c : Call κ) → World κ σ → Option (c.Answer × World κ σ)}
    (lone : s.Lone d codec id x (.calm .created values attributes)) (loading : s.loading = true) :
    (Act.connect id).Gives answer s fun _ t => t.Lone d codec id x (.calm .created values attributes) := by
  obtain ⟨c, found, own⟩ := lone.component
  have created : c.stage = .created := own.stage
  refine .withComponent found ?_
  rw [created]
  refine .scene ?_
  rw [loading]
  exact .update ⟨lone.component, lone.host, lone.node, lone.codec⟩

/-- A component is connected for the first time if its node joins the document, and else stays as it
is. -/
theorem gives_appendChild (passive : d.Passive) (nameless : d.schema.Nameless)
    (distinct : attributes.names.Nodup) (free : attributes.get? contextAttribute = none)
    (top : s.document.parent? x = none) (parent : NodeId)
    (lone : s.Lone d codec id x (.calm .created values attributes)) :
    (Act.appendChild parent x).Gives (env.answer (n + 2)) s fun _ t =>
      (s.Joins parent x → t.Running d codec id x (attributes.foldl (d.schema.fed codec) values)) ∧
      (¬s.Joins parent x → t.Lone d codec id x (.calm .created values attributes)) := by
  have moved : (s.edit (·.appendChild parent x)).Lone d codec id x (.calm .created values attributes) := by
    refine lone.edit fun n there => ?_
    by_cases allowed : s.document.Allows parent x
    · refine ⟨{ n with parent := some parent }, ?_, fun same => same, rfl, rfl⟩
      rw [Document.node?_appendChild_top allowed top, there, Option.map_some,
        if_neg (Ne.symm allowed.there.1), if_pos rfl]
    · refine ⟨n, ?_, fun same => same, rfl, rfl⟩
      rw [Document.appendChild, if_pos (not_not.mp allowed), there]
  refine .scene (.bind (R := fun _ t => t = s.edit (·.appendChild parent x)) (.update rfl) ?_)
  rintro _ _ rfl
  refine .scene ?_
  split
  · next under =>
    rw [moved.componentsIn]
    extract_lets inside arriving
    have arrives (r : PUnit) (t : Scene κ)
        (there : t.Lone d codec id x (.calm .created values attributes) ∧
          t.document = s.document.appendChild parent x ∧ t.loading = s.loading) :
        (arriving r).Gives (env.answer (n + 2)) t fun _ u =>
          (s.Joins parent x → u.Running d codec id x (attributes.foldl (d.schema.fed codec) values)) ∧
          (¬s.Joins parent x → u.Lone d codec id x (.calm .created values attributes)) := by
      obtain ⟨lone, document, loading⟩ := there
      refine .scene ?_
      rw [document]
      split
      · next connected =>
        cases loaded : s.loading with
        | true =>
          refine .bind (R := fun _ u => u.Lone d codec id x (.calm .created values attributes))
            (gives_queue lone (loading.trans loaded)) fun _ u lone => ?_
          exact .pure ⟨fun joins => absurd (loaded.symm.trans joins.1) Bool.noConfusion, fun _ => lone⟩
        | false =>
          refine .bind (gives_connect passive nameless distinct free lone (loading.trans loaded)) ?_
          exact fun _ u running => .pure ⟨fun _ => running, fun apart => absurd ⟨loaded, under, connected⟩ apart⟩
      · next apart => exact .pure ⟨fun joins => absurd joins.2.2 apart, fun _ => lone⟩
    split
    · refine .bind (.bind (R := fun _ t => t.Lone d codec id x (.calm .created values attributes) ∧
        t.document = s.document.appendChild parent x ∧ t.loading = s.loading) (gives_detach moved)
        fun _ t kept => .pure kept) fun r t kept => arrives r t kept
    · exact arrives ⟨⟩ _ ⟨moved, rfl, rfl⟩
  · next apart => exact .pure ⟨fun joins => absurd joins.2.1 apart, fun _ => moved⟩

end Act

def Schema.defaults (schema : Schema) (name : String) : Option Value :=
  (schema.get? name).map Property.default

theorem Component.lone_new (d : Definition κ) (x : NodeId) :
    (Component.new d x none : Component κ).Lone d x (.calm .unattached d.schema.defaults []) where
  definition := rfl
  node := rfl
  owner := rfl
  parts p inside := by
    obtain ⟨c, there, rfl⟩ := List.mem_map.mp inside
    exact there
  bindings t tree := by cases tree
  boundProperties := rfl
  watcher := rfl
  link := rfl
  waiters := rfl
  whenReady := rfl
  stage := rfl
  slots name := by
    dsimp only [Component.new, Outlook.calm, Schema.defaults]
    rw [Slots.get?_ofSchema, Option.map_map, Option.map_map]
    rfl

namespace Act

/-- A component that is made outside of all templates is on its own, with the defaults of its type. -/
theorem gives_createElement (answer : (c : Call κ) → World κ σ → Option (c.Answer × World κ σ))
    (passive : d.Passive) {tag : String} (registered : s.definition? tag = some d) (placed : s.Placed)
    (unowned : s.templateOwner = none) :
    (Act.createElement tag).Gives answer s fun y t => y = ⟨s.document.size⟩ ∧
      t.document = (s.document.createElement tag).2 ∧
      t.Lone d s.codec ⟨s.components.size⟩ ⟨s.document.size⟩
        (.calm .created d.schema.defaults []) := by
  obtain ⟨x, known⟩ : ∃ x : NodeId, x = ⟨s.document.size⟩ := ⟨_, rfl⟩
  obtain ⟨id, named⟩ : ∃ id : ComponentId, id = ⟨s.components.size⟩ := ⟨_, rfl⟩
  rw [← known, ← named]
  let grown : Scene κ := s.edit fun _ => (s.document.createElement tag).2
  let made : Scene κ := { grown with components := grown.components.push (.new d x none) }
  have edited : grown.Placed := by
    have follows := Document.follows_createElement s.document tag
    refine ⟨follows.sound placed.document, fun other c found => ?_, placed.apart⟩
    exact (placed.inside other c found).trans_le follows.size
  have inside : x.index < grown.document.size := by
    rw [known]
    exact (Document.size_add _ _).symm ▸ Nat.lt_succ_self _
  have vacant (other : ComponentId) (c : Component κ) (found : grown.component? other = some c) :
      c.node ≠ x := fun same => by
    have bound := placed.inside other c found
    rw [same, known] at bound
    exact Nat.lt_irrefl _ bound
  have fresh : made.component? id = some (.new d x none) :=
    (grown.component?_push _ id).trans (if_pos (congrArg ComponentId.index named))
  have start : made.Lone d s.codec id x (.calm .unattached d.schema.defaults []) := by
    refine ⟨⟨_, fresh, Component.lone_new d x⟩, (edited.push (c := .new d x none) inside vacant).componentAt? fresh,
      ⟨{ content := .element tag.toLower }, ?_, rfl, rfl, rfl⟩, rfl⟩
    exact (Document.node?_add _ _ _).trans (if_pos (congrArg NodeId.index known))
  subst known named
  refine .scene (.bind (R := fun _ t => grown = t) (.update rfl) ?_)
  rintro _ _ rfl
  rw [registered, unowned]
  refine .bind (R := fun _ t => t.document = grown.document ∧ t.Lone d s.codec ⟨s.components.size⟩
    ⟨s.document.size⟩ (.calm .created d.schema.defaults [])) ?_ fun _ t kept => .pure ⟨rfl, kept⟩
  refine .scene (.bind (R := fun _ t => made = t) (.update rfl) ?_)
  rintro _ _ rfl
  refine .bind (R := fun _ t => t.document = grown.document ∧ t.Lone d s.codec ⟨s.components.size⟩
    ⟨s.document.size⟩ (.calm .created d.schema.defaults [])) (.update ⟨rfl, ?_⟩) ?_
  · exact start.modify (fun c own => { own with stage := rfl }) rfl
  rintro _ t ⟨document, lone⟩
  refine .bind (gives_tellParts passive .created lone) ?_
  rintro _ u ⟨lone, same⟩
  refine .bind (gives_runHook passive "created" rfl lone) ?_
  rintro _ _ rfl
  exact .pure ⟨same.trans document, lone⟩

end Act
end LiveTree
