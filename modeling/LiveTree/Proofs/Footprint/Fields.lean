import LiveTree.Proofs.Footprint

/-! What changes of a slot, of a binding and of the number of components leave alone. -/
namespace LiveTree
variable {κ : Type}

theorem BindingTree.still_modify (t : BindingTree) (i : Nat) (target : String)
    {f : Binding → Binding} (keeps : ∀ b, (f b).still = b.still) :
    (t.modify i target f).still = t.still := by
  have site (x : Site) :
      Site.still { x with bindings := x.bindings.modify target f } = x.still := by
    simp only [Site.still, Keyed.modify, List.map_map, Site.mk.injEq, true_and, and_true]
    refine List.map_congr_left fun b _ => ?_
    by_cases same : b.1 = target <;> simp [same, keeps]
  simp only [still, modify, modifySite, Arena.modify, BindingTree.mk.injEq, Arena.mk.injEq]
  apply Array.ext
  · simp
  · intro j left right
    simp only [Array.getElem_map, Array.getElem_modify]
    split
    · exact site _
    · rfl

theorem BindingTree.binding?_still (t : BindingTree) (i : Nat) (target : String) :
    t.still.binding? i target = (t.binding? i target).map Binding.still := by
  have site (bindings : Keyed Binding) : Keyed.get? (bindings.map fun b => (b.1, b.2.still)) target =
      (Keyed.get? bindings target).map Binding.still := by
    induction bindings with
    | nil => rfl
    | cons x rest ih =>
      obtain ⟨name, b⟩ := x
      by_cases same : name = target
      · simp [Keyed.get?, same]
      · simp [Keyed.get?, same, ih]
  simp only [binding?, site?, still, Arena.get?, Array.getElem?_map]
  cases t.sites.cells[i]? with
  | none => rfl
  | some x => exact site x.bindings

namespace Component.Alike

theorem slotValues (c : Component κ) (name : String) {f : Slot → Slot}
    (keeps : ∀ slot, (f slot).notify = slot.notify) :
    c.Alike [.values] (c.modifySlot name f) := by
  refine ⟨rfl, rfl, fun g out => ?_⟩
  cases g with
  | values => exact absurd (by decide) out
  | names => exact Keyed.names_modify _ _ _
  | notify =>
    refine funext fun other => ?_
    change (Keyed.get? (Keyed.modify c.slots name f) other).map Slot.notify = _
    rw [Keyed.get?_modify]
    split
    · rw [Option.map_map, show Slot.notify ∘ f = Slot.notify from funext keeps]
      rfl
    · rfl
  | _ => rfl

theorem slotNotify (c : Component κ) (name : String) {f : Slot → Slot}
    (keeps : ∀ slot, (f slot).value = slot.value ∧ (f slot).busy = slot.busy) :
    c.Alike [.notify] (c.modifySlot name f) := by
  refine ⟨rfl, rfl, fun g out => ?_⟩
  cases g with
  | notify => exact absurd (by decide) out
  | names => exact Keyed.names_modify _ _ _
  | values =>
    refine funext fun other => ?_
    change (Keyed.get? (Keyed.modify c.slots name f) other).map
      (fun slot => (slot.value, slot.busy)) = _
    rw [Keyed.get?_modify]
    split
    · rw [Option.map_map]
      refine congrArg (Option.map · _) (funext fun slot => ?_)
      exact Prod.ext (keeps slot).1 (keeps slot).2
    · rfl
  | _ => rfl

theorem flow (c : Component κ) (i : Nat) (target : String) {f : Binding → Binding}
    (keeps : ∀ b, (f b).still = b.still) :
    c.Alike [.flow] (c.modifyBindings fun t => t.modify i target f) := by
  refine ⟨rfl, rfl, fun g out => ?_⟩
  cases g with
  | flow => exact absurd (by decide) out
  | bindings =>
    change (c.bindings.map fun t => t.modify i target f).map BindingTree.still = _
    rw [Option.map_map]
    exact congrArg (Option.map · _) (funext fun t => t.still_modify i target keeps)
  | _ => rfl

/-- Other bindings may read other properties. -/
theorem rebound (c : Component κ) (f : BindingTree → BindingTree) :
    c.Alike [.bindings, .flow, .boundProperties] (c.modifyBindings f).rebound :=
  ⟨rfl, rfl, fun g out => by cases g <;> first | rfl | exact absurd (by decide) out⟩

/-- The parts are told of a stage and stay parts of the same capabilities. -/
theorem mark (c : Component κ) (m : Moment) :
    c.Alike [.parts] { c with parts := c.parts.map (·.mark m) } := by
  refine ⟨rfl, rfl, fun g out => ?_⟩
  cases g with
  | parts => exact absurd (by decide) out
  | capabilities =>
    change (c.parts.map (·.mark m)).map Part.capability = _
    rw [List.map_map]
    exact List.map_congr_left fun p _ => by cases m <;> rfl
  | _ => rfl

/-- A component as its template leaves it, with one more hold. -/
theorem applied (c : Component κ) (t : BindingTree) (refs : Keyed NodeId) (content : NodeId)
    (text : String) : c.Alike [.stage, .bindings, .flow, .boundProperties, .refs, .content,
      .lightText, .barrier] { c with
        stage := .expanded
        bindings := some t
        boundProperties := t.dependencies
        refs := refs
        content := some content
        lightText := text
        barrier := c.barrier.hold } :=
  ⟨rfl, rfl, fun g out => by cases g <;> first | rfl | exact absurd (by decide) out⟩

theorem adopt (c : Component κ) (d : Definition κ) (added : Capability κ) :
    c.Alike [.definition, .values, .names, .notify, .capabilities, .parts] (c.adopt d added) :=
  ⟨rfl, rfl, fun g out => by cases g <;> first | rfl | exact absurd (by decide) out⟩

end Component.Alike

/-- A type may be replaced, but its tag stays taken. -/
theorem Scene.isRegistered_insert (s : Scene κ) (key : String) (d : Definition κ) (tag : String)
    (known : s.isRegistered tag = true) :
    ((s.definitions.insert key d).get? tag.toLower).isSome = true := by
  by_cases same : tag.toLower = key
  · rw [same, Keyed.get?_insert_self]
    rfl
  · rwa [Keyed.get?_insert_of_ne _ _ same]

namespace Scene.Alike

/-- A new component takes a new number and leaves the others alone. -/
theorem push (s : Scene κ) (c : Component κ) :
    s.Alike [.components] { s with components := s.components.push c } where
  config := rfl
  document := .refl _
  enrols := .of_same rfl rfl
  registered _ known := known
  view f out := by cases f <;> first | rfl | exact absurd (by decide) out
  component id d found := by
    refine ⟨d, ?_, .refl d⟩
    have bound : id.index < s.components.size := by
      obtain ⟨bound, _⟩ := Array.getElem?_eq_some_iff.mp found
      exact bound
    simp only [component?, Arena.get?_push, Nat.ne_of_lt bound, ↓reduceIte]
    exact found

/-- The nodes stay as and where they are; what is noted at them may change. -/
theorem mark (s : Scene κ) {d : Document} (tree : d.tree = s.document.tree)
    (texts : d.texts = s.document.texts) (listed : d.listed = s.document.listed) :
    s.Alike [.document] (s.edit fun _ => d) where
  config := rfl
  document := .of_tree tree
  enrols := .of_same rfl listed
  registered _ known := known
  view f out := by
    cases f <;> first
      | rfl
      | exact absurd (by decide) out
      | exact tree
      | exact Document.elements_of_tree tree
      | exact texts
  component _ c found := ⟨c, found, .refl c⟩

/-- The nodes stay as and where they are, and their listeners change with those of the scene. -/
theorem enrol (s : Scene κ) {d : Document} {listeners : Arena (Option (Listener κ))}
    (tree : d.tree = s.document.tree) (texts : d.texts = s.document.texts)
    (enrols : s.Enrols { s.edit (fun _ => d) with listeners := listeners }) :
    s.Alike [.document, .listeners] { s.edit (fun _ => d) with listeners := listeners } where
  config := rfl
  document := .of_tree tree
  enrols := enrols
  registered _ known := known
  view f out := by
    cases f <;> first
      | rfl
      | exact absurd (by decide) out
      | exact tree
      | exact Document.elements_of_tree tree
      | exact texts
  component _ c found := ⟨c, found, .refl c⟩

/-- Nodes were put elsewhere and that was all. -/
theorem move (s : Scene κ) {d : Document} (reworks : s.document.Reworks d)
    (texts : d.texts = s.document.texts) : s.Alike [.document, .tree] (s.edit fun _ => d) where
  config := rfl
  document := reworks.toFollows
  enrols := .of_same rfl reworks.listed
  registered _ known := known
  view f out := by
    cases f <;> first
      | rfl
      | exact absurd (by decide) out
      | exact reworks.elements
      | exact texts
  component _ c found := ⟨c, found, .refl c⟩

theorem edit (s : Scene κ) {d : Document} (reworks : s.document.Reworks d) :
    s.Alike [.document, .tree, .texts] (s.edit fun _ => d) where
  config := rfl
  document := reworks.toFollows
  enrols := .of_same rfl reworks.listed
  registered _ known := known
  view f out := by
    cases f <;> first | rfl | exact absurd (by decide) out | exact reworks.elements
  component _ c found := ⟨c, found, .refl c⟩

/-- There may be new elements. -/
theorem extend (s : Scene κ) {d : Document} (follows : s.document.Follows d)
    (listed : d.listed = s.document.listed) :
    s.Alike [.document, .tree, .elements, .texts] (s.edit fun _ => d) where
  config := rfl
  document := follows
  enrols := .of_same rfl listed
  registered _ known := known
  view f out := by cases f <;> first | rfl | exact absurd (by decide) out
  component _ c found := ⟨c, found, .refl c⟩

theorem define (s : Scene κ) (key : String) (d : Definition κ) :
    s.Alike [.definitions] { s with definitions := s.definitions.insert key d } where
  config := rfl
  document := .refl _
  enrols := .of_same rfl rfl
  registered tag known := s.isRegistered_insert key d tag known
  view f out := by cases f <;> first | rfl | exact absurd (by decide) out
  component _ c found := ⟨c, found, .refl c⟩

end Scene.Alike

namespace Act.Touches
variable {F : List Field} {C : List Call.Kind}

theorem edit {f : Document → Document} (reworks : ∀ d : Document, d.Reworks (f d))
    (inside : [.document, .tree, .texts] ⊆ F) : (Act.edit f : Act κ Unit).Touches F C :=
  update fun s => (Scene.Alike.edit s (reworks s.document)).mono fun _ => @inside _

theorem mark {f : Document → Document} (tree : ∀ d : Document, (f d).tree = d.tree)
    (texts : ∀ d : Document, (f d).texts = d.texts) (listed : ∀ d : Document, (f d).listed = d.listed)
    (inside : [.document] ⊆ F) : (Act.edit f : Act κ Unit).Touches F C :=
  update fun s => (Scene.Alike.mark s (tree _) (texts _) (listed _)).mono fun _ => @inside _

end Act.Touches
end LiveTree
