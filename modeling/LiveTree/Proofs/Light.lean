import LiveTree.Proofs.Light.Making
import LiveTree.Proofs.Light.Place
import LiveTree.Proofs.Light.Unbound
import LiveTree.Proofs.Mirror.Sites
import LiveTree.Proofs.Readiness

/-! Light children are kept. The children that a host node has when its component connects are cut off
and come back when the template has been expanded: to the content node, or as text to a property that is
bound both ways. -/
namespace LiveTree
variable {κ σ α : Type}

/-- What becomes of the former children of a host node: they are the last below the content node, which is
the place that the template has for them, or else they were texts that go to a property, and wait as one
text. -/
def Scene.KeepsLight (t : Scene κ) (id : ComponentId) (host : NodeId) (ms : List Markup) (d : Document)
    (light : List NodeId) : Prop :=
  ∃ c content, t.component? id = some c ∧ c.content = some content ∧
    d.Shelters host ms t.document content ∧
    (t.document.EndsWith content light ∨
      light ≠ [] ∧ (∀ x ∈ light, t.document.isText x = true) ∧
        (∃ tree i site b, c.bindings = some tree ∧ tree.site? i = some site ∧
          t.document.parent? site.node = some content ∧
          site.bindings.get? textTarget = some b ∧ b.mode = .twoWay) ∧
        c.lightText = textOf d light)

theorem BindingTree.takesText_iff {t : BindingTree} {d : Document} {content : NodeId} :
    t.takesText d content = true ↔ ∃ i site b, t.site? i = some site ∧
      d.parent? site.node = some content ∧ site.bindings.get? textTarget = some b ∧ b.mode = .twoWay := by
  rw [takesText, List.any_eq_true]
  constructor
  · rintro ⟨⟨i, site⟩, member, fits⟩
    rw [Bool.and_eq_true, decide_eq_true_iff, Option.any_eq_true] at fits
    obtain ⟨parent, b, bound, mode⟩ := fits
    exact ⟨i, site, b, mem_toList.mp member, parent, bound, eq_of_beq mode⟩
  · rintro ⟨i, site, b, found, parent, bound, mode⟩
    refine ⟨(i, site), mem_toList.mpr found, ?_⟩
    rw [Bool.and_eq_true, decide_eq_true_iff, Option.any_eq_true]
    exact ⟨parent, b, bound, beq_iff_eq.mpr mode⟩

section Expansion
variable {id : ComponentId} {Q : Scene κ → Prop} {p : Point κ σ} {definitions : Keyed (Definition κ)}

/-- The former children come last below the content node or, if they are texts and one of its texts is
bound both ways, are put together to one text. -/
theorem wp_placeLight (light : List NodeId) (content : NodeId) (t : BindingTree)
    (awaits : p.scene.Awaits id definitions)
    (ends : (light.foldl (fun d x => d.appendChild content x) p.scene.document).EndsWith content light) :
    (Act.placeLight light content t).wp (Expecting σ id Q) (fun text q => q.scene.Awaits id definitions ∧
      p.scene.document.Reworks q.scene.document ∧
      (q.scene.document.EndsWith content light ∨
        q.scene = p.scene ∧ light ≠ [] ∧ (∀ x ∈ light, p.scene.document.isText x = true) ∧
          t.takesText p.scene.document content = true ∧ text = textOf p.scene.document light)) p := by
  refine (Act.wp_bind _ _).mpr (Act.wp_scene.mpr ?_)
  dsimp only
  split
  · next goes =>
    simp only [Bool.and_eq_true, Bool.not_eq_true', List.isEmpty_eq_false_iff, List.all_eq_true] at goes
    exact ⟨awaits, .refl _, .inr ⟨rfl, goes.1.1, goes.1.2, goes.2, rfl⟩⟩
  · have moved := Document.Reworks.foldl (fun d x => d.reworks_appendChild content x) light p.scene.document
    exact (Act.wp_bind _ _).mpr (Expecting.takes awaits.stage?_ne ⟨awaits, moved, .inl ends⟩)

/-- The step that expands a component keeps the light children, and nothing comes after it that does not
belong to a later stage. -/
theorem wp_applied {layout : Layout} {t : BindingTree} {light : List NodeId} {d : Document} {ms : List Markup}
    (x : NodeId) (awaits : p.scene.Awaits id definitions)
    (shelters : d.Shelters x ms p.scene.document layout.content)
    (ends : (light.foldl (fun d x => d.appendChild layout.content x) p.scene.document).EndsWith
      layout.content light)
    (kept : ∀ x ∈ light, p.scene.document.words? x = d.words? x) :
    (do
      let text ← Act.placeLight light layout.content t
      Act.modify id fun c : Component κ => { c with
        stage := .expanded
        bindings := some t
        boundProperties := t.dependencies
        refs := layout.refs
        content := some layout.content
        lightText := text
        barrier := c.barrier.hold }
      Act.awaitNested id x
      Act.ask (.release id)).wp (Expecting σ id fun t => t.KeepsLight id x ms d light) (fun _ _ => True) p := by
  refine (Act.wp_bind _ _).mpr (Act.wp_mono _ ?_ (wp_placeLight light layout.content t awaits ends))
  rintro text q ⟨awaits, reworks, goes⟩
  obtain ⟨c, found, -⟩ := Option.map_eq_some_iff.mp awaits.1
  refine (Act.wp_bind _ _).mpr ((Act.wp_modify _ _).mpr ⟨fun _ _ => ?_, fun _ => ?_⟩)
  · have there (f : Component κ → Component κ) : (q.scene.modify id f).component? id = some (f c) := by
      rw [Scene.component?_modify, if_pos rfl, found, Option.map_some]
    refine ⟨_, layout.content, there _, rfl, shelters.reworks reworks, ?_⟩
    · refine goes.imp_right fun ⟨same, nonempty, plain, takes, text⟩ => ?_
      change light ≠ [] ∧ (∀ x ∈ light, q.scene.document.isText x = true) ∧ _
      obtain ⟨i, site, b, site', parent, bound, mode⟩ := BindingTree.takesText_iff.mp takes
      have texts := Document.textOf_congr plain fun x inside => (kept x inside).symm
      exact ⟨nonempty, same ▸ plain, ⟨t, i, site, b, rfl, site', same ▸ parent, bound, mode⟩, text.trans texts.symm⟩
  · refine (Act.wp_bind _ _).mpr (Act.wp_mono _ (fun _ r _ => ?_)
      (Expecting.of_touches (.awaitNested id x) (by decide)))
    exact Expecting.of_touches (F := []) (C := [.release]) (.ask _ rfl) (by simp)

/-- When a component is expanded, the children of its host node are kept. -/
theorem wp_applyTemplate {c : Component κ} {ms : List Markup} {d : Document}
    (found : p.scene.component? id = some c) (sound : p.scene.document.Sound)
    (bound : c.node.index < p.scene.document.size)
    (read : c.definition.template.map Markup.read = some (.ok ms))
    (nested : ∀ tag ∈ Markup.tagsOf ms, ∀ e, p.scene.definition? tag = some e → e.Silent)
    (tree : p.scene.document.tree = d.tree) (texts : p.scene.document.texts = d.texts) :
    (Act.applyTemplate id).wp (Expecting σ id fun t => t.KeepsLight id c.node ms d (d.children c.node))
      (fun _ _ => True) p := by
  refine Act.wp_withComponent (fun c' here => ?_) fun _ => trivial
  cases here.symm.trans found
  have light : p.scene.document.children c.node = d.children c.node := by
    rw [Document.children_eq, tree, ← Document.children_eq]
  split
  case isFalse => trivial
  case isTrue configured =>
  have awaits : p.scene.Awaits id p.scene.definitions :=
    ⟨by rw [Scene.stage?, found, Option.map_some, configured], rfl⟩
  refine (Act.wp_bind _ _).mpr (Act.wp_scene.mpr ?_)
  dsimp -zeta only
  have grown := (fosters_awaits (σ := σ) (Q := fun t => t.KeepsLight id c.node ms d (d.children c.node)) nested).wp_expand
    id (c := c) (p.scene.document.children c.node) read (fun _ member => member) sound bound awaits
  refine (Act.wp_bind _ _).mpr (Act.wp_mono _ ?_ grown)
  rintro _ q ⟨awaits, template, rfl, below⟩
  have ends := below.endsWith sound bound q.scene.config.stableId
  have kept (x : NodeId) (child : x ∈ p.scene.document.children c.node) :=
    below.words? q.scene.config.stableId (Document.bound_of_parent? (sound.parent x c.node child))
  refine (Act.wp_bind _ _).mpr ((Act.wp_bind _ _).mpr (Act.wp_scene.mpr ?_))
  dsimp -zeta only
  refine (Act.wp_bind _ _).mpr ((Act.wp_update _).mpr (Expecting.takes awaits.stage?_ne ?_))
  rw [← light]
  refine wp_applied c.node awaits ?_ ends fun x child => (kept x child).trans ?_
  · have prunes := Document.Prunes.foldl (fun d x => d.prunes_removeChild c.node x)
      (p.scene.document.children c.node) p.scene.document
    have size : d.size ≤ p.scene.document.size := (Document.size_of_tree tree).ge
    have laid : q.scene.document.Reworks
        (Layout.ofTemplate q.scene.document q.scene.config.stableId c.node template).2 :=
      q.scene.document.reworks_ofTemplate _ _ _
    have houses := below.houses (bound.trans_le prunes.size) q.scene.config.stableId
    exact ⟨_, _, template, size.trans prunes.size, below, laid, houses⟩
  exact Document.words?_of_texts texts x

end Expansion

section Connection
variable {id : ComponentId} {p : Point κ σ}

/-- A component that has been in the document before is not expanded again. -/
theorem wp_attach {Q : Scene κ → Prop} :
    (Act.attach id).wp (Expecting σ id Q) (fun _ _ => True) p := by
  have composes : Act.Composes fun {_} (m : Act κ _) =>
      ∀ p : Point κ σ, m.wp (Expecting σ id Q) (fun _ _ => True) p :=
    { pure := fun _ _ => trivial
      scene := fun _ => trivial
      bind := fun first second p => (Act.wp_bind _ _).mpr (Act.wp_mono _ (fun b q _ => second b q) (first p)) }
  have staged (p : Point κ σ) : (Act.setStage id .attached).wp (Expecting σ id Q) (fun _ _ => True) p := by
    refine (Act.wp_modify _ _).mpr (Expecting.takes ?_ trivial)
    rw [Scene.stage?_setStage, if_pos rfl]
    cases p.scene.stage? id <;> simp
  refine composes.attach ?_ (fun owner p => Expecting.of_touches (.modifyStrays owner _) (by decide)) p
  refine composes.bind staged fun _ => composes.bind (fun p => Expecting.of_touches (.tellParts _ _) (by decide))
    fun _ => ?_
  refine composes.bind (fun p => Expecting.of_touches (.runHook _ _ _) (by decide)) fun _ => ?_
  exact fun p => Expecting.of_touches (.wire id) (by decide)

theorem wp_connect {c : Component κ} {ms : List Markup}
    (placed : p.scene.Placed) (unbound : p.scene.Unbound) (found : p.scene.component? id = some c)
    (silent : c.definition.Silent) (read : c.definition.template.map Markup.read = some (.ok ms))
    (nested : ∀ tag ∈ Markup.tagsOf ms, ∀ d, p.scene.definition? tag = some d → d.Silent) :
    (Act.connect id).wp
      (Expecting σ id fun t => t.KeepsLight id c.node ms p.scene.document (p.scene.document.children c.node))
      (fun _ _ => True) p := by
  refine Act.wp_withComponent (fun c' here => ?_) fun _ => trivial
  cases here.symm.trans found
  split
  · next created =>
    refine (Act.wp_bind _ _).mpr (Act.wp_scene.mpr ?_)
    split
    · exact Expecting.of_touches (F := [.pending]) (C := [])
        (.update fun s => .put s .pending _ (by decide)) (by decide)
    · have dormant : p.scene.Dormant id :=
        ⟨c, found, .inl created, unbound id c found (by rw [created]; rfl), silent.methods⟩
      refine (Act.wp_bind _ _).mpr (Act.wp_mono _ ?_ (Expecting.of_slumbers .configure dormant (.refl _)))
      rintro _ q ⟨-, alike⟩
      obtain ⟨e, there, same⟩ := alike.component id c found
      have type : e.definition = c.definition := same.view .definition (by decide)
      have types : q.scene.definitions = p.scene.definitions := alike.view .definitions (by decide)
      rw [← same.node]
      refine wp_applyTemplate there (alike.document.sound placed.document) ?_ (by rwa [type]) ?_
        (alike.view .tree (by decide)) (alike.view .texts (by decide))
      · rw [same.node]
        exact (placed.inside id c found).trans_le alike.document.size
      · intro tag member d known
        refine nested tag member d ?_
        rwa [Scene.definition?, types] at known
  · exact wp_attach
  · trivial

end Connection

/-- The children that a host node has before its component connects are kept. When the component, of a
silent type with a template of silent types, gets to the expanded stage, they are the last children of the
content node, in the same order, each of them once and nowhere else; or they were all texts, a text right
below the content node is bound both ways, and what they say is kept as one text. The content node is the
parent of the template's slot, else its first element that is marked, else its first one, else the host. -/
theorem light_kept (env : Environment κ σ) {config : Config} {journal : Option Journal} {store : σ}
    {fuel : Nat} {script : Script κ σ α} {x : Step κ σ}
    (step : x ∈ (env.record fuel script ⟨.ofConfig config journal, store⟩).steps) {w : World κ σ}
    (met : w.scene ∈ x.scenes) {id : ComponentId} {c : Component κ}
    (found : w.scene.component? id = some c) (silent : c.definition.Silent) {ms : List Markup}
    (read : c.definition.template.map Markup.read = some (.ok ms))
    (nested : ∀ tag ∈ Markup.tagsOf ms, ∀ d, w.scene.definition? tag = some d → d.Silent)
    {levels : Nat} {s t : Scene κ}
    (change : .change s t ∈ (env.outline levels (Act.connect id) w).steps)
    (early : s.stage? id ≠ some .expanded) (expanded : t.stage? id = some .expanded) :
    t.KeepsLight id c.node ms w.scene.document (w.scene.document.children c.node) := by
  obtain ⟨placed, unbound⟩ := unbound_of_run env step met
  exact Expecting.outline (wp_connect (p := ⟨[], w⟩) placed unbound found silent read nested) change early
    expanded

def shelter : String := "<p></p><div><content></content></div>"

def adopting : Script Empty Unit Unit := do
  let _ ← Script.request (.register (Declaration.define { tag := "x-a", template := some shelter }))
  let x ← Script.request (.createElement "x-a")
  let y ← Script.request (.createElement "b")
  Script.request (.appendChild x y)
  let y ← Script.request (.createText "aside")
  Script.request (.appendChild x y)
  Script.request (.appendChild Document.root x)

def Step.expands (id : ComponentId) : Step κ σ → Bool
  | .change s t => s.stage? id ≠ some .expanded ∧ t.stage? id = some .expanded
  | _ => false

theorem light_kept_adopting : ∃ w s t ms, .change s t ∈ (silent.outline 20 (Act.connect ⟨0⟩) w).steps ∧
    s.stage? ⟨0⟩ ≠ some .expanded ∧ t.stage? ⟨0⟩ = some .expanded ∧ Markup.read shelter = .ok ms ∧
    w.scene.document.children ⟨1⟩ = [⟨2⟩, ⟨3⟩] ∧
    t.KeepsLight ⟨0⟩ ⟨1⟩ ms w.scene.document [⟨2⟩, ⟨3⟩] := by
  have answered : (((silent.record 20 adopting ⟨.ofConfig {} none, ()⟩).steps.flatMap Step.scenes).find?
      fun s => decide (s.stage? ⟨0⟩ = some .created ∧ s.document.isConnected ⟨1⟩ = true)).map (fun s =>
        ((s.component? ⟨0⟩).map (fun c => (c.node, c.definition.template)),
          s.document.children ⟨1⟩,
          (silent.outline 20 (Act.connect ⟨0⟩) ⟨s, ()⟩).steps.any (Step.expands ⟨0⟩))) =
      some (some (⟨1⟩, some shelter), [⟨2⟩, ⟨3⟩], true) := by decide +kernel
  have readable : (Markup.read shelter).isOk = true := by decide +kernel
  obtain ⟨s, first, same⟩ := Option.map_eq_some_iff.mp answered
  obtain ⟨here, same⟩ := Prod.mk.inj same
  obtain ⟨children, expanding⟩ := Prod.mk.inj same
  obtain ⟨x, step, met⟩ := List.mem_flatMap.mp (List.mem_of_find?_eq_some first)
  obtain ⟨c, found, same⟩ := Option.map_eq_some_iff.mp here
  obtain ⟨node, template⟩ := Prod.mk.inj same
  obtain ⟨ms, parsed⟩ : ∃ ms, Markup.read shelter = .ok ms := by
    cases read : Markup.read shelter with
    | ok ms => exact ⟨ms, rfl⟩
    | error _ => rw [read] at readable; cases readable
  obtain ⟨y, member, expands⟩ := List.any_eq_true.mp expanding
  cases y with
  | change u t =>
    obtain ⟨early, late⟩ := of_decide_eq_true expands
    refine ⟨⟨s, ()⟩, u, t, ms, member, early, late, parsed, children, ?_⟩
    have read : c.definition.template.map Markup.read = some (.ok ms) := by
      rw [template, Option.map_some, parsed]
    have kept := light_kept silent step (w := ⟨s, ()⟩) met found (.of_isEmpty _) read
      (fun _ _ d _ => .of_isEmpty d) member early late
    rwa [node, children] at kept
  | request r s => cases expands
  | answer call before a after => cases expands

end LiveTree
