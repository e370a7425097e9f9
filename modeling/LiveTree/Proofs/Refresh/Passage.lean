import LiveTree.Proofs.Paths
import LiveTree.Proofs.Refresh.Feeding
import LiveTree.Proofs.Unbinding

/-! What a value passes on its way through a binding: the binding itself, its target, and what stays with the
component at its node. -/
namespace LiveTree
variable {κ σ : Type}

theorem Keyed.erase_of_get? {α : Type} {xs : Keyed α} {key : String} (missing : get? xs key = none) :
    erase xs key = xs := by
  refine List.filter_eq_self.mpr fun e member => decide_eq_true ?_
  rintro rfl
  have here := (isSome_get? xs e.1).mpr (List.mem_map_of_mem member)
  rw [missing] at here
  cases here

namespace Scene
variable {base s t : Scene κ} {id other child : ComponentId} {i : Nat} {target : String} {x y : NodeId} {b d : Binding}
  {v : Value}

/-- A change of a binding shows at its place only. -/
theorem bound?_modifyBinding (s : Scene κ) (id : ComponentId) (i : Nat) (target : String) (f : Binding → Binding)
    (other : ComponentId) (j : Nat) (key : String) :
    (s.modify id fun c => c.modifyBindings fun t => t.modify i target f).bound? other j key =
      if other = id ∧ j = i ∧ key = target then (s.bound? other j key).map fun y => (y.1, f y.2)
      else s.bound? other j key := by
  rw [bound?_eq, bound?_eq, component?_modify]
  by_cases own : id = other
  · subst own
    rw [if_pos rfl]
    cases s.component? id with
    | none => simp
    | some c =>
      cases trees : c.bindings with
      | none => simp [Component.modifyBindings, trees]
      | some t =>
        have node : ((t.modify i target f).site? j).map Site.node = (t.site? j).map Site.node :=
          t.nodeAt?_modifySite i j fun _ => rfl
        simp only [Option.map_some, Option.bind_some, Component.modifyBindings, trees, node, t.binding?_modify]
        by_cases same : i = j ∧ key = target
        · rw [if_pos same, if_pos ⟨trivial, same.1.symm, same.2⟩]
          cases (t.site? j).map Site.node <;> cases t.binding? j key <;> rfl
        · rw [if_neg same, if_neg fun both => same ⟨both.2.1.symm, both.2.2⟩]
  · rw [if_neg own, if_neg fun both => own both.1.symm]

theorem Alike.modifyBinding (s : Scene κ) (id : ComponentId) (i : Nat) (target : String) {f : Binding → Binding}
    (still : ∀ b, (f b).still = b.still) :
    s.Alike Field.coursing (s.modify id fun c => c.modifyBindings fun t => t.modify i target f) :=
  (Alike.modify s id fun c => .flow c i target still).mono (by decide)

theorem Continues.modifyBinding (continues : base.Continues s) {f : Binding → Binding}
    (still : ∀ b, (f b).still = b.still) :
    base.Continues (s.modify id fun c => c.modifyBindings fun t => t.modify i target f) :=
  continues.still (.modifyBinding s id i target still) rfl rfl

/-- A binding that is changed and changed back is as it was. -/
theorem modifyBinding_back (firm : s.Firm) (bound : s.bound? id i target = some (x, b)) {f g : Binding → Binding}
    (back : g (f b) = b) :
    (s.modify id fun c => c.modifyBindings fun t => t.modify i target f).modify id
      (fun c => c.modifyBindings fun t => t.modify i target g) = s := by
  obtain ⟨c, t, found, own, -, held⟩ := s.component_of_bound? bound
  have tidy := Component.tidy_footing.mp (firm.each id c.footing (by rw [footing?, found]; rfl)).tidy t own
  rw [modifyBinding_twice]
  refine modify_of_same fun d there => ?_
  cases found.symm.trans there
  have trees : t.modify i target (g ∘ f) = t := by
    refine congrArg BindingTree.mk (Arena.modify_of_same fun y site => ?_)
    refine congrArg (fun bs => { y with bindings := bs }) (Keyed.modify_of_same (tidy i y site).1 fun a there => ?_)
    have site : t.site? i = some y := site
    rw [BindingTree.binding?, site, Option.bind_some] at held
    cases held.symm.trans there
    exact back
  rw [Component.modifyBindings, own, Option.map_some, trees, ← own]

structure Bears (s : Scene κ) (x : NodeId) (b : Binding) (v : Value) : Prop where
  plain : s.Plain x b.target → s.document.display? x b.target = some (b.display v)
  fed : ∀ child ∈ s.componentAt? x, s.Ignores child b.target v

theorem Bears.of_logs (bears : s.Bears x b v) (logs : s.Logs t) : t.Bears x b v := by
  obtain ⟨j, rfl⟩ := logs.exists_journal
  exact ⟨bears.plain, bears.fed⟩

end Scene

namespace Document
variable {d : Document} {x : NodeId} {b : Binding} {v : Value} {f : Node → Node}

theorem modify_of_same (same : ∀ n, d.node? x = some n → f n = n) : d.modify x f = d :=
  congrArg Document.mk (Arena.modify_of_same same)

theorem setText_of_isText (plain : d.isText x = true) (text : String) :
    d.setText x text = d.modify x fun n => { n with content := .text text } := by
  unfold setText
  unfold isText at plain
  split <;> simp_all

/-- A text that is there already. -/
theorem setText_of_display? {text : String} (plain : d.isText x = true)
    (shown : d.display? x textTarget = some (.text (.text text))) : d.setText x text = d := by
  rw [setText_of_isText plain]
  refine modify_of_same fun n found => ?_
  rw [display?, found, Option.map_some, Node.display, if_pos rfl, Option.some.injEq, Display.text.injEq] at shown
  rw [← shown]

/-- What is shown already. -/
theorem show_of_display? (field : b.target ≠ textTarget) (shown : d.display? x b.target = some (b.display v)) :
    b.show x v d = d := by
  obtain ⟨n, found, shown⟩ := Option.map_eq_some_iff.mp (shown : (d.node? x).map _ = _)
  rw [Node.display, if_neg field, Binding.display, if_neg field, Display.field.injEq] at shown
  obtain ⟨value, text⟩ := shown
  unfold Binding.show
  extract_lets attr e
  have same : e = d := by
    unfold e
    split
    · next written =>
      rw [written] at text
      refine modify_of_same fun m there => ?_
      cases found.symm.trans there
      rw [Keyed.insert_of_get? text]
    · next none =>
      rw [none] at text
      refine modify_of_same fun m there => ?_
      cases found.symm.trans there
      rw [Keyed.erase_of_get? text]
  rw [same]
  refine modify_of_same fun m there => ?_
  cases found.symm.trans there
  rw [Keyed.insert_of_get? value]

theorem node?_show {y : NodeId} (b : Binding) (v : Value) (apart : y ≠ x) : (b.show x v d).node? y = d.node? y := by
  unfold Binding.show
  extract_lets attr e
  refine (node?_modify _ _ _ _).trans ((if_neg apart.symm).trans ?_)
  unfold e
  split <;> exact (node?_modify _ _ _ _).trans (if_neg apart.symm)

end Document

namespace Scene
variable {base s t : Scene κ} {id child : ComponentId} {i : Nat} {target : String} {x : NodeId} {b d : Binding}
  {v : Value} {names : List String}

theorem component?_of_components (same : t.components = s.components) (other : ComponentId) :
    t.component? other = s.component? other := by rw [component?, same, component?]

theorem held?_of_component {other : ComponentId} (same : t.component? other = s.component? other) (name : String) :
    t.held? other name = s.held? other name := by rw [held?, slot?, same, held?, slot?]

theorem bound?_of_component {other : ComponentId} (same : t.component? other = s.component? other) (j : Nat)
    (key : String) : t.bound? other j key = s.bound? other j key := by rw [bound?, same, bound?]

theorem held?_modifyBinding (s : Scene κ) (id : ComponentId) (f : BindingTree → BindingTree) (other : ComponentId)
    (name : String) : (s.modify id fun c => c.modifyBindings f).held? other name = s.held? other name := by
  rw [held?, slot?, component?_modify, held?, slot?]
  split
  · rw [Option.bind_map]
    rfl
  · rfl

structure Passes (base : Scene κ) (id : ComponentId) (i : Nat) (target : String) (x : NodeId) (s t : Scene κ) :
    Prop where
  others : ∀ other ≠ id, (∀ child ∈ base.componentAt? x, ¬base.Reaches child other) →
    t.component? other = s.component? other
  own : ∀ name, t.held? id name = s.held? id name
  flow : ∀ j key, ¬(j = i ∧ key = target) → t.bound? id j key = s.bound? id j key
  fed : ∀ child ∈ base.componentAt? x, ∀ name ≠ target, t.held? child name = s.held? child name
  nodes : ∀ y ≠ x, (∀ child ∈ base.componentAt? x, ¬base.Governs child y) →
    t.document.node? y = s.document.node? y
  aside : base.componentAt? x = none → ∀ key, attributeOf key ≠ attributeOf target →
    t.document.display? x key = s.document.display? x key

namespace Passes

instance : IsPreorder (Scene κ) (base.Passes id i target x) where
  refl _ := ⟨fun _ _ _ => rfl, fun _ => rfl, fun _ _ _ => rfl, fun _ _ _ _ => rfl, fun _ _ _ => rfl,
    fun _ _ _ => rfl⟩
  trans _ _ _ first second :=
    ⟨fun other apart out => (second.others other apart out).trans (first.others other apart out),
      fun name => (second.own name).trans (first.own name),
      fun j key out => (second.flow j key out).trans (first.flow j key out),
      fun child here name out => (second.fed child here name out).trans (first.fed child here name out),
      fun y apart out => (second.nodes y apart out).trans (first.nodes y apart out),
      fun free key out => (second.aside free key out).trans (first.aside free key out)⟩

/-- Nothing has changed but a node. -/
theorem of_document (components : t.components = s.components)
    (nodes : ∀ y ≠ x, t.document.node? y = s.document.node? y)
    (aside : base.componentAt? x = none → ∀ key, attributeOf key ≠ attributeOf target →
      t.document.display? x key = s.document.display? x key) : base.Passes id i target x s t where
  others other _ _ := component?_of_components components other
  own name := held?_of_component (component?_of_components components id) name
  flow j key _ := bound?_of_component (component?_of_components components id) j key
  fed child _ name _ := held?_of_component (component?_of_components components child) name
  nodes y apart _ := nodes y apart
  aside := aside

theorem modifyBinding (s : Scene κ) (f : Binding → Binding) : base.Passes id i target x s
    (s.modify id fun c => c.modifyBindings fun t => t.modify i target f) where
  others other apart _ := by rw [component?_modify, if_neg (Ne.symm apart)]
  own name := held?_modifyBinding s id _ id name
  flow j key out := by rw [bound?_modifyBinding, if_neg fun all => out all.2]
  fed child _ name _ := held?_modifyBinding s id _ child name
  nodes _ _ _ := rfl
  aside _ _ _ := rfl

theorem listen (s : Scene κ) (event : String) (k : Listener κ) : base.Passes id i target x s
    { s.edit (·.addListener x event ⟨s.listeners.size⟩) with listeners := s.listeners.push (some k) } := by
  refine of_document rfl (fun y apart => ?_) fun _ key _ => Document.display?_modify fun _ _ => rfl
  exact (Document.node?_modify _ _ _ _).trans (if_neg apart.symm)

theorem confines (passes : base.Passes id i target x s t) (bound : base.bound? id i target = some (x, d)) :
    base.Confines id names s t where
  others other out := by
    refine passes.others other (fun same => out (same ▸ .refl)) fun child here reaches => ?_
    exact out (.head ⟨i, target, x, d, bound, here⟩ reaches)
  held name _ := passes.own name
  nodes y out := by
    refine passes.nodes y ?_ fun child here governs => ?_
    · rintro rfl
      exact out ⟨id, .refl, .inr ⟨i, target, d, bound⟩⟩
    · exact out (governs.of_feeds ⟨i, target, x, d, bound, here⟩)

/-- What stays with the component at the node. -/
theorem of_confines (orderly : base.Orderly) (firm : base.Firm) (bound : base.bound? id i target = some (x, d))
    (here : base.componentAt? x = some child) (confines : base.Confines child [target] s t) :
    base.Passes id i target x s t := by
  have feeds : base.Feeds id child := ⟨i, target, x, d, bound, here⟩
  have same := confines.others id (orderly.not_reaches_back firm feeds)
  exact {
    others := fun other _ out => confines.others other (out child here)
    own := held?_of_component same
    flow := fun j key _ => bound?_of_component same j key
    fed := fun other there name out => by
      cases here.symm.trans there
      exact confines.held name (by simpa using out)
    nodes := fun y _ out => confines.nodes y (out child here)
    aside := fun free => by cases here.symm.trans free }

end Passes

structure Lands (base : Scene κ) (id : ComponentId) (i : Nat) (target : String) (x : NodeId) (b : Binding) (v : Value)
    (s t : Scene κ) : Prop where
  continues : base.Continues t
  passes : base.Passes id i target x s t
  own : t.component? id = s.component? id
  bears : (∀ child ∈ base.componentAt? x, s.AtRest child target) → v.same v = true → t.Bears x b v
  logs : s.Bears x b v → s.Logs t

/-- At a plain node an edit that shows the value lets it come to its target. -/
theorem Lands.edit {f : Document → Document} (continues : base.Continues s) (plain : s.Plain x b.target)
    (reworks : ∀ d : Document, d.Reworks (f d))
    (nodes : ∀ y ≠ x, (f s.document).node? y = s.document.node? y)
    (aside : ∀ key, attributeOf key ≠ attributeOf target →
      (f s.document).display? x key = s.document.display? x key)
    (shows : (f s.document).display? x b.target = some (b.display v))
    (same : s.document.display? x b.target = some (b.display v) → f s.document = s.document) :
    base.Lands id i target x b v s (s.edit f) where
  continues := continues.still ((Alike.edit s (reworks _)).mono (by decide)) (reworks _).listed rfl
  passes := .of_document rfl nodes fun _ => aside
  own := rfl
  bears _ _ := ⟨fun _ => shows, fun child here => by cases plain.1.symm.trans here⟩
  logs bears := by
    rw [Scene.edit, same (bears.plain plain)]
    exact .refl s

namespace Lands
variable (orderly : base.Orderly) (firm : base.Firm) (bound : base.bound? id i target = some (x, d))
  (still : b.still = d.still) (continues : base.Continues s)
include orderly firm bound still continues

theorem of_setText (text : b.target = textTarget) :
    base.Lands id i target x b v s (s.edit (·.setText x v.display)) := by
  obtain ⟨c, found, rfl, neat⟩ := orderly.neat firm bound
  have target_eq : b.target = d.target := (congrArg Binding.target still : b.still.target = d.still.target)
  have plain : s.Plain x textTarget :=
    continues.course.plain (by decide) (by decide) (neat.text (target_eq.symm.trans text))
  have isText : s.document.isText x = true := by simpa using plain.2
  have there : x.index < s.document.size := (Document.isText_iff_tag.mp isText).1
  refine .edit continues (by rwa [text]) (fun d => by simp) (fun y apart => ?_) (fun key other => ?_) ?_ fun shown => ?_
  · rw [Document.setText_of_isText isText, Document.node?_modify, if_neg apart.symm]
  · refine Document.display?_setText _ there (.inr fun same => other ?_)
    rw [same, ← target_eq, text]
  · rw [text, Document.display?_setText_self _ isText, Binding.display, if_pos text]
  · rw [text, Binding.display, if_pos text] at shown
    exact Document.setText_of_display? isText shown

theorem of_show (field : b.target ≠ textTarget) (plain : s.Plain x b.target) :
    base.Lands id i target x b v s (s.edit (b.show x v)) := by
  obtain ⟨c, found, rfl, neat⟩ := orderly.neat firm bound
  have target_eq : b.target = d.target := (congrArg Binding.target still : b.still.target = d.still.target)
  have element : s.document.isElement x = true := by simpa [field] using plain.2
  refine .edit continues plain (fun d => by simp) (fun y apart => Document.node?_show b v apart) (fun key other => ?_)
    (Document.display?_show_self v field (Document.contains_of_isElement element))
    fun shown => Document.show_of_display? field shown
  refine Document.display?_show _ _ (.inr fun same => other ?_)
  rw [← same, target_eq]

/-- A write has been received by the component at the node. -/
theorem of_receives {child : ComponentId} (here : base.componentAt? x = some child)
    (receives : base.Receives child b.target v s t) : base.Lands id i target x b v s t := by
  obtain ⟨c, found, rfl, neat⟩ := orderly.neat firm bound
  have target_eq : b.target = d.target := (congrArg Binding.target still : b.still.target = d.still.target)
  have at_ : t.componentAt? x = some child := (receives.continues.componentAt? x).trans here
  refine {
    continues := receives.continues
    passes := .of_confines orderly firm bound here (target_eq ▸ receives.confines)
    own := receives.confines.others id (orderly.not_reaches_back firm ⟨i, d.target, x, d, bound, here⟩)
    bears := fun free same => ⟨fun plain => ?_, fun other there => ?_⟩
    logs := fun bears => receives.logs (bears.fed child ((continues.componentAt? x).trans here)) }
  · cases plain.1.symm.trans at_
  · cases at_.symm.trans there
    exact receives.settles (target_eq ▸ free child here) same

end Lands

/-- If the binding is marked, all bindings of its target at its node are. -/
theorem Marked.of_bound? {child : ComponentId} (orderly : base.Orderly) (firm : base.Firm)
    (continues : base.Continues s) (here : base.componentAt? x = some child)
    (bound : s.bound? id i target = some (x, b)) (marked : b.updating = true) : base.Marked s child target := by
  intro whose j y k held at_
  obtain ⟨e, found, rfl⟩ := componentAt?_spec here
  obtain ⟨e', found', same⟩ := componentAt?_spec at_
  cases found.symm.trans found'
  subst same
  obtain ⟨_, before, -⟩ := continues.course.bound?_of (by decide) bound
  obtain ⟨_, before', -⟩ := continues.course.bound?_of (by decide) held
  obtain ⟨rfl, rfl⟩ := orderly.apart firm before before'
  cases bound.symm.trans held
  exact marked

/-- A component to which a neat binding leads declares its target. -/
theorem Neat.declaring? {c : Component κ} {child : ComponentId} (neat : base.Neat c x d) (continues : base.Continues s)
    (field : d.target ≠ textTarget) (here : s.componentAt? x = some child) : s.declaring? x d.target = some child := by
  have before := (continues.componentAt? x).symm.trans here
  obtain ⟨e, found, -⟩ := componentAt?_spec before
  obtain ⟨q, known⟩ : ∃ q, e.schema.get? d.target = some q :=
    Option.isSome_iff_exists.mp (neat.declared field child before e found)
  have declared : base.Declares child q := ⟨e, found, by rw [Schema.name_of_get? known]; exact known⟩
  obtain ⟨e', there, own⟩ := continues.declares.mpr declared
  refine Option.filter_eq_some_iff.mpr ⟨here, ?_⟩
  rw [there, Option.any_some, Schema.contains]
  rw [Schema.name_of_get? known] at own
  exact Option.isSome_iff_exists.mpr ⟨q, own⟩

end Scene

/-- A value that is put into the target of a marked binding. -/
theorem Act.wp_assign {base : Scene κ} {id : ComponentId} {i : Nat} {target : String} {x : NodeId} {b d m : Binding}
    {v : Value} {p : Point κ σ} (orderly : base.Orderly) (firm : base.Firm)
    (bound : base.bound? id i target = some (x, d)) (still : b.still = d.still) (continues : base.Continues p.scene)
    (there : p.scene.bound? id i target = some (x, m)) (marked : m.updating = true) :
    (Act.assign x b v : Act κ _).wp (Feeding σ base)
      (fun _ q => base.Lands id i target x b v p.scene q.scene) p := by
  obtain ⟨c, found, same, neat⟩ := orderly.neat firm bound
  have target_eq : b.target = d.target := (congrArg Binding.target still : b.still.target = d.still.target)
  unfold Act.assign
  rw [wp_bind, wp_scene, wp_ite]
  split
  · next text => exact ⟨trivial, fun _ => .of_setText orderly firm bound still continues text⟩
  · next field =>
    cases here : p.scene.componentAt? x with
    | some child =>
      have declaring : p.scene.declaring? x b.target = some child := by
        rw [target_eq] at field ⊢
        exact neat.declaring? continues field here
      have at_ := (continues.componentAt? x).symm.trans here
      rw [declaring]
      refine ⟨trivial, fun r q after => ⟨trivial, fun _ => ?_⟩⟩
      refine .of_receives orderly firm bound still continues at_ (after.2 continues ⟨rfl, ?_, ?_⟩)
      · exact ⟨id, i, target, x, d, bound, at_⟩
      · rw [target_eq, same]
        exact .of_bound? orderly firm continues at_ there marked
    | none =>
      have undeclared : p.scene.declaring? x b.target = none := by rw [Scene.declaring?, here]; rfl
      rw [undeclared]
      dsimp only
      rw [wp_ite]
      split
      · next element =>
        exact ⟨trivial, fun _ => .of_show orderly firm bound still continues field ⟨here, by rwa [if_neg field]⟩⟩
      · next bare =>
        refine ⟨continues, Std.Refl.refl _, rfl, fun _ _ => ⟨fun plain => ?_, fun child there => ?_⟩, fun _ => .refl _⟩
        · exact absurd plain.2 (by rwa [if_neg field])
        · cases here.symm.trans there

end LiveTree
