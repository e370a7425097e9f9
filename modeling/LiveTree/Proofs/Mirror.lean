import LiveTree.Proofs.Contract.Outline
import LiveTree.Proofs.Expansion
import LiveTree.Proofs.Mirror.Abiding
import LiveTree.Proofs.Readiness

/-! The binding tree mirrors the template. It has a site for each node of it, in the same order and with the
same links, and knows the elements by the names that the refs of the component have for them. -/
namespace LiveTree
variable {κ σ α : Type}

def Step.Disturbs : Step κ σ → Prop
  | .answer (.callback ..) before _ after => ¬before.scene.document.Keeps after.scene.document
  | _ => False

def Sparing (σ : Type) (id : ComponentId) : Contract κ σ where
  given _ x := ¬x.Disturbs
  safe _ _ := True
  before _ _ := True
  after _ p _ q := (∃ F, p.scene.Alike F q.scene) ∧ p.scene.Abides id q.scene

def Scene.Hosts (id : ComponentId) (config : Config) (s : Scene κ) : Prop :=
  s.config = config ∧ ∃ c, s.component? id = some c

theorem Scene.Hosts.of_alike {id : ComponentId} {config : Config} {F : List Field} {s t : Scene κ}
    (hosts : s.Hosts id config) (alike : s.Alike F t) : t.Hosts id config := by
  obtain ⟨same, c, found⟩ := hosts
  obtain ⟨d, there, -⟩ := alike.component id c found
  exact ⟨alike.config.trans same, d, there⟩

instance : IsPreorder (Scene κ) fun s t => ∃ F, s.Alike F t where
  refl s := ⟨[], .refl s⟩
  trans _ _ _ := fun ⟨F, first⟩ ⟨G, second⟩ =>
    ⟨F ++ G, (first.mono fun _ => List.mem_append_left _).trans (second.mono fun _ => List.mem_append_right _)⟩

namespace Sparing
variable {id : ComponentId} {config : Config} {p : Point κ σ}

theorem takes {x : Step κ σ} {R : Prop} (rest : R) : (Sparing σ id).Takes p.past x R := ⟨trivial, fun _ => rest⟩

/-- What an act leaves alone is still there afterwards. -/
theorem of_abides {m : Act κ α} (abides : m.Abides id) (named : p.scene.Names id) :
    m.wp (Sparing σ id) (fun _ q => q.scene.Names id) p := by
  have kept : m.wp (Sparing σ id) (fun _ q => p.scene.Abides id q.scene) p := by
    refine Act.wp_of_contract (fun _ _ _ => trivial) (fun _ _ _ => trivial) (fun _ _ _ => trivial) ?_ (abides σ p)
    rintro _ _ _ _ - ⟨-, kept⟩
    exact kept
  exact Act.wp_mono _ (fun _ q abides => abides named) kept

theorem hosts_of_touches {F : List Field} {C : List Call.Kind} {m : Act κ α} (touches : m.Touches F C)
    (hosts : p.scene.Hosts id config) : m.wp (Sparing σ id) (fun _ q => q.scene.Hosts id config) p :=
  Act.wp_of_within (I := fun q => q.scene.Hosts id config) (fun _ _ hosts alike => takes (hosts.of_alike alike))
    (fun _ _ hosts _ => ⟨trivial, fun _ _ ⟨⟨_, alike⟩, _⟩ => takes (hosts.of_alike alike)⟩) hosts
    (touches p.scene)

/-- Acts whose only calls are consumer code touch no node if they do not edit the document. -/
theorem of_touches {F : List Field} {C : List Call.Kind} {m : Act κ α} (touches : m.Touches F C)
    (out : .document ∉ F) (calls : ∀ c ∈ C, c = .callback ∨ c = .hook) (hosts : p.scene.Hosts id config) :
    m.wp (Sparing σ id) (fun _ q => q.scene.Hosts id config ∧ p.scene.document.Follows q.scene.document ∧
      p.scene.document.Keeps q.scene.document) p := by
  refine Act.wp_of_within (I := fun q => q.scene.Hosts id config ∧
    p.scene.document.Follows q.scene.document ∧ p.scene.document.Keeps q.scene.document) ?_ ?_
    ⟨hosts, .refl _, .refl _⟩ (touches p.scene)
  · rintro q t ⟨hosts, follows, keeps⟩ alike
    have document : t.document = q.scene.document := alike.view .document out
    refine takes ⟨hosts.of_alike alike, ?_⟩
    rw [Point.scene_change, document]
    exact ⟨follows, keeps⟩
  · rintro c q ⟨hosts, follows, keeps⟩ kind
    refine ⟨trivial, fun a r ⟨⟨G, alike⟩, _⟩ => ⟨trivial, fun given => ?_⟩⟩
    refine ⟨hosts.of_alike alike, follows.trans alike.document, keeps.trans ?_⟩
    cases c with
    | callback k o => exact Classical.not_not.mp given
    | _ => rcases calls _ kind with other | other <;> cases other

theorem fosters : Fosters (Sparing σ id) (fun p : Point κ σ => p.scene.Hosts id config) fun _ => True where
  edit _ _ hosts := takes hosts
  own _ _ hosts := takes hosts
  instantiate _ _ d x owner hosts _ _ := of_touches (.instantiate x d owner) (by decide) (by decide) hosts

/-- Calls keep to the contract, as they are answered in the outline of an act. -/
theorem fulfils_answer (env : Environment κ σ) (fuel : Nat) (c : Call κ) (p : Point κ σ) :
    (Sparing σ id).Fulfils p ⟨[], env.answer fuel c p.world⟩ ((Sparing σ id).after c p) := by
  refine fun _ => ⟨trivial, fun a w (answered : env.answer fuel c p.world = some (a, w)) => ⟨?_, ?_⟩⟩
  · have alike (F : List Field) (s t : Scene κ) (alike : s.Alike F t) :
        (⊤ : Scene κ → Scene κ → Prop) s t ∧ ∃ F, s.Alike F t := ⟨trivial, F, alike⟩
    exact env.answer_leads (Call.leads_of_alike alike) (fun r => (Act.Touches.request r).leads alike) answered
  · exact env.answer_leads Act.Abides.call Act.Abides.request answered

end Sparing

section Expansion
variable {id : ComponentId} {p : Point κ σ}

/-- The step that expands a component gives it the refs and the binding tree, and nothing that comes after it
changes what these have names for. -/
theorem wp_applied_names {config : Config} {layout : Layout} {t : BindingTree} (light : List NodeId) (x : NodeId)
    (names : ∀ name y, name ≠ "root" → name ≠ "content" → layout.refs.get? name = some y →
      t.named? name = some y)
    (hosts : p.scene.Hosts id config) :
    (do
      let text ← Act.placeLight light layout.content t
      Act.modify id fun c : Component κ => { c with
        stage := .expanded
        bindings := some t
        boundProperties := t.dependencies
        refs := layout.refs
        content := some layout.content
        lightText := text
        barrier := c.barrier.hold }
      Act.awaitNested id x
      Act.ask (.release id)).wp (Sparing σ id) (fun _ q => q.scene.Names id) p := by
  refine (Act.wp_bind _ _).mpr (Act.wp_mono _ ?_ (Sparing.hosts_of_touches (.placeLight _ _ _) hosts))
  rintro text q ⟨-, c, found⟩
  refine (Act.wp_bind _ _).mpr ((Act.wp_modify _ _).mpr (Sparing.takes ?_))
  have staged : Stage.expanded ≠ .created := nofun
  refine Sparing.of_abides ?_ ⟨_, (Scene.component?_modify ..).trans (by rw [if_pos rfl, found]; rfl), staged, names⟩
  exact Act.Abides.bind (Act.Abides.of_touches (.awaitNested id x) (by decide)) fun _ => Act.Leads.ask _

/-- When a component has been expanded, it knows the nodes of its template by name in both ways. -/
theorem wp_applyTemplate_names {c : Component κ} {ms : List Markup}
    (found : p.scene.component? id = some c) (configured : c.stage = .configured)
    (sound : p.scene.document.Sound) (bound : c.node.index < p.scene.document.size)
    (read : c.definition.template.map Markup.read = some (.ok ms))
    (referable : Markup.Referable p.scene.config.stableId ms) :
    (Act.applyTemplate id).wp (Sparing σ id) (fun _ q => q.scene.Names id) p := by
  refine Act.wp_withComponent (fun c' here => ?_) fun missing => nomatch missing.symm.trans found
  cases here.symm.trans found
  rw [if_pos configured]
  have hosts : p.scene.Hosts id p.scene.config := ⟨rfl, c, found⟩
  refine (Act.wp_bind _ _).mpr (Act.wp_scene.mpr ?_)
  dsimp -zeta only
  have grown := Sparing.fosters.wp_expand id (c := c) (p.scene.document.children c.node) read
    (fun _ _ => trivial) sound bound hosts
  refine (Act.wp_bind _ _).mpr (Act.wp_mono _ ?_ grown)
  rintro _ q ⟨⟨config, e, there⟩, template, rfl, below⟩
  have prunes := Document.Prunes.foldl (fun d x => d.prunes_removeChild c.node x)
    (p.scene.document.children c.node) p.scene.document
  have apart := below.nodup (bound.trans_le prunes.size)
  rw [← config] at referable
  refine (Act.wp_bind _ _).mpr ((Act.wp_bind _ _).mpr (Act.wp_scene.mpr ?_))
  dsimp -zeta only
  refine (Act.wp_bind _ _).mpr ((Act.wp_update _).mpr (Sparing.takes ?_))
  have hosts : (p.ahead [] _).scene.Hosts id p.scene.config := ⟨config, e, there⟩
  refine wp_applied_names _ c.node (fun name y root content known => ?_) hosts
  exact BindingTree.named?_ofTemplate below.stands below.sound rfl apart referable root content known

end Expansion

/-- The binding tree of a template mirrors it: a walk from the site of the host takes each site once, in the
order of the nodes of the template, and the links between sites are those between their nodes. After the
template of a component has been applied, whose ids are distinct, whose slot is empty and which leaves the
attribute for stable ids alone, the refs of the component and the stable ids in its binding tree name the same
nodes, if nothing that the tree calls meanwhile touches the document. -/
theorem tree_mirrors_template (env : Environment κ σ) :
    (∀ (s : BindingTree.Surroundings) (host : NodeId) (template : List NodeId), s.document.Sound →
      (∀ x ∈ template, s.document.contains x = true) →
      (∀ x, s.document.isText x = true → s.document.children x = []) →
      (BindingTree.ofTemplate s host template).Mirrors s.document host template) ∧
    ∀ {config : Config} {journal : Option Journal} {store : σ} {fuel : Nat} {script : Script κ σ α}
      {x : Step κ σ}, x ∈ (env.record fuel script ⟨.ofConfig config journal, store⟩).steps →
      ∀ {w w' : World κ σ}, w.scene ∈ x.scenes → ∀ {id : ComponentId} {c : Component κ},
      w.scene.component? id = some c → c.stage = .configured → ∀ {ms : List Markup},
      c.definition.template.map Markup.read = some (.ok ms) →
      Markup.Referable w.scene.config.stableId ms → ∀ {levels : Nat},
      (∀ y ∈ (env.outline levels (Act.applyTemplate id) w).steps, ¬y.Disturbs) →
      (Act.applyTemplate id).run (env.answer levels) w = some ((), w') →
      ∃ e, w'.scene.component? id = some e ∧ ∀ name y, name ≠ "root" → name ≠ "content" →
        e.refs.get? name = some y → (e.bindings.bind fun t => t.named? name) = some y := by
  refine ⟨fun s host template sound there plain =>
    BindingTree.mirrors_ofTemplate sound host there fun x _ y _ => plain y, ?_⟩
  intro config journal store fuel script x step w w' met id c found configured ms read referable levels calm ended
  obtain ⟨placed, -⟩ := unbound_of_run env step met
  have named := wp_applyTemplate_names (p := ⟨[], w⟩) found configured placed.document (placed.inside id c found)
    read referable
  have kept : (Sparing σ id).Fulfils ⟨[], w⟩ (env.outline levels (Act.applyTemplate id) w) _ :=
    Act.fulfils (fun c p _ => Sparing.fulfils_answer env levels c p) _ named
  have result : (env.outline levels (Act.applyTemplate id) w).result = some ((), w') := by
    rw [env.result_outline, ended]
  obtain ⟨e, there, -, names⟩ := (kept (Along.iff_splits.mpr fun front y back same =>
    calm y (by rw [same]; simp))).2 () w' result
  exact ⟨e, there, names⟩

def branch : Document :=
  ([.createElement "x-a", .createElement "p", .createText "and", .createElement "q",
    .edit (.appendChild ⟨1⟩ ⟨2⟩), .edit (.appendChild ⟨2⟩ ⟨3⟩), .edit (.appendChild ⟨1⟩ ⟨4⟩)] :
      List Document.Operation).foldl (fun d o => o.apply d) .empty

def labelling : Script Empty Unit Unit := do
  let _ ← Script.request (.register (Declaration.define {
    tag := "x-a"
    template := some "<p id='a'><b></b></p><div id='c'><content></content></div>" }))
  let x ← Script.request (.createElement "x-a")
  Script.request (.appendChild Document.root x)

theorem tree_mirrors_labelling :
    (BindingTree.ofTemplate ⟨branch, "key", none, fun _ => none⟩ ⟨1⟩ [⟨2⟩, ⟨4⟩]).Mirrors branch ⟨1⟩ [⟨2⟩, ⟨4⟩] ∧
      ∃ w w' e, (Act.applyTemplate ⟨0⟩).run (silent.answer 20) w = some ((), w') ∧
        w'.scene.component? ⟨0⟩ = some e ∧ e.refs.get? "a" = some ⟨2⟩ ∧
        (e.bindings.bind fun t => t.named? "a") = some ⟨2⟩ := by
  obtain ⟨mirrored, named⟩ := tree_mirrors_template (α := Unit) silent
  refine ⟨mirrored ⟨branch, "key", none, fun _ => none⟩ ⟨1⟩ [⟨2⟩, ⟨4⟩] ?_ (by decide) fun x text => ?_, ?_⟩
  · exact (Document.Follows.foldl Document.follows_operation _ _).sound Document.sound_empty
  · have plain : ∀ i < branch.size, branch.isText ⟨i⟩ = true → branch.children ⟨i⟩ = [] := by decide
    refine List.eq_nil_iff_forall_not_mem.mpr fun c child => ?_
    rw [show branch.children x = [] from plain x.index (Document.bound_of_child child) text] at child
    cases child
  have answered : (((silent.record 20 labelling ⟨.ofConfig {} none, ()⟩).steps.flatMap Step.scenes).find?
      fun s => decide (s.stage? ⟨0⟩ = some .configured)).map (fun s =>
        (((s.component? ⟨0⟩).map fun c => (c.definition.template.map Markup.read).any fun read =>
          read.toOption.any fun ms => decide (Markup.Referable s.config.stableId ms)),
        ((Act.applyTemplate ⟨0⟩).run (silent.answer 20) ⟨s, ()⟩).map fun r =>
          (r.2.scene.component? ⟨0⟩).map fun e => e.refs.get? "a")) =
      some (some true, some (some (some ⟨2⟩))) := by decide +kernel
  obtain ⟨s, first, same⟩ := Option.map_eq_some_iff.mp answered
  obtain ⟨here, ended⟩ := Prod.mk.inj same
  obtain ⟨x, step, met⟩ := List.mem_flatMap.mp (List.mem_of_find?_eq_some first)
  have fits := List.find?_some first
  have staged := of_decide_eq_true fits
  obtain ⟨c, found, fine⟩ := Option.map_eq_some_iff.mp here
  obtain ⟨read, template, parses⟩ := (Option.any_eq_true _ _).mp fine
  obtain ⟨ms, rfl, referable⟩ : ∃ ms, read = .ok ms ∧ Markup.Referable s.config.stableId ms := by
    cases read with
    | ok ms => exact ⟨ms, rfl, of_decide_eq_true parses⟩
    | error _ => cases parses
  obtain ⟨⟨_, w'⟩, ended, same⟩ := Option.map_eq_some_iff.mp ended
  obtain ⟨e, there, ref⟩ := Option.map_eq_some_iff.mp same
  have configured : c.stage = .configured := by
    rw [Scene.stage?, found, Option.map_some] at staged
    exact Option.some.inj staged
  have calm (y : Step Empty Unit) : ¬y.Disturbs := by
    cases y with
    | answer call before a after =>
      cases call with
      | callback k o => exact k.elim
      | _ => exact id
    | _ => exact id
  obtain ⟨f, there', names⟩ := named step (w := ⟨s, ()⟩) met found configured template referable
    (fun y _ => calm y) ended
  cases there'.symm.trans there
  exact ⟨⟨s, ()⟩, w', e, ended, there, ref, names "a" ⟨2⟩ (by decide) (by decide) ref⟩

end LiveTree
