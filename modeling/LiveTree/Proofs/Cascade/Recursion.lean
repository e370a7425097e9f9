import LiveTree.Proofs.Cascade.Acts
import LiveTree.Proofs.Listening.Bindings

/-! The one way in which a cascade does not end without code of a consumer. A binding is marked while a
value travels through it, and not while the value is computed. If the expression calls the library's
method for bindings with that same expression and its own place, then to push the binding is to put a
new one there, which is not marked either and is pushed at once. Each round leaves all that it depends
on as it was: the expression, the values of its arguments and the place. So no round is answered. -/
namespace LiveTree
variable {κ σ α : Type}

theorem BindingTree.find?_eq (t : BindingTree) (p : Site → Bool) : t.find? p = t.sites.toList.findIdx? p := by
  rw [find?, toList, List.findIdx?_eq_fst_find?_zipIdx, List.find?_map, Option.map_map]
  rfl

/-- Bindings come and go, and the sites are found as before. -/
theorem BindingTree.find?_modifySite (t : BindingTree) (i : Nat) {f : Site → Site} {p : Site → Bool}
    (same : ∀ site, p (f site) = p site) : (t.modifySite i f).find? p = t.find? p := by
  have kept := Arena.map_toList_modify t.sites i same
  have by_image (l : List Site) : l.findIdx? p = (l.map p).findIdx? id := by
    rw [List.findIdx?_map, Function.id_comp]
  rw [find?_eq, find?_eq, by_image, by_image, modifySite, kept]

namespace Component
variable {c : Component κ} {d e : Document} {expression target stableId : String}

def place? (c : Component κ) (stableId : String) : Option (Nat × NodeId) := do
  let site ← c.site? stableId
  let t ← c.bindings
  (t.site? site).map fun y => (site, y.node)

def argument (c : Component κ) : Argument → Value
  | .property path => c.follow path
  | .literal v => v

/-- What the library's method for bindings is called with by an expression that calls it. -/
def binds? (c : Component κ) (expression : String) : Option (List String) := do
  let token ← Token.read? (if Token.hasStart expression then expression else "[[" ++ expression ++ "]]")
  match token.source with
  | .call method arguments =>
    match c.definition.method? method with
    | some (.service .addBinding) => some ([0, 1, 2].map (Act.textArgument (arguments.map c.argument)))
    | _ => none
  | _ => none

theorem place?_eq_some {site : Nat} {x : NodeId} : c.place? stableId = some (site, x) ↔
    c.site? stableId = some site ∧ ∃ t y, c.bindings = some t ∧ t.site? site = some y ∧ y.node = x := by
  simp only [place?, Option.bind_eq_bind, Option.bind_eq_some_iff, Option.map_eq_some_iff, Prod.mk.injEq]
  constructor
  · rintro ⟨_, resolved, t, tree, y, here, rfl, rfl⟩
    exact ⟨resolved, t, y, tree, here, rfl⟩
  · rintro ⟨resolved, t, y, tree, here, rfl⟩
    exact ⟨_, resolved, t, tree, y, here, rfl, rfl⟩

theorem place?_modifySite (c : Component κ) (i : Nat) {f : Site → Site}
    (same : ∀ site, (f site).node = site.node ∧ (f site).stableId = site.stableId) (stableId : String) :
    (c.modifyBindings fun t => t.modifySite i f).place? stableId = c.place? stableId := by
  unfold place? site? modifyBindings
  cases c.bindings with
  | none => rfl
  | some t =>
    have ids : (t.modifySite i f).byStableId? stableId = t.byStableId? stableId :=
      t.find?_modifySite i fun site => by rw [(same site).2]
    have nodes (x : NodeId) : (t.modifySite i f).byNode? x = t.byNode? x :=
      t.find?_modifySite i fun site => by rw [(same site).1]
    have node (j : Nat) : ((t.modifySite i f).site? j).map Site.node = (t.site? j).map Site.node := by
      rw [BindingTree.site?_modifySite]
      split
      · rw [Option.map_map]
        exact congrArg (Option.map · _) (funext fun site => (same site).1)
      · rfl
    simp only [Option.map_some, Option.bind_eq_bind, Option.bind_some, ids, nodes]
    refine Option.bind_congr fun j _ => ?_
    simpa only [Option.map_map, Function.comp_def] using congrArg (Option.map (Prod.mk j)) (node j)

theorem binds?_eq_some {texts : List String} (binds : c.binds? expression = some texts) :
    ∃ token method arguments,
      Token.read? (if Token.hasStart expression then expression else "[[" ++ expression ++ "]]") = some token ∧
      token.source = .call method arguments ∧ c.definition.method? method = some (.service .addBinding) ∧
      [0, 1, 2].map (Act.textArgument (arguments.map c.argument)) = texts := by
  obtain ⟨token, read, binds⟩ := Option.bind_eq_some_iff.mp binds
  split at binds
  · next method arguments source =>
    split at binds
    · next known => exact ⟨token, method, arguments, read, source, known, Option.some.inj binds⟩
    · cases binds
  · cases binds

/-- The expression calls the library's method for that expression, and its place is there. -/
structure Winds (c : Component κ) (d : Document) (expression target stableId : String) : Prop where
  ready : c.bindingsReady = true
  place : (c.place? stableId).any (fun y => d.contains y.2) = true
  call : c.binds? expression = some [expression, target, stableId]

namespace Winds

theorem modifySite (winds : c.Winds d expression target stableId) (i : Nat) {f : Site → Site}
    (same : ∀ site, (f site).node = site.node ∧ (f site).stableId = site.stableId) :
    (c.modifyBindings fun t => t.modifySite i f).Winds d expression target stableId :=
  ⟨winds.ready, by rw [place?_modifySite c i same]; exact winds.place, winds.call⟩

theorem rebound (winds : c.Winds d expression target stableId) : c.rebound.Winds d expression target stableId :=
  ⟨winds.ready, winds.place, winds.call⟩

theorem of_size (winds : c.Winds d expression target stableId) (size : e.size = d.size) :
    c.Winds e expression target stableId := by
  have same (x : NodeId) : e.contains x = d.contains x := by
    rw [Bool.eq_iff_iff, Document.contains_iff, Document.contains_iff, size]
  exact ⟨winds.ready, by simpa only [same] using winds.place, winds.call⟩

end Winds
end Component

def Scene.Winds (s : Scene κ) (id : ComponentId) (expression target stableId : String) : Prop :=
  ∃ c, s.component? id = some c ∧ c.Winds s.document expression target stableId

theorem Scene.Winds.modify {s : Scene κ} {id : ComponentId} {expression target stableId : String}
    (winds : s.Winds id expression target stableId) {f : Component κ → Component κ}
    (kept : ∀ c : Component κ, c.Winds s.document expression target stableId →
      (f c).Winds s.document expression target stableId) :
    (s.modify id f).Winds id expression target stableId := by
  obtain ⟨c, found, winds⟩ := winds
  exact ⟨f c, by rw [component?_modify, if_pos rfl, found, Option.map_some], kept c winds⟩

def Winding (σ : Type) (id : ComponentId) (expression target stableId : String) : Contract κ σ where
  given _ _ := True
  safe _ _ := True
  before call p := ∃ arguments, call = .service .addBinding id arguments ∧
    [0, 1, 2].map (Act.textArgument arguments) = [expression, target, stableId] ∧
      p.scene.Winds id expression target stableId
  after _ _ _ _ := False

namespace Act
variable {id : ComponentId} {expression target stableId : String} {p : Point κ σ} {token : Token}

/-- The first call that an act makes, and the scene it makes it in. -/
def first? : Act κ α → Scene κ → Option (Call κ × Scene κ)
  | done _, _ => none
  | read next, s => (next s).first? s
  | put s next, _ => next.first? s
  | call c _, s => some (c, s)

theorem run_eq_none {answer : (c : Call κ) → World κ σ → Option (c.Answer × World κ σ)} {m : Act κ α}
    {w : World κ σ} {c : Call κ} {s : Scene κ} (first : m.first? w.scene = some (c, s))
    (unanswered : answer c { w with scene := s } = none) : m.run answer w = none := by
  induction m generalizing w with
  | done a => cases first
  | read next ih => exact ih _ first unanswered
  | put t next ih => exact ih (w := { w with scene := t }) first unanswered
  | call d next ih =>
    cases first
    rw [run, unanswered]

theorem wp_evaluate_winding (winds : p.scene.Winds id expression target stableId)
    (read : Token.read? (if Token.hasStart expression then expression else "[[" ++ expression ++ "]]") = some token)
    {Q : Value → Point κ σ → Prop} :
    (evaluate id token.source).wp (Winding σ id expression target stableId) Q p := by
  obtain ⟨c, found, winds⟩ := winds
  obtain ⟨token', method, arguments, read', source, known, texts⟩ := Component.binds?_eq_some winds.call
  cases read.symm.trans read'
  have values (g : Argument → Value) (same : ∀ a, g a = c.argument a) :
      arguments.map g = arguments.map c.argument := List.map_congr_left fun a _ => same a
  rw [source, evaluate, wp_bind, wp_scene, wp_bind, invoke, wp_bind, wp_scene]
  simp only [found, known, Option.bind_some]
  refine ⟨⟨_, rfl, ?_, c, found, winds⟩, fun _ _ never => never.elim⟩
  rw [values _ fun a => ?_]
  · exact texts
  · cases a with
    | property path => simp [Component.argument, Scene.follow, found]
    | literal v => rfl

theorem wp_push_winding (winds : p.scene.Winds id expression target stableId)
    (read : Token.read? (if Token.hasStart expression then expression else "[[" ++ expression ++ "]]") = some token)
    {site : Nat} {x : NodeId} {b : Binding} (bound : p.scene.bound? id site target = some (x, b))
    (source : b.source = token.source) (free : b.updating = false) (there : p.scene.document.contains x = true)
    {Q : Unit → Point κ σ → Prop} :
    (push id site target).wp (Winding σ id expression target stableId) Q p := by
  unfold push
  rw [wp_bind, wp_scene]
  extract_lets found
  have known : found = some (x, b) := bound
  rw [known]
  dsimp -zeta only
  extract_lets ready marked
  have pushing (u : Unit) {q : Point κ σ} (winds : q.scene.Winds id expression target stableId) :
      (ready u).wp (Winding σ id expression target stableId) Q q := by
    refine (wp_bind _ _).mpr ?_
    rw [source]
    exact wp_evaluate_winding winds read
  have marking (u : Unit) : (marked u).wp (Winding σ id expression target stableId) Q p := by
    refine (wp_bind _ _).mpr ⟨trivial, fun _ => pushing () ?_⟩
    exact winds.modify fun c winds => winds.modifySite site fun _ => ⟨rfl, rfl⟩
  have quiet : p.scene.changeEvent? x b = none := by
    obtain ⟨c, -, winds⟩ := winds
    obtain ⟨token', method, arguments, read', call, -⟩ := Component.binds?_eq_some winds.call
    cases read.symm.trans read'
    rw [Scene.changeEvent?, source, call]
  simp only [free, there, Bool.not_true, Bool.or_self, Bool.false_eq_true, ↓reduceIte, wp_ite]
  split
  · split
    · rw [wp_bind, installWriteBack, wp_bind, wp_scene, quiet, ite_self]
      exact marking ()
    · exact marking ()
  · exact pushing () winds

theorem wp_uninstall_winding (b : Option Binding) {Q : Unit → Point κ σ → Prop}
    (kept : ∀ q : Point κ σ, (∀ id, q.scene.component? id = p.scene.component? id) →
      q.scene.document.size = p.scene.document.size → Q () q) :
    (each b.toList uninstallWriteBack).wp (Winding σ id expression target stableId) Q p := by
  cases b with
  | none => exact kept p (fun _ => rfl) rfl
  | some b =>
    rw [Option.toList_some, each, wp_actBind, uninstallWriteBack]
    cases b.listener with
    | none => exact kept p (fun _ => rfl) rfl
    | some l => exact ⟨trivial, fun _ => kept _ (fun _ => rfl) (Document.size_modify _ _ _)⟩

theorem wp_addBinding_winding (winds : p.scene.Winds id expression target stableId) {Q : Bool → Point κ σ → Prop} :
    (addBinding id expression target stableId).wp (Winding σ id expression target stableId) Q p := by
  obtain ⟨c, found, winding⟩ := winds
  obtain ⟨token, -, -, read, -⟩ := Component.binds?_eq_some winding.call
  obtain ⟨⟨site, x⟩, place, there⟩ := (Option.any_eq_true _ _).mp winding.place
  obtain ⟨resolved, t, y, tree, here, rfl⟩ := Component.place?_eq_some.mp place
  rw [addBinding]
  dsimp only
  simp only [read]
  refine wp_withComponent (fun d found' => ?_) fun out => by cases out.symm.trans found
  cases found'.symm.trans found
  simp only [resolved]
  let b : Binding := .ofToken target token (Binding.sourceProperty? c.schema token.source)
  let e : Component κ := (c.modifyBindings fun t => t.insert site b).rebound
  refine (wp_bind _ _).mpr ⟨trivial, fun _ => (wp_bind _ _).mpr (wp_uninstall_winding _ fun q same size => ?_)⟩
  have now : q.scene.component? id = some e := by
    rw [same]
    exact (Scene.component?_modify _ _ _ _).trans (by rw [if_pos rfl, found]; rfl)
  have winds : e.Winds p.scene.document expression target stableId := by
    refine Component.Winds.rebound (winding.modifySite site ?_)
    exact fun _ => ⟨rfl, rfl⟩
  have bound : q.scene.bound? id site target = some (y.node, b) := by
    have trees : e.bindings = some (t.insert site b) := by
      rw [show e.bindings = c.bindings.map fun t => t.insert site b from rfl, tree, Option.map_some]
    have own : ((t.insert site b).site? site).map Site.node = some y.node := by
      rw [BindingTree.insert, BindingTree.site?_modifySite, if_pos rfl, here]
      rfl
    have held : (t.insert site b).binding? site target = some b := by
      rw [BindingTree.binding?_insert, if_pos ⟨rfl, rfl⟩, here, Option.map_some]
    obtain ⟨z, there, node⟩ := Option.map_eq_some_iff.mp own
    simp [Scene.bound?, now, trees, there, node, held]
  rw [winding.ready]
  refine (wp_bind _ _).mpr (wp_push_winding ⟨e, now, winds.of_size size⟩ read bound rfl rfl ?_)
  rwa [Document.contains_iff, size, ← Document.contains_iff]

end Act

theorem Winding.meets (env : Environment κ σ) (id : ComponentId) (expression target stableId : String) :
    env.Meets (Winding σ id expression target stableId) := by
  rintro c p ⟨arguments, rfl, texts, winds⟩
  obtain ⟨first, second, third⟩ : Act.textArgument arguments 0 = expression ∧
      Act.textArgument arguments 1 = target ∧ Act.textArgument arguments 2 = stableId := by simpa using texts
  refine (Act.wp_bind _ _).mpr ?_
  rw [first, second, third]
  exact Act.wp_addBinding_winding winds

/-- What tame scenes leave out. A binding whose expression calls the library's method for that expression and its
own place is pushed as soon as it is put there, and to push it puts another in its place: the call never ends, with
no code but the library's. -/
theorem addBinding_never_ends (env : Environment κ σ) {w : World κ σ} {id : ComponentId}
    {expression target stableId : String} (winds : w.scene.Winds id expression target stableId)
    {arguments : List Value}
    (texts : [0, 1, 2].map (Act.textArgument arguments) = [expression, target, stableId]) (fuel : Nat) :
    env.answer fuel (.service .addBinding id arguments) w = none := by
  refine Option.eq_none_iff_forall_ne_some.mpr fun ⟨a, w'⟩ answered => ?_
  have fulfils := env.meets (Winding.meets env id expression target stableId) fuel
    (.service .addBinding id arguments) ⟨[], w⟩ ⟨arguments, rfl, texts, winds⟩
  exact (fulfils (Along.iff_splits.mpr fun _ _ _ _ => trivial)).2 a w' ((env.result_trace _ _ _).trans answered)

def recursion : String := "addPropertyBinding(expr,'label','out')"

def winding : Script Empty Unit Unit := do
  let _ ← Script.request (.register (Declaration.define {
    tag := "x-a"
    properties := [.ofKind "expr" .string]
    template := some ("<p id=\"out\" label=\"[[" ++ recursion ++ "]]\"></p>") }))
  let x ← Script.request (.createElement "x-a")
  Script.request (.appendChild Document.root x)

def Call.binding? : Call κ → Option (ComponentId × List Value)
  | .service .addBinding id arguments => some (id, arguments)
  | _ => none

theorem Call.eq_of_binding? {c : Call κ} {id : ComponentId} {arguments : List Value}
    (same : c.binding? = some (id, arguments)) : c = .service .addBinding id arguments := by
  unfold binding? at same
  split at same
  · cases same
    rfl
  · cases same

theorem addBinding_never_ends_winding : ∃ w,
    silent.play 30 winding ⟨.ofConfig { changeEvents := false } none, ()⟩ = some ((), w) ∧
      ∀ fuel, silent.answer fuel (.write ⟨0⟩ "expr" (.string recursion) .code) w = none := by
  have answered : (silent.play 30 winding ⟨.ofConfig { changeEvents := false } none, ()⟩).bind (fun r =>
      ((Act.write ⟨0⟩ "expr" (.string recursion) .code).first? r.2.scene).bind fun y =>
        y.1.binding?.bind fun call => (y.2.component? ⟨0⟩).map fun c =>
          decide (call.1 = ⟨0⟩ ∧ c.bindingsReady = true ∧
            (c.place? "out").any (fun at_ => y.2.document.contains at_.2) = true ∧
            c.binds? recursion = some [recursion, "label", "out"] ∧
            [0, 1, 2].map (Act.textArgument call.2) = [recursion, "label", "out"])) = some true := by
    decide +kernel
  obtain ⟨⟨_, w⟩, played, answered⟩ := Option.bind_eq_some_iff.mp answered
  obtain ⟨⟨call, s⟩, first, answered⟩ := Option.bind_eq_some_iff.mp answered
  obtain ⟨⟨id, arguments⟩, named, answered⟩ := Option.bind_eq_some_iff.mp answered
  obtain ⟨c, found, same⟩ := Option.map_eq_some_iff.mp answered
  obtain ⟨rfl, ready, place, binds, texts⟩ := of_decide_eq_true same
  cases Call.eq_of_binding? named
  refine ⟨w, played, fun fuel => ?_⟩
  cases fuel with
  | zero => rfl
  | succ fuel =>
    refine Act.run_eq_none first ?_
    exact addBinding_never_ends silent ⟨c, found, ready, place, binds⟩ texts fuel

end LiveTree
