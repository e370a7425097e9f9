import LiveTree.Proofs.Contract.Invariant
import LiveTree.Proofs.Readiness.Ledger

/-! Components before their template. One that has no bindings and no methods of the consumer's can be
written to and configured, and whatever this leads to has to do with this component alone: no other is
called upon, and the nodes of the document stay where they are. -/
namespace LiveTree
variable {κ σ α : Type}

structure Definition.Silent (d : Definition κ) : Prop where
  hooks : d.hooks = {}
  methods : ∀ name k, d.method? name ≠ some (.custom k)
  capabilities : ∀ c ∈ d.capabilities, ∀ m : Moment, m.hook? c = none

theorem Definition.Silent.of_isEmpty [IsEmpty κ] (d : Definition κ) : d.Silent where
  hooks := by
    have none (k : Option κ) : k = none := Option.eq_none_iff_forall_not_mem.mpr fun k => isEmptyElim k
    obtain ⟨created, ready, attached, detached, completed, changed⟩ := d.hooks
    rw [none created, none ready, none attached, none detached, none completed, none changed]
  methods _ := isEmptyElim
  capabilities c _ m := Option.eq_none_iff_forall_not_mem.mpr fun k => isEmptyElim k

def Scene.Dormant (id : ComponentId) (s : Scene κ) : Prop :=
  ∃ c, s.component? id = some c ∧ (c.stage = .created ∨ c.stage = .configured) ∧ c.bindings = none ∧
    ∀ name k, c.definition.method? name ≠ some (.custom k)

def Call.Concerns (id : ComponentId) : Call κ → Prop
  | .write other .. | .service _ other _ => other = id
  | .apply .. => True
  | _ => False

def Field.early : List Field :=
  [.journal, .document, .values, .stage, .link, .listeners, .contexts]

instance (F : List Field) : IsPreorder (Scene κ) (Scene.Alike F) where
  refl s := .refl s
  trans _ _ _ first second := first.trans second

namespace Scene.Dormant
variable {id : ComponentId} {s t : Scene κ}

theorem of_alike {F : List Field} (alike : s.Alike F t)
    (out : ∀ f ∈ [Field.stage, .bindings, .definition], f ∉ F) (dormant : s.Dormant id) :
    t.Dormant id := by
  obtain ⟨c, found, stage, none, plain⟩ := dormant
  obtain ⟨d, there, same⟩ := alike.component id c found
  refine ⟨d, there, ?_, ?_, ?_⟩
  · rwa [show d.stage = c.stage from same.view .stage (out _ (by decide))]
  · have trees : d.bindings.map BindingTree.still = c.bindings.map BindingTree.still :=
      same.view .bindings (out _ (by decide))
    rw [none] at trees
    exact Option.map_eq_none_iff.mp trees
  · rwa [show d.definition = c.definition from same.view .definition (out _ (by decide))]

theorem stage?_ne (dormant : s.Dormant id) : s.stage? id ≠ some .expanded := by
  obtain ⟨c, found, stage, -⟩ := dormant
  rw [stage?, found, Option.map_some]
  rcases stage with early | early <;> rw [early] <;> decide

theorem not_isSettled (dormant : s.Dormant id) : s.isSettled id = false := by
  obtain ⟨c, found, stage, -⟩ := dormant
  rw [isSettled, found, Option.any_some, Component.isReady]
  rcases stage with early | early <;> rw [early] <;> rfl

theorem site?_eq_none (dormant : s.Dormant id) {c : Component κ} (found : s.component? id = some c)
    (stableId : String) : c.site? stableId = none := by
  obtain ⟨d, here, -, none, -⟩ := dormant
  cases here.symm.trans found
  rw [Component.site?, none]
  rfl

end Scene.Dormant

def Act.Slumbers (id : ComponentId) (s : Scene κ) (m : Act κ α) : Prop :=
  m.Upholds (Scene.Dormant id) (Scene.Alike Field.early) (Call.Concerns id) s

namespace Act.Slumbers
variable {id : ComponentId} {s : Scene κ} {p : Property}

theorem composes : Composes fun {_} (m : Act κ _) => m.Slumbers id s := Upholds.composes

theorem of_touches {F : List Field} {C : List Call.Kind} {m : Act κ α} (touches : m.Touches F C)
    (fields : ∀ f ∈ F, f ∈ Field.early ∧ f ≠ .stage) (calls : ∀ k ∈ C, k = .apply) :
    m.Slumbers id s := by
  refine Upholds.of_within (fun t u dormant alike => ?_) (fun c kind => ?_) touches
  · refine ⟨dormant.of_alike alike fun f inside member => ?_, alike.mono fun f inside => (fields f inside).1⟩
    have none : ∀ f ∈ [Field.stage, .bindings, .definition], f ∈ Field.early → f = .stage := by decide
    exact (fields f member).2 (none f inside (fields f member).1)
  · cases c with
    | apply f arguments => trivial
    | callback k o => cases o <;> exact nomatch calls _ kind
    | _ => exact nomatch calls _ kind

theorem write_call (name : String) (v : Value) (origin : Origin) :
    (Act.ask (.write id name v origin) : Act κ _).Slumbers id s := Upholds.ask _ rfl

theorem noteFailure (name : String) (failure : Failure) :
    (Act.noteFailure id name failure : Act κ _).Slumbers id s :=
  of_touches (.noteFailure _ _ _) (by decide) (by decide)

theorem invoke (name : String) (arguments : List Value) :
    (Act.invoke id name arguments : Act κ _).Slumbers id s := by
  refine Upholds.sceneBind fun t dormant _ => ?_
  obtain ⟨c, found, -, -, plain⟩ := dormant
  split
  · next k named =>
    rw [found, Option.bind_some] at named
    exact absurd named (plain name k)
  · exact Upholds.ask _ rfl
  · exact .pure _

theorem validated (old v : Value) : (Act.validated id p old v : Act κ _).Slumbers id s := by
  unfold Act.validated
  split
  · exact composes.pure _
  · refine composes.bind (invoke _ _) fun r => ?_
    split
    · exact composes.pure _
    · exact composes.bind (noteFailure _ _) fun _ => composes.pure _

/-- Nobody is told of a change, because the component is not settled. -/
theorem spread (c : Component κ) (slot : Slot) (old v : Value) (origin : Origin) :
    (Act.spread id p c slot old v origin).Slumbers id s := by
  unfold Act.spread
  extract_lets bound written pushed announced told
  have telling (r) : (told r).Slumbers id s := by
    refine Upholds.sceneBind fun t dormant _ => ?_
    rw [dormant.not_isSettled, if_neg (by decide)]
    exact .pure _
  exact composes.ite (composes.bind (of_touches (.reflect _ _ _) (by decide) (by decide)) telling)
    (telling ())

theorem modifySlot (name : String) {f : Slot → Slot} (keeps : ∀ slot, (f slot).notify = slot.notify) :
    (Act.modify id fun c : Component κ => c.modifySlot name f).Slumbers id s :=
  of_touches (.modifyValue id name keeps) (by decide) (by decide)

theorem write (name : String) (v : Value) (origin : Origin) :
    (Act.write id name v origin : Act κ _).Slumbers id s := by
  refine composes.write (fun _ => modifySlot name fun _ => rfl) fun p => ?_
  refine composes.attempt (fun _ => of_touches (.refuse _ _) (by decide) (by decide))
    (fun _ => validated _ _) fun old x => ?_
  exact composes.commit (modifySlot p.name fun _ => rfl) fun c slot => spread c slot old x origin

theorem addBinding (expression target stableId : String) :
    (Act.addBinding id expression target stableId : Act κ _).Slumbers id s := by
  unfold Act.addBinding
  extract_lets text
  split
  · exact composes.pure _
  · refine Upholds.withComponent fun t c dormant _ found => ?_
    rw [dormant.site?_eq_none found]
    exact .pure _

theorem removeBinding (expression target stableId : String) :
    (Act.removeBinding id expression target stableId : Act κ _).Slumbers id s := by
  refine Upholds.withComponent fun t c dormant _ found => ?_
  rw [dormant.site?_eq_none found]
  exact .pure _

theorem service (x : Service) (arguments : List Value) :
    (Act.service x id arguments : Act κ _).Slumbers id s := by
  cases x with
  | log level =>
    exact composes.bind (of_touches (.log _ _ _) (by decide) (by decide)) fun _ => composes.pure _
  | localize =>
    exact composes.bind (of_touches (.localize _ _ _) (by decide) (by decide)) fun _ => composes.pure _
  | addMessages =>
    unfold Act.service
    extract_lets text
    dsimp only
    split
    · refine composes.sceneBind fun t => composes.bind (write_call _ _ _) fun r => ?_
      split <;> exact composes.pure _
    · exact composes.pure _
  | addBinding => exact composes.bind (addBinding _ _ _) fun _ => composes.pure _
  | removeBinding => exact composes.bind (removeBinding _ _ _) fun _ => composes.pure _

theorem configureAttribute (x : NodeId) (schema : Schema) (attr : String) :
    (Act.configureAttribute id x schema attr : Act κ _).Slumbers id s := by
  have blank : (Act.edit (·.setAttribute x attr "") : Act κ Unit).Slumbers id s :=
    of_touches (F := [.document]) (C := []) (.mark (by simp) (by simp) (by simp) (by decide)) (by decide) (by decide)
  refine composes.sceneBind fun t => ?_
  split
  · refine composes.ite (composes.pure _) ?_
    extract_lets blanked v written
    have later (r) : (written r).Slumbers id s :=
      composes.ite (composes.bind (write_call _ _ _) fun _ => composes.pure _) (composes.pure _)
    exact composes.ite (composes.bind blank later) (later ())
  · exact composes.pure _

theorem setConfigured : (Act.setStage id .configured : Act κ Unit).Slumbers id s := by
  refine Upholds.update fun t dormant _ => ?_
  obtain ⟨c, found, -, none, plain⟩ := dormant
  refine ⟨⟨{ c with stage := .configured }, ?_, .inr rfl, none, plain⟩,
    .modify t id fun c => .put c .stage .configured (by decide)⟩
  rw [Scene.component?_modify, if_pos rfl, found, Option.map_some]

theorem pushFeeds : (Act.pushFeeds id : Act κ _).Slumbers id s := by
  refine composes.withComponent fun c => ?_
  split
  · refine composes.each _ fun f => composes.sceneBind fun t => composes.ite ?_ (composes.pure _)
    exact composes.bind (write_call _ _ _) fun _ => composes.pure _
  · exact composes.pure _

theorem resolveContext : (Act.resolveContext id : Act κ _).Slumbers id s := by
  have linked (f : Component κ → Option Link) :
      (Act.modify id fun c : Component κ => { c with link := f c }).Slumbers id s :=
    of_touches (F := [.link]) (C := []) (.modify fun c => .put c .link (f c) (by decide)) (by decide) (by decide)
  have contexts (f : Scene κ → Arena Context) :
      (Act.update fun s : Scene κ => { s with contexts := f s }).Slumbers id s :=
    of_touches (F := [.contexts]) (C := []) (.update fun s => .put s .contexts (f s) (by decide))
      (by decide) (by decide)
  have unbound : (Act.unbindContext id : Act κ _).Slumbers id s :=
    of_touches (.unbindContext id) (by decide) (by decide)
  have bound (context : ContextId) : (Act.bindContext id context : Act κ _).Slumbers id s := by
    refine composes.sceneBind fun t => composes.ite (composes.pure _) (composes.withComponent fun c => ?_)
    refine composes.bind unbound fun _ => composes.sceneBind fun t => ?_
    refine composes.bind (of_touches (.listenForContext _ _ _) (by decide) (by decide)) fun ls => ?_
    refine composes.bind (linked _) fun _ => composes.bind (contexts _) fun _ => ?_
    exact composes.bind pushFeeds fun _ => composes.pure _
  refine composes.sceneBind fun t => ?_
  split
  · exact composes.pure _
  · split
    · exact composes.bind (bound _) fun _ => composes.pure _
    · exact linked _

theorem configure : (Act.configure id : Act κ _).Slumbers id s := by
  refine composes.withComponent fun c => composes.ite (composes.sceneBind fun t => ?_) (composes.pure _)
  refine composes.bind (composes.each _ fun attr => configureAttribute _ _ attr) fun _ => ?_
  refine composes.bind setConfigured fun _ => composes.bind (composes.each _ fun p => ?_) fun _ =>
    resolveContext
  exact of_touches (.reflectDefault id c.node p) (by decide) (by decide)

end Act.Slumbers

/-- The calls that have to do with a dormant component alone keep to themselves in every run. -/
theorem Environment.meets_dormant (env : Environment κ σ) (id : ComponentId) :
    env.Meets (Upholding σ (Scene.Dormant id) (Scene.Alike Field.early) (Call.Concerns id)) := by
  rintro c p ⟨dormant, concerns⟩
  cases c with
  | write other name v origin =>
    obtain rfl : other = id := concerns
    exact Act.Slumbers.write name v origin σ p dormant (.refl _)
  | service x other arguments =>
    obtain rfl : other = id := concerns
    exact Act.Slumbers.service x arguments σ p dormant (.refl _)
  | apply f arguments => exact ⟨dormant, .refl _⟩
  | connect _ | release _ | deliver _ _ | callback _ _ => exact concerns.elim

end LiveTree
