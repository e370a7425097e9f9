import LiveTree.Proofs.Guards
import LiveTree.Proofs.Refresh.Territory
import LiveTree.Proofs.Refusal

/-! What calls do while values are pushed in an orderly scene. A value is written to a component through a binding
that is marked, so that nothing is written back, and all that is set off stays with the component and those that it
feeds. -/
namespace LiveTree
variable {κ σ α β : Type}

def Property.Keeps (p : Property) (old v : Value) : Prop :=
  p.readOnly = true ∨ (∃ fault, p.checkAllowed v = .error fault) ∨ old.same v = true ∨
    ∃ fault, p.checkKind v = .error fault

namespace Scene
variable {base s t u : Scene κ} {id : ComponentId} {name : String} {v : Value}

def Ignores (s : Scene κ) (id : ComponentId) (name : String) (v : Value) : Prop :=
  ∀ p, s.Declares id p → p.name = name → ∀ old busy, s.held? id name = some (old, busy) → p.Keeps old v

def AtRest (s : Scene κ) (id : ComponentId) (name : String) : Prop :=
  ∀ old busy, s.held? id name = some (old, busy) → busy = false

def Marked (base s : Scene κ) (id : ComponentId) (name : String) : Prop :=
  ∀ whose i x b, s.bound? whose i name = some (x, b) → base.componentAt? x = some id → b.updating = true

def Counts (base s : Scene κ) : Call κ → Prop
  | .write id name _ origin => origin = .code ∧ (∃ whose, base.Feeds whose id) ∧ base.Marked s id name
  | .deliver x e => e.bubbles = false ∧ ∀ id i target b, s.bound? id i target = some (x, b) →
      target ≠ textTarget → s.changeEvent? x b = some e.kind → b.updating = true
  | .apply .. => True
  | _ => False

/-- What a write comes to. A value that is the same as itself is there in the end, unless the property does not take
it; where nothing comes of the write, nothing is left of it but lines in the journal. -/
structure Receives (base : Scene κ) (id : ComponentId) (name : String) (v : Value) (s t : Scene κ) : Prop where
  continues : base.Continues t
  confines : base.Confines id [name] s t
  settles : s.AtRest id name → v.same v = true → t.Ignores id name v
  logs : s.Ignores id name v → s.Logs t

def Yields (base s t : Scene κ) : Call κ → Prop
  | .write id name v _ => base.Receives id name v s t
  | _ => t = s

theorem Logs.exists_journal (logs : s.Logs t) : ∃ j, t = s.put .journal j := by
  obtain ⟨lines, rfl⟩ := logs
  induction lines generalizing s with
  | nil => exact ⟨s.journal, rfl⟩
  | cons line rest ih =>
    obtain ⟨j, same⟩ := ih (s := s.write line.1 line.2)
    exact ⟨j, same⟩

theorem Logs.confines {names : List String} (logs : s.Logs t) : base.Confines id names s t := by
  obtain ⟨j, rfl⟩ := logs.exists_journal
  exact .of_same rfl rfl

theorem Ignores.of_logs (ignores : s.Ignores id name v) (logs : s.Logs t) : t.Ignores id name v := by
  obtain ⟨j, rfl⟩ := logs.exists_journal
  exact ignores

theorem Continues.logs (continues : base.Continues s) (logs : s.Logs t) : base.Continues t := by
  obtain ⟨j, rfl⟩ := logs.exists_journal
  exact continues.still (.put s .journal j (by decide)) rfl rfl

/-- Where nothing comes of a write that leaves only lines, it has come to what it should. -/
theorem Receives.of_logs (continues : base.Continues s) (logs : s.Logs t)
    (settles : s.AtRest id name → v.same v = true → s.Ignores id name v) : base.Receives id name v s t where
  continues := continues.logs logs
  confines := logs.confines
  settles free same := (settles free same).of_logs logs
  logs _ := logs

end Scene

/-- What all calls of a run do: they lower the guards that they raise, and where writes have been going on since the
base, those that are counted come to what they should. -/
def Feeding (σ : Type) (base : Scene κ) : Contract κ σ where
  given _ _ := True
  safe _ _ := True
  before _ _ := True
  after c p _ q := p.scene.Raises [] q.scene ∧
    (base.Continues p.scene → base.Counts p.scene c → base.Yields p.scene q.scene c)

theorem Act.wp_of_releases {base : Scene κ} {m : Act κ α} {p : Point κ σ} (releases : m.Releases) :
    m.wp (Feeding σ base) (fun _ q => p.scene.Raises [] q.scene) p :=
  wp_of_contract (fun _ _ _ => trivial) (fun _ _ _ => trivial) (fun _ _ _ => trivial)
    (fun _ _ _ _ _ (kept : (Feeding σ base).after _ _ _ _) => kept.1) (releases σ p)

def Act.Minds (base : Scene κ) (R : Scene κ → Scene κ → Prop) (s : Scene κ) (m : Act κ α) : Prop :=
  ∀ (σ : Type) (p : Point κ σ), base.Continues p.scene → R s p.scene →
    m.wp (Feeding σ base) (fun _ q => base.Continues q.scene ∧ R s q.scene) p

namespace Act.Minds
variable {base s : Scene κ} {R : Scene κ → Scene κ → Prop}

theorem pure (a : α) : (Pure.pure a : Act κ α).Minds base R s := fun _ _ continues since => ⟨continues, since⟩

theorem bind {m : Act κ β} {f : β → Act κ α} (first : m.Minds base R s) (second : ∀ b, (f b).Minds base R s) :
    (m >>= f).Minds base R s := fun σ p continues since =>
  (wp_bind _ _).mpr (wp_mono _ (fun b q kept => second b σ q kept.1 kept.2) (first σ p continues since))

theorem composes : Composes fun {_} (m : Act κ _) => m.Minds base R s where
  pure := pure
  scene _ _ continues since := ⟨continues, since⟩
  bind := bind

theorem eachOf {f : β → Act κ Unit} (items : List β) (body : ∀ b ∈ items, (f b).Minds base R s) :
    (Act.each items f).Minds base R s := by
  induction items with
  | nil => exact pure ()
  | cons b rest ih =>
    exact bind (body b List.mem_cons_self) fun _ => ih fun c inside => body c (List.mem_cons_of_mem _ inside)

/-- A call that leaves the scene as it is. -/
theorem ask_idle {c : Call κ} (counts : ∀ t, base.Continues t → R s t → base.Counts t c)
    (idle : ∀ t u, base.Yields t u c → u = t) : (Act.ask c).Minds base R s := by
  refine fun σ p continues since => ⟨trivial, fun a q kept => ⟨trivial, fun _ => ?_⟩⟩
  have same : q.scene = p.scene := idle _ _ (kept.2 continues (counts _ continues since))
  change base.Continues q.scene ∧ R s q.scene
  rw [same]
  exact ⟨continues, since⟩

variable [IsPreorder (Scene κ) R]

theorem after {m : Act κ α} {p : Point κ σ} (minds : m.Minds base R p.scene) (continues : base.Continues p.scene)
    (since : R s p.scene) : m.wp (Feeding σ base) (fun _ q => base.Continues q.scene ∧ R s q.scene) p :=
  wp_mono m (fun _ _ kept => ⟨kept.1, IsTrans.trans _ _ _ since kept.2⟩) (minds σ p continues (Std.Refl.refl _))

theorem sceneBind {f : Scene κ → Act κ α} (body : ∀ t, base.Continues t → R s t → (f t).Minds base R t) :
    (Act.scene >>= f).Minds base R s := fun _ p continues since =>
  after (m := f p.scene) (body p.scene continues since) continues since

theorem withComponent {id : ComponentId} {a : α} {f : Component κ → Act κ α}
    (body : ∀ t c, base.Continues t → R s t → t.component? id = some c → (f c).Minds base R t) :
    (withComponent id a f).Minds base R s := by
  refine sceneBind fun t continues since => ?_
  split
  · next c found => exact body t c continues since found
  · exact pure a

theorem update {f : Scene κ → Scene κ} (change : ∀ t, base.Continues t → R s t → base.Continues (f t) ∧ R t (f t)) :
    (Act.update f).Minds base R s := fun _ p continues since =>
  ⟨trivial, fun _ => ⟨(change p.scene continues since).1, IsTrans.trans _ _ _ since (change p.scene continues since).2⟩⟩

/-- A change of a component in the course of writes. -/
theorem modify {id : ComponentId} {f : Component κ → Component κ} {F : List Field}
    (alike : ∀ c : Component κ, c.Alike F (f c)) (within : ∀ g ∈ F, g ∈ Field.coursing)
    (change : ∀ t, base.Continues t → R t (t.modify id f)) : (Act.modify id f).Minds base R s :=
  update fun t continues _ =>
    ⟨continues.still ((Scene.Alike.modify t id alike).mono within) rfl rfl, change t continues⟩

theorem edit {f : Document → Document} (reworks : ∀ d : Document, d.Reworks (f d))
    (change : ∀ t, base.Continues t → R s t → R t (t.edit f)) : (Act.edit f : Act κ Unit).Minds base R s :=
  update fun t continues since => ⟨continues.still ((Scene.Alike.edit t (reworks _)).mono (by decide))
    (reworks _).listed rfl, change t continues since⟩

end Act.Minds

/-- What only writes lines. -/
theorem Act.wp_of_logging {base : Scene κ} {m : Act κ α} (logging : m.Logging) {p : Point κ σ}
    (continues : base.Continues p.scene) : m.wp (Feeding σ base) (fun _ q => p.scene.Logs q.scene) p := by
  refine wp_of_within (I := fun q => p.scene.Logs q.scene) (fun q t logs more => ⟨trivial, fun _ => logs.trans more⟩)
    (fun c q logs kind => ⟨trivial, fun a r after => ⟨trivial, fun _ => ?_⟩⟩) (.refl _) (logging p.scene)
  cases c with
  | apply f arguments =>
    have same : r.scene = q.scene := after.2 (continues.logs logs) trivial
    change p.scene.Logs r.scene
    rwa [same]
  | callback k o => cases o <;> cases kind
  | _ => cases kind

section Places
variable {base s t : Scene κ} {id feeder : ComponentId} {names : List String} {p : Property} {c : Component κ}

theorem Scene.Continues.component_of (continues : base.Continues t) (found : t.component? id = some c) :
    ∃ d, base.component? id = some d ∧ d.Alike Field.coursing c := continues.course.component_of (by decide) found

theorem Scene.Continues.componentAt? (continues : base.Continues t) (x : NodeId) :
    t.componentAt? x = base.componentAt? x := continues.course.componentAt? (by decide) x

theorem Scene.Continues.governs (continues : base.Continues t) (found : t.component? id = some c) :
    base.Governs id c.node := by
  obtain ⟨d, here, alike⟩ := continues.component_of found
  exact ⟨id, .refl, .inl ⟨d, here, alike.node.symm⟩⟩

theorem Scene.Continues.componentAt?_node (continues : base.Continues t) (feeds : base.Feeds feeder id)
    (found : t.component? id = some c) : base.componentAt? c.node = some id := by
  obtain ⟨i, target, x, b, -, here⟩ := feeds
  obtain ⟨d, there, rfl⟩ := componentAt?_spec here
  obtain ⟨d', there', alike⟩ := continues.component_of found
  cases there.symm.trans there'
  rwa [alike.node]

variable (orderly : base.Orderly) (firm : base.Firm)
include orderly firm

theorem Scene.Marked.later {name : String} (marked : base.Marked s id name) (continues : base.Continues t)
    (confines : base.Confines id names s t) : base.Marked t id name := by
  intro whose i x b bound here
  obtain ⟨d, bound', -⟩ := continues.course.bound?_of (by decide) bound
  have out := orderly.not_reaches_back firm ⟨i, name, x, d, bound', here⟩
  refine marked whose i x b ?_ here
  rwa [Scene.bound?, confines.others whose out] at bound

/-- The bindings of whose target an event tells that announces a change are those of the property. -/
theorem Scene.Orderly.target_eq (declared : base.Declares id p) {whose : ComponentId} {i : Nat} {target : String}
    {x : NodeId} {b : Binding} (here : base.componentAt? x = some id) (bound : base.bound? whose i target = some (x, b))
    (field : target ≠ textTarget) (tells : base.changeEvent? x b = some (p.attributeName ++ "-changed")) :
    target = p.name := by
  obtain ⟨c, found, rfl, neat⟩ := orderly.neat firm bound
  obtain ⟨d, there, own⟩ := declared
  obtain ⟨q, known⟩ : ∃ q, d.schema.get? b.target = some q :=
    Option.isSome_iff_exists.mp (neat.declared field id here d there)
  have schema : base.schemaAt x = some d.schema := by rw [Scene.schemaAt, here, Option.bind_some, there]; rfl
  have told : base.changeEvent? x b = some (q.attributeName ++ "-changed") := by
    have reads := neat.reads
    unfold Scene.changeEvent?
    cases source : b.source with
    | property path negate => simp only [schema, Option.bind_some, known]
    | _ => rw [source] at reads; cases reads
  have same : q.attributeName = p.attributeName :=
    String.append_left_inj _ |>.mp (Option.some.inj (told.symm.trans tells))
  rw [← Schema.name_of_get? known]
  refine (orderly.proper id d there).attributes q (Schema.mem_toList.mpr ?_) p (Schema.mem_toList.mpr own) same
  rw [Schema.name_of_get? known]
  exact known

end Places
end LiveTree
