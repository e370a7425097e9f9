import LiveTree.Proofs.Refresh.Passage
import LiveTree.Proofs.RoundTrip.Collection

/-! The push of a binding in an orderly scene. It leaves the target with the value that the binding reads, and a
binding whose value its target has already is pushed in vain. -/
namespace LiveTree
variable {κ σ : Type}

namespace Value
variable {v u : Value}

theorem WellFormed.get? {path : String} (formed : v.WellFormed) (found : v.get? path = some u) : u.WellFormed := by
  unfold Value.get? at found
  generalize segments path = names at found
  induction names generalizing v with
  | nil =>
    cases found
    exact formed
  | cons name rest ih =>
    obtain ⟨w, here, found⟩ := Option.bind_eq_some_iff.mp found
    exact ih (formed.member? here) found

theorem WellFormed.negated (formed : v.WellFormed) : v.negated.WellFormed := by
  unfold Value.negated
  split
  · exact formed
  · trivial

end Value

theorem Binding.wellFormed_render (b : Binding) {v : Value} (formed : v.WellFormed) : (b.render v).WellFormed := by
  unfold render
  split
  · trivial
  · exact formed

namespace Scene
variable {base s t : Scene κ} {id other : ComponentId} {i : Nat} {target : String} {x : NodeId} {b d m : Binding}
  {v : Value}

theorem follow_eq (s : Scene κ) (id : ComponentId) (path : String) :
    s.follow id path = match (headAndRest path).2 with
      | none => s.property id (headAndRest path).1
      | some rest => ((s.property id (headAndRest path).1).get? rest).getD .undefined := by
  unfold follow property Component.follow
  rcases headAndRest path with ⟨root, _ | rest⟩
  · rfl
  · cases s.component? id with
    | none =>
      cases segments : Value.segments rest <;>
        simp [Value.get?, segments, Value.follow, Value.member?, Value.object?]
    | some c => rfl

theorem property_of_same_held (same : ∀ name, t.held? id name = s.held? id name) (name : String) :
    t.property id name = s.property id name := by
  have value (u : Scene κ) : u.property id name = ((u.held? id name).map Prod.fst).getD .undefined := by
    rw [property_eq, held?, Option.map_map]
    rfl
  rw [value, value, same]

theorem read_of_same_held (same : ∀ name, t.held? id name = s.held? id name) (source : Source) :
    t.read id source = s.read id source := by
  have follow (path : String) : t.follow id path = s.follow id path := by
    rw [follow_eq, follow_eq, property_of_same_held same]
  cases source with
  | property path negate => rw [read, read, follow]
  | channel path event => exact follow path
  | call method arguments => rfl

theorem wellFormed_read (formed : ∀ name, (s.property id name).WellFormed) (source : Source) :
    (s.read id source).WellFormed := by
  have follow (path : String) : (s.follow id path).WellFormed := by
    rw [follow_eq]
    split
    · exact formed _
    · next rest _ =>
      cases held : (s.property id (headAndRest path).1).get? rest with
      | none => trivial
      | some v => exact (formed _).get? held
  cases source with
  | property path negate =>
    rw [read]
    split
    · exact (follow path).negated
    · exact follow path
  | channel path event => exact follow path
  | call method arguments => trivial

def Carried (s : Scene κ) (id : ComponentId) (i : Nat) (target : String) : Prop :=
  ∀ x b, s.bound? id i target = some (x, b) → b.ready = true ∧ b.updating = false ∧
    ((s.read id b.source).isUndefined = false →
      b.value = b.render (s.read id b.source) ∧ s.Bears x b (b.render (s.read id b.source)))

structure Readies (base : Scene κ) (id : ComponentId) (i : Nat) (target : String) (x : NodeId) (s t : Scene κ) :
    Prop where
  passes : base.Passes id i target x s t
  held : ∀ other name, t.held? other name = s.held? other name
  binding : ∀ b, s.bound? id i target = some (x, b) →
    ∃ m, t.bound? id i target = some (x, m) ∧ m.still = b.still ∧ m.updating = b.updating

namespace Readies

instance : IsPreorder (Scene κ) (base.Readies id i target x) where
  refl _ := ⟨Std.Refl.refl _, fun _ _ => rfl, fun b bound => ⟨b, bound, rfl, rfl⟩⟩
  trans _ _ _ first second := by
    refine ⟨IsTrans.trans _ _ _ first.passes second.passes,
      fun other name => (second.held other name).trans (first.held other name), fun b bound => ?_⟩
    obtain ⟨m, there, still, updating⟩ := first.binding b bound
    obtain ⟨m', there', still', updating'⟩ := second.binding m there
    exact ⟨m', there', still'.trans still, updating'.trans updating⟩

theorem modifyBinding (s : Scene κ) {f : Binding → Binding} (still : ∀ b, (f b).still = b.still)
    (updating : ∀ b, (f b).updating = b.updating) : base.Readies id i target x s
    (s.modify id fun c => c.modifyBindings fun t => t.modify i target f) where
  passes := .modifyBinding s f
  held := held?_modifyBinding s id _
  binding b bound := by
    refine ⟨f b, ?_, still b, updating b⟩
    rw [bound?_modifyBinding, if_pos ⟨rfl, rfl, rfl⟩, bound]
    rfl

theorem listen (s : Scene κ) (event : String) (k : Listener κ) : base.Readies id i target x s
    { s.edit (·.addListener x event ⟨s.listeners.size⟩) with listeners := s.listeners.push (some k) } :=
  ⟨.listen s event k, fun _ _ => rfl, fun b bound => ⟨b, bound, rfl, rfl⟩⟩

end Readies

end Scene

section Installing
variable {base s : Scene κ} {id : ComponentId} {i : Nat} {x : NodeId} {b d : Binding}

/-- The slot of the component at the node is told that its changes are awaited. -/
theorem Scene.Readies.notify (orderly : base.Orderly) (firm : base.Firm)
    (bound : base.bound? id i d.target = some (x, d)) {child : ComponentId} (here : base.componentAt? x = some child) :
    base.Readies id i d.target x s
      (s.modify child fun c => c.modifySlot d.target fun slot => { slot with notify := true }) := by
  have held (other : ComponentId) (name : String) : (s.modify child fun c =>
      c.modifySlot d.target fun slot => { slot with notify := true }).held? other name = s.held? other name := by
    rw [held?, slot?_modifySlot, held?]
    split
    · rw [Option.map_map]
      rfl
    · rfl
  have apart := orderly.ne_of_feeds firm ⟨i, d.target, x, d, bound, here⟩
  refine ⟨.of_confines orderly firm bound here (.modify s .refl fun _ name _ => held child name), held, fun b there => ?_⟩
  refine ⟨b, ?_, rfl, rfl⟩
  rwa [bound?_of_component (s := s) (by rw [component?_modify, if_neg apart])]

theorem Act.Minds.installWriteBack (orderly : base.Orderly) (firm : base.Firm)
    (bound : base.bound? id i d.target = some (x, d)) (still : b.still = d.still) :
    (Act.installWriteBack id i x b : Act κ _).Minds base (base.Readies id i d.target x) s := by
  have target : b.target = d.target := (congrArg Binding.target still : b.still.target = d.still.target)
  refine .sceneBind fun t continues _ => ?_
  split
  · exact .pure _
  · next event tells =>
    rw [target] at tells ⊢
    extract_lets listened
    obtain ⟨field, tells⟩ : d.target ≠ textTarget ∧ t.changeEvent? x b = some event := by
      split at tells
      · cases tells
      · next free => exact ⟨fun text => free (by simp [text]), tells⟩
    have told : base.changeEvent? x d = some event := (continues.course.changeEvent? (by decide) still).symm.trans tells
    have later (r) : (listened r).Minds base (base.Readies id i d.target x) t := by
      refine .bind (fun σ p continues since => ?_) fun l => ?_
      · refine ⟨trivial, fun _ => ⟨continues.listen ⟨field, ?_⟩, IsTrans.trans _ _ _ since (.listen _ _ _)⟩⟩
        obtain ⟨m, there, same⟩ := continues.course.exists_bound? (by decide) bound
        exact ⟨(x, m), there, rfl, (continues.course.changeEvent? (by decide) same).trans told⟩
      · exact .modify (fun c => .flow c i d.target fun _ => rfl) (by decide) fun t _ =>
          .modifyBinding t (fun _ => rfl) fun _ => rfl
    split
    · next child here =>
      refine .bind ?_ later
      refine .modify (fun c => .slotNotify c _ fun _ => ⟨rfl, rfl⟩) (by decide) fun u _ => ?_
      exact .notify orderly firm bound ((continues.componentAt? x).symm.trans here)
    · exact later ()

end Installing

theorem Act.wp_evaluate_property {K : Contract κ σ} {p : Point κ σ} {id : ComponentId} {source : Source}
    {Q : Value → Point κ σ → Prop} (reads : source.isProperty = true) (here : Q (p.scene.read id source) p) :
    (Act.evaluate id source : Act κ _).wp K Q p := by
  cases source with
  | property path negate => exact here
  | _ => cases reads

namespace Scene
variable {base s t : Scene κ} {id : ComponentId} {i : Nat} {target : String} {x : NodeId} {b d m : Binding} {v : Value}

structure Pushes (base : Scene κ) (id : ComponentId) (i : Nat) (target : String) (x : NodeId) (s t : Scene κ) :
    Prop where
  continues : base.Continues t
  passes : base.Passes id i target x s t
  carries : s.Idle → (∀ name, (s.property id name).WellFormed) → t.Carried id i target
  logs : s.Carried id i target → s.Logs t

theorem Continues.firm (continues : base.Continues s) (firm : base.Firm) : s.Firm :=
  (Carries.of_alike continues.course (by decide) (by decide)).firm continues.course.document.size firm

theorem Bears.modifyBindings {f : BindingTree → BindingTree} (bears : s.Bears x b v) (still : m.still = b.still)
    (alike : s.Alike Field.coursing (s.modify id fun c => c.modifyBindings f)) :
    (s.modify id fun c => c.modifyBindings f).Bears x m v := by
  have target : m.target = b.target := (congrArg Binding.target still : m.still.target = b.still.target)
  have known := alike.componentAt? (by decide) x
  refine ⟨fun plain => ?_, fun child here p declared named old busy held => ?_⟩
  · rw [target] at plain ⊢
    rw [Binding.display_still still]
    refine bears.plain ⟨known.symm.trans plain.1, plain.2⟩
  · rw [known] at here
    rw [held?_modifyBinding, target] at held
    rw [target] at named
    exact bears.fed child here p ((alike.declares (by decide)).mpr declared) named old busy held

theorem AtRest.of_idle (idle : s.Idle) (id : ComponentId) (name : String) : s.AtRest id name := by
  intro old busy held
  obtain ⟨slot, found, -, rfl⟩ := slot?_of_held? held
  obtain ⟨c, there, found⟩ := Option.bind_eq_some_iff.mp found
  exact (idle.components id c there).slots name slot found

theorem Idle.updating (idle : s.Idle) (bound : s.bound? id i target = some (x, b)) : b.updating = false := by
  obtain ⟨c, found, held⟩ := s.binding?_of_bound? bound
  exact (idle.components id c found).bindings i target b held

end Scene

section Pushing
variable {base s q t : Scene κ} {id : ComponentId} {i : Nat} {x : NodeId} {b d m : Binding} {v : Value}

structure Scene.Primed (base : Scene κ) (id : ComponentId) (i : Nat) (x : NodeId) (d b m : Binding) (s q : Scene κ) :
    Prop where
  continues : base.Continues q
  since : base.Readies id i d.target x s q
  own : s.bound? id i d.target = some (x, b)
  there : q.bound? id i d.target = some (x, m)
  still : m.still = b.still
  ready : m.ready = true
  free : m.updating = false
  idly : s.Carried id i d.target → q = s

namespace Scene.Primed
variable (primed : base.Primed id i x d b m s q)
include primed

theorem source : m.source = b.source := (congrArg Binding.source primed.still : m.still.source = b.still.source)

theorem pushes_of_undefined (undefined : (q.read id b.source).isUndefined = true) :
    base.Pushes id i d.target x s q where
  continues := primed.continues
  passes := primed.since.passes
  carries _ _ := by
    intro y k held
    cases primed.there.symm.trans held
    refine ⟨primed.ready, primed.free, fun defined => ?_⟩
    rw [primed.source, undefined] at defined
    cases defined
  logs carried := by
    rw [primed.idly carried]
    exact .refl s

/-- The scene in which the value is on its way. -/
theorem bound?_mark (value : Value) :
    (q.modify id fun c => c.modifyBindings fun t => t.modify i d.target fun b =>
      { b with value := value, updating := true }).bound? id i d.target =
        some (x, { m with value := value, updating := true }) := by
  rw [bound?_modifyBinding, if_pos ⟨rfl, rfl, rfl⟩, primed.there]
  rfl

theorem pushes_of_lands (firm : base.Firm) (defined : (q.read id b.source).isUndefined = false)
    (lands : base.Lands id i d.target x b (b.render (q.read id b.source))
      (q.modify id fun c => c.modifyBindings fun t => t.modify i d.target fun b' =>
        { b' with value := b.render (q.read id b.source), updating := true }) t) :
    base.Pushes id i d.target x s
      (t.modify id fun c => c.modifyBindings fun t => t.modify i d.target fun b => { b with updating := false }) := by
  have freed : t.Alike Field.coursing (t.modify id fun c => c.modifyBindings fun t => t.modify i d.target fun b =>
      { b with updating := false }) :=
    .modifyBinding t id i d.target fun _ => rfl
  have passes := IsTrans.trans _ _ _ primed.since.passes (IsTrans.trans _ _ _ (.modifyBinding q _)
    (IsTrans.trans _ _ _ lands.passes (.modifyBinding t fun b => { b with updating := false })))
  refine ⟨lands.continues.modifyBinding fun _ => rfl, passes, fun idle formed => ?_, fun carried => ?_⟩
  · have read := read_of_same_held primed.since.passes.own b.source
    have after := read_of_same_held passes.own b.source
    intro y k held
    rw [bound?_modifyBinding, if_pos ⟨rfl, rfl, rfl⟩, bound?_of_component lands.own, primed.bound?_mark] at held
    cases held
    refine ⟨primed.ready, rfl, fun _ => ?_⟩
    have rendered (v : Value) : m.render v = b.render v :=
      (congrArg (fun b : Binding => b.render v) primed.still : m.still.render v = b.still.render v)
    have value : b.render (q.read id b.source) = m.render ((t.modify id fun c => c.modifyBindings fun t =>
        t.modify i d.target fun b => { b with updating := false }).read id m.source) := by
      rw [rendered, primed.source, after, read]
    refine ⟨value, ?_⟩
    change Bears _ x _ (m.render _)
    rw [← value]
    refine (lands.bears (fun child here => ?_) ?_).modifyBindings primed.still freed
    · intro old busy held
      rw [held?_modifyBinding, primed.since.held] at held
      exact AtRest.of_idle idle child d.target old busy held
    · refine Value.same_self _ (b.wellFormed_render ?_)
      rw [read]
      exact wellFormed_read formed _
  · obtain rfl := primed.idly carried
    cases primed.own.symm.trans primed.there
    obtain ⟨value, bears⟩ := (carried x b primed.own).2.2 defined
    have marking : q.Alike Field.coursing (q.modify id fun c => c.modifyBindings fun t => t.modify i d.target fun b' =>
        { b' with value := b.render (q.read id b.source), updating := true }) :=
      .modifyBinding q id i d.target fun _ => rfl
    have logs := (lands.logs (bears.modifyBindings rfl marking)).modify id fun c =>
      c.modifyBindings fun t => t.modify i d.target fun b => { b with updating := false }
    rwa [modifyBinding_back (primed.continues.firm firm) primed.there] at logs
    rw [← value, ← primed.free]

end Scene.Primed

theorem Act.wp_push (orderly : base.Orderly) (firm : base.Firm) {p : Point κ σ} (continues : base.Continues p.scene)
    (bound : base.bound? id i d.target = some (x, d)) : (Act.push id i d.target : Act κ _).wp (Feeding σ base)
      (fun _ q => base.Pushes id i d.target x p.scene q.scene) p := by
  obtain ⟨c, -, -, neat⟩ := orderly.neat firm bound
  obtain ⟨b, own, still⟩ := continues.course.exists_bound? (by decide) bound
  have source : b.source = d.source := (congrArg Binding.source still : b.still.source = d.still.source)
  have there : p.scene.document.contains x = true := by
    obtain ⟨f, found, at_⟩ := Option.bind_eq_some_iff.mp (p.scene.nodeAt?_of_bound? own)
    exact (Document.contains_iff _ _).mpr (((continues.firm firm).each id f found).inside i x at_)
  unfold Act.push
  rw [wp_bind, wp_scene]
  extract_lets found
  have known : found = some (x, b) := own
  rw [known]
  dsimp -zeta only
  extract_lets pushing marking
  have pushing {q : Point κ σ} {m : Binding} (primed : base.Primed id i x d b m p.scene q.scene) (u : Unit) :
      (pushing u).wp (Feeding σ base) (fun _ q => base.Pushes id i d.target x p.scene q.scene) q := by
    refine (wp_bind _ _).mpr (wp_evaluate_property (source ▸ neat.reads) ?_)
    rw [wp_ite]
    split
    · next undefined => exact primed.pushes_of_undefined undefined
    · next defined =>
      refine (wp_bind _ _).mpr ⟨trivial, fun _ => (wp_bind _ _).mpr (wp_mono _ (fun _ t lands => ⟨trivial, fun _ => ?_⟩)
        (wp_assign orderly firm bound still ?_ (primed.bound?_mark _) rfl))⟩
      · exact primed.pushes_of_lands firm (Bool.eq_false_iff.mpr defined) lands
      · exact primed.continues.modifyBinding fun _ => rfl
  have marking {q : Point κ σ} (continues : base.Continues q.scene)
      (since : base.Readies id i d.target x p.scene q.scene) (free : b.updating = false) (unready : b.ready = false)
      (u : Unit) : (marking u).wp (Feeding σ base)
        (fun _ q => base.Pushes id i d.target x p.scene q.scene) q := by
    obtain ⟨m, there, same, updating⟩ := since.binding b own
    refine (wp_bind _ _).mpr ⟨trivial, fun _ => pushing (m := { m with ready := true }) ?_ ()⟩
    exact {
      continues := continues.modifyBinding fun _ => rfl
      since := IsTrans.trans _ _ _ since (.modifyBinding q.scene (fun _ => rfl) fun _ => rfl)
      own := own
      there := by
        rw [Point.scene_change, Scene.bound?_modifyBinding, if_pos ⟨rfl, rfl, rfl⟩, there]
        rfl
      still := same
      ready := rfl
      free := updating.trans free
      idly := fun carried => by cases unready.symm.trans (carried x b own).1 }
  have kept : base.Readies id i d.target x p.scene p.scene := Std.Refl.refl _
  rw [there]
  simp only [Bool.not_true, Bool.or_false, wp_ite]
  split
  · next busy =>
    refine ⟨continues, kept.passes, fun idle _ => ?_, fun _ => .refl _⟩
    cases busy.symm.trans (idle.updating own)
  · next free =>
    have free : b.updating = false := Bool.eq_false_iff.mpr free
    split
    · next unready =>
      have unready : b.ready = false := by simpa using unready
      split
      · refine (wp_bind _ _).mpr (wp_mono _ ?_ (Minds.installWriteBack orderly firm bound still σ p continues kept))
        rintro _ q ⟨continues, since⟩
        exact marking continues since free unready ()
      · exact marking continues kept free unready ()
    · next ready =>
      exact pushing ⟨continues, kept, own, own, rfl, by simpa using ready, free, fun _ => rfl⟩ ()

end Pushing

end LiveTree
