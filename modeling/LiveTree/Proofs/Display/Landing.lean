import LiveTree.Proofs.Display.Dependence
import LiveTree.Proofs.Paths

/-! How a written value comes to a spot. The write pushes the bindings that read the property one after the other;
the turn of the spot's own comes once, and what is done before and after it passes the spot by. -/
namespace LiveTree
variable {κ σ α : Type}

namespace Spot
variable {o : Spot} {s t : Scene κ} {v : Value} {shown : Option Display}

def read (o : Spot) (v : Value) : Value :=
  let u := match (headAndRest o.path).2 with
    | none => v
    | some rest => (v.get? rest).getD .undefined
  if o.negate then u.negated else u

theorem value_eq (o : Spot) {c : Component κ} (found : s.component? o.id = some c) :
    o.value s = o.read (s.property o.id o.property) := by
  have head := fst_headAndRest o.path
  have whole : s.follow o.id o.path = c.follow o.path := by rw [Scene.follow, found]; rfl
  have own : s.property o.id o.property = c.property o.property := by rw [Scene.property, found]; rfl
  rw [value, read, whole, own, Component.follow, property, ← head]
  rcases headAndRest o.path with ⟨root, _ | rest⟩ <;> rfl

def landed (o : Spot) (shown : Option Display) (v : Value) : Option Display :=
  if (o.read v).isUndefined then shown else some (o.binding.display (o.binding.render (o.read v)))

def guard (o : Spot) : Guard := .component o.id (.binding o.site o.target)

structure Shows (o : Spot) (v : Value) (shown : Option Display) (s : Scene κ) : Prop where
  inside : o.In s
  property : s.property o.id o.property = v
  free : s.raised o.guard = false
  shown : o.shown? s = shown

theorem free_of_raises (raises : s.Raises [] t) (free : s.raised o.guard = false) : t.raised o.guard = false := by
  refine Bool.eq_false_iff.mpr fun raised => ?_
  rcases raises o.guard raised with none | before
  · cases none
  · exact nomatch free.symm.trans before

/-- A slot of the component may change. -/
theorem Shows.modifySlot (here : o.Shows v shown s) {name : String} {f : Slot → Slot}
    (notify : ∀ slot, (f slot).notify = slot.notify) {w : Value}
    (value : (s.modify o.id fun c => c.modifySlot name f).property o.id o.property = w) :
    o.Shows w shown (s.modify o.id fun c => c.modifySlot name f) := by
  have alike := Scene.Alike.modify s o.id fun c : Component κ => Component.Alike.slotValues c name notify
  refine ⟨here.inside.later (alike.mono (by decide)) fun _ _ found => .inl found, value, ?_, here.shown⟩
  have free := here.free
  rw [guard, Scene.raised] at free
  rw [guard, Scene.raised_modify]
  simpa only [Component.marked_modifySlot, reduceCtorEq, ↓reduceIte] using free

theorem Shows.mark (here : o.Shows v shown s) (busy : Bool) : o.Shows v shown
    (s.modify o.id fun c => c.modifySlot o.property fun slot => { slot with busy := busy }) := by
  refine here.modifySlot (f := fun slot => { slot with busy := busy }) (fun _ => rfl) (Eq.trans ?_ here.property)
  exact s.property_modifySlot (f := fun slot => { slot with busy := busy }) fun _ _ _ => rfl

end Spot

namespace Watching
variable {o : Spot} {p : Point κ σ} {v : Value} {shown : Option Display}

/-- What passes the spot by and lowers its guards. -/
theorem wp_shows {m : Act κ α} (bypasses : m.Bypasses o p.scene) (releases : m.Releases)
    (here : o.Shows v shown p.scene) : m.wp (Watching σ o) (fun _ q => o.Shows v shown q.scene) p := by
  refine Act.wp_mono _ ?_ (Act.wp_and _ (wp_of_bypasses bypasses here.inside) (wp_of_releases releases))
  rintro _ q ⟨⟨inside, kept⟩, raises⟩
  exact ⟨inside, kept.property.trans here.property, Spot.free_of_raises raises here.free, kept.shown.trans here.shown⟩

theorem wp_assign (here : o.In p.scene) {b : Binding} (same : b.still = o.binding.still) (target : b.target = o.target)
    (v : Value) : (Act.assign o.node b v : Act κ _).wp (Watching σ o) (fun _ q => o.In q.scene ∧
      q.scene.property o.id o.property = p.scene.property o.id o.property ∧
      o.shown? q.scene = some (o.binding.display v)) p := by
  have edited {f : Document → Document} (reworks : ∀ d : Document, d.Reworks (f d))
      (shows : o.shown? (p.scene.edit f) = some (b.display v)) :
      (Act.edit f : Act κ Unit).wp (Watching σ o) (fun _ q => o.In q.scene ∧
        q.scene.property o.id o.property = p.scene.property o.id o.property ∧
        o.shown? q.scene = some (o.binding.display v)) p := by
    refine ⟨trivial, fun _ => ⟨here.later ?_ fun _ _ found => .inl found, rfl, ?_⟩⟩
    · exact (Scene.Alike.edit p.scene (reworks p.scene.document)).mono (by decide)
    · rw [← Binding.display_still same v]
      exact shows
  obtain ⟨free, shape⟩ := here.plain
  unfold Act.assign
  rw [Act.wp_bind, Act.wp_scene, Act.wp_ite]
  split
  · next text =>
    refine edited (fun d => by simp) ?_
    rw [Binding.display, if_pos text]
    rw [if_pos (target.symm.trans text)] at shape
    rw [Spot.shown?, ← target, text]
    exact Document.display?_setText_self _ shape
  · next field =>
    have undeclared : p.scene.declaring? o.node b.target = none := by
      rw [Scene.declaring?, free]
      rfl
    rw [target] at field
    rw [if_neg field] at shape
    simp only [undeclared, shape, ↓reduceIte]
    refine edited (fun d => by simp) ?_
    rw [Spot.shown?, ← target]
    rw [← target] at field
    exact Document.display?_show_self v field ((Document.contains_iff _ _).mpr here.there)

theorem wp_evaluate {b : Binding} (same : b.still = o.binding.still) {Q : Value → Point κ σ → Prop}
    (here : o.In p.scene) (reads : Q (o.read (p.scene.property o.id o.property)) p) :
    (Act.evaluate o.id b.source : Act κ _).wp (Watching σ o) Q p := by
  have source : b.source = .property o.path o.negate := (congrArg Binding.source same).trans o.reads
  obtain ⟨c, found, -⟩ := here.done
  rw [← o.value_eq found] at reads
  rw [source]
  exact reads

/-- A value goes through the spot's own binding. -/
theorem wp_through (here : o.In p.scene) (value : p.scene.property o.id o.property = v) {b : Binding}
    (same : b.still = o.binding.still) (target : b.target = o.target) (x : Value) {f g : Binding → Binding}
    (marks : ∀ b, (f b).still = b.still) (lowers : ∀ b, (g b).still = b.still) :
    (do
      Act.modifyBinding o.id o.site o.target f
      Act.assign o.node b x
      Act.modifyBinding o.id o.site o.target g :
      Act κ Unit).wp (Watching σ o) (fun _ q => o.In q.scene ∧ q.scene.property o.id o.property = v ∧
        o.shown? q.scene = some (o.binding.display x)) p := by
  refine (Act.wp_bind _ _).mpr (Act.wp_mono _ ?_ (wp_of_bypasses (.modifyBinding _ _ _ marks) here))
  rintro _ q ⟨inside, since⟩
  refine (Act.wp_bind _ _).mpr (Act.wp_mono _ ?_ (wp_assign inside same target x))
  rintro _ r ⟨inside, assigned, shows⟩
  refine Act.wp_mono _ ?_ (wp_of_bypasses (.modifyBinding _ _ _ lowers) inside)
  rintro _ t ⟨inside, kept⟩
  exact ⟨inside, kept.property.trans (assigned.trans (since.property.trans value)), kept.shown.trans shows⟩

/-- The turn of the spot's own binding. -/
theorem wp_push (here : o.Shows v shown p.scene) : (Act.push o.id o.site o.target : Act κ _).wp (Watching σ o)
    (fun _ q => o.Shows v (o.landed shown v) q.scene) p := by
  suffices pushed : (Act.push o.id o.site o.target : Act κ _).wp (Watching σ o) (fun _ q => o.In q.scene ∧
      q.scene.property o.id o.property = v ∧ o.shown? q.scene = o.landed shown v) p by
    refine Act.wp_mono _ ?_ (Act.wp_and _ pushed (wp_of_releases (.push _ _ _)))
    rintro _ q ⟨⟨inside, property, shows⟩, raises⟩
    exact ⟨inside, property, Spot.free_of_raises raises here.free, shows⟩
  obtain ⟨b, bound, same⟩ := here.inside.exists_bound?
  have target : b.target = o.target := here.inside.firm.target_eq bound
  have updating : b.updating = false := by
    obtain ⟨c, found, held⟩ := p.scene.binding?_of_bound? bound
    have free := here.free
    rw [Spot.guard, Scene.raised, found, Option.any_some, Component.marked, held] at free
    exact free
  have there : p.scene.document.contains o.node = true := (Document.contains_iff _ _).mpr here.inside.there
  unfold Act.push
  rw [Act.wp_bind, Act.wp_scene]
  extract_lets found
  have known : found = some (o.node, b) := bound
  rw [known]
  dsimp -zeta only
  extract_lets ready marked
  have pushing (u : Unit) {q : Point κ σ} (inside : o.In q.scene) (since : o.Kept p.scene q.scene) :
      (ready u).wp (Watching σ o) (fun _ r => o.In r.scene ∧ r.scene.property o.id o.property = v ∧
        o.shown? r.scene = o.landed shown v) q := by
    have value := since.property.trans here.property
    refine (Act.wp_bind _ _).mpr (wp_evaluate same inside ?_)
    rw [value, Act.wp_ite, Spot.landed]
    split
    · exact ⟨inside, value, since.shown.trans here.shown⟩
    · have rendered (x : Value) : b.render x = o.binding.render x :=
        (congrArg (fun b : Binding => b.render x) same : b.still.render x = o.binding.still.render x)
      rw [← rendered]
      exact wp_through inside value same target _ (fun _ => rfl) fun _ => rfl
  have marking (u : Unit) {q : Point κ σ} (inside : o.In q.scene) (since : o.Kept p.scene q.scene) :
      (marked u).wp (Watching σ o) (fun _ r => o.In r.scene ∧ r.scene.property o.id o.property = v ∧
        o.shown? r.scene = o.landed shown v) q := by
    refine (Act.wp_bind _ _).mpr (Act.wp_mono _ ?_ (wp_after (.modifyBinding _ _ _ fun _ => rfl) inside since))
    rintro _ r ⟨inside, since⟩
    exact pushing () inside since
  have kept : o.Kept p.scene p.scene := Std.Refl.refl _
  simp only [updating, there, Bool.not_true, Bool.or_self, Bool.false_eq_true, ↓reduceIte, Act.wp_ite]
  split
  · split
    · refine (Act.wp_bind _ _).mpr (Act.wp_mono _ ?_ (wp_of_bypasses (.installWriteBack _ _ _ _) here.inside))
      rintro _ q ⟨inside, since⟩
      exact marking () inside since
    · exact marking () here.inside kept
  · exact pushing () here.inside kept

def Due (o : Spot) (v : Value) (shown : Option Display) (rest : List (Nat × Binding)) (q : Point κ σ) : Prop :=
  o.Shows v (o.landed shown v) q.scene ∨
    (o.Shows v shown q.scene ∧ ∃ b, (o.site, b) ∈ rest ∧ b.target = o.target)

theorem landed_landed (o : Spot) (shown : Option Display) (v : Value) :
    o.landed (o.landed shown v) v = o.landed shown v := by
  unfold Spot.landed
  split <;> rfl

variable [IsEmpty κ]

theorem wp_turn {i : Nat} {b : Binding} {rest : List (Nat × Binding)} (due : Due o v shown ((i, b) :: rest) p) :
    (Act.push o.id i b.target : Act κ _).wp (Watching σ o) (fun _ q => Due o v shown rest q) p := by
  by_cases own : i = o.site ∧ b.target = o.target
  · obtain ⟨rfl, same⟩ := own
    rw [same]
    rcases due with here | ⟨here, -⟩
    · refine Act.wp_mono _ (fun _ q shows => .inl ?_) (wp_push here)
      rwa [← landed_landed]
    · exact Act.wp_mono _ (fun _ q shows => .inl shows) (wp_push here)
  · have bypasses {s : Scene κ} : (Act.push o.id i b.target : Act κ _).Bypasses o s :=
      .push fun same => own same.2
    rcases due with here | ⟨here, d, inside, same⟩
    · exact Act.wp_mono _ (fun _ q shows => .inl shows) (wp_shows bypasses (.push _ _ _) here)
    · refine Act.wp_mono _ (fun _ q shows => .inr ⟨shows, d, ?_, same⟩) (wp_shows bypasses (.push _ _ _) here)
      refine (List.mem_cons.mp inside).resolve_left ?_
      rintro ⟨⟩
      exact own ⟨rfl, same⟩

theorem wp_pushBound (here : o.Shows v shown p.scene) : (Act.pushBound o.id (some o.property) : Act κ _).wp
    (Watching σ o) (fun _ q => o.Shows v (o.landed shown v) q.scene) p := by
  obtain ⟨b, bound, same⟩ := here.inside.exists_bound?
  obtain ⟨c, tree, found, own, -, held⟩ := p.scene.component_of_bound? bound
  have target : b.target = o.target := here.inside.firm.target_eq bound
  have reads : b.dependsOn o.property = true := by
    rw [Binding.dependsOn, o.dependencies_of_still same]
    exact List.contains_iff_mem.mpr List.mem_cons_self
  refine Act.wp_withComponent (fun d there => ?_) fun out => nomatch out.symm.trans found
  cases found.symm.trans there
  extract_lets bindings
  rw [Act.wp_ite, if_pos (here.inside.settled.2 c found)]
  refine Act.wp_each (fun rest q => Due o v shown rest q) (fun ⟨i, b⟩ rest q due => wp_turn due) ?_ _ ?_
  · rintro q (shows | ⟨-, d, none, -⟩)
    · exact shows
    · cases none
  · refine .inr ⟨here, b, List.mem_filter.mpr ⟨?_, reads⟩, target⟩
    unfold bindings
    rw [own]
    exact BindingTree.mem_bindings held

variable {prop : Property}

/-- The bindings that read the property are pushed, whatever else is told of the change. -/
theorem wp_spread (here : o.Shows v shown p.scene) (declared : p.scene.Declares o.id prop)
    (named : prop.name = o.property) {c : Component κ} (apart : c.node ≠ o.node)
    (bound : o.property ∈ c.boundProperties) (slot : Slot) (old w : Value) (origin : Origin) :
    (Act.spread o.id prop c slot old w origin).wp (Watching σ o)
      (fun _ q => o.Shows v (o.landed shown v) q.scene) p := by
  unfold Act.spread
  extract_lets reads written pushed announced told
  have reads : reads = true := by
    refine List.contains_iff_mem.mpr ?_
    rwa [named]
  have writing (r) {q : Point κ σ} (here : o.Shows v (o.landed shown v) q.scene) :
      (written r).wp (Watching σ o) (fun _ q => o.Shows v (o.landed shown v) q.scene) q := by
    unfold written
    rw [Act.wp_ite]
    split
    · exact wp_shows (.writeBackProperty _ _) (.writeBackProperty _ _) here
    · exact here
  have pushing (r) {q : Point κ σ} (here : o.Shows v shown q.scene) :
      (pushed r).wp (Watching σ o) (fun _ q => o.Shows v (o.landed shown v) q.scene) q := by
    unfold pushed
    rw [Act.wp_ite, if_pos reads, named]
    exact (Act.wp_bind _ _).mpr (Act.wp_mono _ (fun _ _ => writing ()) (wp_pushBound here))
  have announcing (r) {q : Point κ σ} (here : o.Shows v shown q.scene) :
      (announced r).wp (Watching σ o) (fun _ q => o.Shows v (o.landed shown v) q.scene) q := by
    unfold announced
    rw [Act.wp_ite]
    split
    · refine (Act.wp_bind _ _).mpr (Act.wp_mono _ (fun _ _ => pushing ()) ?_)
      exact wp_shows (.announce _ _ _ _) (.of_touches (.announce _ _ _ _) (by decide)) here
    · exact pushing () here
  have telling (r) {q : Point κ σ} (here : o.Shows v shown q.scene) (declared : q.scene.Declares o.id prop) :
      (told r).wp (Watching σ o) (fun _ q => o.Shows v (o.landed shown v) q.scene) q := by
    unfold told
    rw [Act.wp_bind, Act.wp_scene, Act.wp_ite, if_pos here.inside.settled.1, Act.wp_ite]
    split
    · refine (Act.wp_bind _ _).mpr (Act.wp_mono _ (fun _ _ => announcing ()) ?_)
      exact wp_shows (.tellOfChange declared _ _) (.tellOfChange _ _ _ _) here
    · exact announcing () here
  rw [Act.wp_ite]
  split
  · refine (Act.wp_bind _ _).mpr (Act.wp_mono _ ?_ (Act.wp_and _
      (wp_shows (.reflect apart _ _) (.of_touches (.reflect _ _ _) (by decide)) here)
      (wp_of_bypasses (.reflect apart _ _) here.inside)))
    rintro _ q ⟨here, -, kept⟩
    exact telling () here ((kept.course.declares (by decide)).mp declared)
  · exact telling () here declared

def Lands (o : Spot) (shown : Option Display) (r : Except Fault Bool) (q : Point κ σ) : Prop :=
  r = .ok true → ∃ v, o.Shows v (o.landed shown v) q.scene

theorem wp_land_commit (here : o.Shows v shown p.scene) (declared : p.scene.Declares o.id prop)
    (named : prop.name = o.property) (old w : Value) (origin : Origin) :
    (Act.commit o.id prop old w origin).wp (Watching σ o) (Lands o shown) p := by
  refine Act.wp_withComponent (fun c found => ?_) fun _ => nofun
  split
  · exact nofun
  · next slot held =>
    simp only [Act.wp_bind, Act.wp_modify]
    refine ⟨trivial, fun _ => ?_⟩
    have written : o.Shows w shown (p.scene.modify o.id fun c : Component κ =>
        c.modifySlot prop.name fun slot => { slot with value := w }) := by
      refine here.modifySlot (f := fun slot => { slot with value := w }) (fun _ => rfl) ?_
      rw [Scene.property_eq, Scene.slot?_modifySlot, if_pos ⟨rfl, named.symm⟩, Scene.slot?, found, Option.bind_some,
        ← named, held]
      rfl
    have course := Scene.Alike.modify p.scene o.id fun c : Component κ =>
      .slotValues c prop.name (f := fun slot => { slot with value := w }) fun _ => rfl
    exact Act.wp_mono _ (fun _ q shows _ => ⟨w, shows⟩) (wp_spread (p := p.change _) written
      ((course.declares (by decide)).mp declared) named (here.inside.node_ne found)
      (here.inside.mem_boundProperties found) _ _ _ _)

theorem wp_land_attempt (here : o.Shows v shown p.scene) (declared : p.scene.Declares o.id prop)
    (named : prop.name = o.property) (w : Value) (origin : Origin) :
    (Act.attempt o.id prop w origin).wp (Watching σ o) (Lands o shown) p := by
  have refused (fault : Fault) (q : Point κ σ) :
      (Act.refuse o.id fault).wp (Watching σ o) (Lands o shown) q := by
    refine (Act.wp_bind _ _).mpr (Act.wp_mono _ (fun a r _ ended => ?_) (wp_any _))
    cases a <;> cases ended
  unfold Act.attempt
  rw [Act.wp_ite]
  split
  · exact nofun
  · split
    · exact refused _ p
    · simp only [Act.wp_bind, Act.wp_scene]
      refine Act.wp_mono _ ?_ (Act.wp_and _
        (wp_shows (.validated declared here.inside.steady _ _) (.of_touches (.validated _ _ _ _) (by decide)) here)
        (wp_of_bypasses (.validated declared here.inside.steady _ _) here.inside))
      rintro x q ⟨here, -, kept⟩
      rw [Act.wp_ite]
      split
      · exact nofun
      · split
        · exact refused _ q
        · exact wp_land_commit here ((kept.course.declares (by decide)).mp declared) named _ _ _

theorem wp_land_write (here : o.Shows v shown p.scene) (w : Value) (origin : Origin) :
    (Act.write o.id o.property w origin).wp (Watching σ o) (Lands o shown) p := by
  refine Act.wp_withComponent (fun c found => ?_) fun _ => nofun
  split
  · next prop slot declared _ =>
    rw [Act.wp_ite]
    split
    · exact nofun
    · have named := Schema.name_of_get? declared
      have own : p.scene.Declares o.id prop := ⟨c, found, by rw [named]; exact declared⟩
      have course : p.scene.Alike [.values] (p.scene.modify o.id fun c =>
          c.modifySlot o.property fun slot => { slot with busy := true }) :=
        .modify p.scene o.id fun c => .slotValues c o.property fun _ => rfl
      have declared := (course.declares (by decide)).mp own
      have attempted := wp_land_attempt (p := p.change _) (here.mark true) declared named w origin
      simp only [Act.wp_bind, Act.wp_modify]
      refine ⟨trivial, fun _ => Act.wp_mono _ (fun r q lands => ⟨trivial, fun _ done => ?_⟩) attempted⟩
      obtain ⟨v, shows⟩ := lands done
      exact ⟨v, shows.mark false⟩
  · exact nofun

end Watching
end LiveTree
