import LiveTree.Proofs.Attachment

/-! Leaving and coming where no consumer code runs. When components leave the document or move in it, those
that do not lie below their owners are remembered by them; when they come back, those that do are forgotten.
Nothing else is done to what is remembered, and no node is moved by it. -/
namespace LiveTree
variable {κ σ : Type}

namespace Stage

def departed : Stage → Stage
  | attached => detached
  | stage => stage

def arrived : Stage → Stage
  | detached => attached
  | stage => stage

theorem map_departed {stage : Option Stage} (other : stage ≠ some attached) :
    stage.map departed = stage := by
  cases stage with
  | none => rfl
  | some stage => cases stage <;> first | rfl | exact absurd rfl other

theorem map_arrived {stage : Option Stage} (other : stage ≠ some detached) :
    stage.map arrived = stage := by
  cases stage with
  | none => rfl
  | some stage => cases stage <;> first | rfl | exact absurd rfl other

theorem created_of_arrived {stage : Option Stage} (later : stage.map arrived = some created) :
    stage = some created := by
  obtain ⟨before, rfl, same⟩ := Option.map_eq_some_iff.mp later
  cases before <;> first | rfl | cases same

end Stage

namespace Scene

def strays (s : Scene κ) (o : ComponentId) : List ComponentId :=
  ((s.component? o).map Component.strays).getD []

def lodging? (s : Scene κ) (id : ComponentId) : Option (ComponentId × Bool) := do
  let c ← s.component? id
  let o ← c.owner
  let d ← s.component? o
  return (o, s.document.isWithin c.node d.node)

section Lodging
variable {F : List Field} {s t : Scene κ} {id o x : ComponentId} {c d : Component κ} {within : Bool}

theorem lodging?_eq_some : s.lodging? id = some (o, within) ↔ ∃ c d, s.component? id = some c ∧
    c.owner = some o ∧ s.component? o = some d ∧ s.document.isWithin c.node d.node = within := by
  simp only [lodging?, Option.bind_eq_bind, Option.bind_eq_some_iff, Option.pure_def, Option.some.injEq,
    Prod.mk.injEq]
  constructor
  · rintro ⟨c, found, o, owned, d, there, rfl, same⟩
    exact ⟨c, d, found, owned, there, same⟩
  · rintro ⟨c, d, found, owned, there, same⟩
    exact ⟨c, found, o, owned, d, there, rfl, same⟩

theorem Alike.lodging?_of (alike : s.Alike F t) (found : s.component? id = some c) :
    t.lodging? id = c.owner.bind fun o =>
      (t.component? o).map fun d => (o, t.document.isWithin c.node d.node) := by
  obtain ⟨e, there, same⟩ := alike.component id c found
  simp only [lodging?, there, same.owner, same.node, Option.bind_eq_bind, Option.bind_some, Option.pure_def,
    Option.map_eq_bind]
  rfl

theorem Alike.lodging? (alike : s.Alike F t) (out : .tree ∉ F ∧ .components ∉ F) (id : ComponentId) :
    t.lodging? id = s.lodging? id := by
  have tree : t.document.tree = s.document.tree := alike.view .tree out.1
  refine Option.ext fun ⟨o, within⟩ => ?_
  rw [lodging?_eq_some, lodging?_eq_some]
  simp only [Document.isWithin_of_tree tree]
  constructor
  · rintro ⟨c, d, found, owned, there, inside⟩
    obtain ⟨c', found', same⟩ := alike.component_of out.2 found
    obtain ⟨d', there', same'⟩ := alike.component_of out.2 there
    exact ⟨c', d', found', same.owner ▸ owned, there', same.node ▸ same'.node ▸ inside⟩
  · rintro ⟨c, d, found, owned, there, inside⟩
    obtain ⟨c', found', same⟩ := alike.component id c found
    obtain ⟨d', there', same'⟩ := alike.component o d there
    exact ⟨c', d', found', same.owner.trans owned, there', by rw [same.node, same'.node, inside]⟩

theorem Alike.strays (alike : s.Alike F t) (out : .components ∉ F ∧ .strays ∉ F) (o : ComponentId) :
    t.strays o = s.strays o :=
  congrArg (·.getD []) <|
    alike.map_component? out.1 Component.strays (fun _ _ same => same.view .strays out.2) o

theorem mem_strays_add (there : s.component? o = some d) {p : ComponentId} : x ∈ (s.modify o fun d =>
      if d.strays.contains id then d else { d with strays := d.strays ++ [id] }).strays p ↔
    x ∈ s.strays p ∨ x = id ∧ p = o := by
  rw [strays, component?_modify, strays]
  split
  · next same =>
    cases same
    rw [there]
    by_cases listed : d.strays.contains id <;> grind
  · next other => grind

theorem mem_strays_forget {p : ComponentId} :
    x ∈ (s.modify o fun d => { d with strays := d.strays.filter (· ≠ id) }).strays p ↔
      x ∈ s.strays p ∧ ¬(x = id ∧ p = o) := by
  rw [strays, component?_modify, strays]
  split
  · next same =>
    cases same
    cases s.component? o <;> simp
  · next other => grind

end Lodging

abbrev departing : List Field := .strays :: .pending :: Act.Touches.entered

def Turns (f : Stage → Stage) (ids : List ComponentId) (s t : Scene κ) : Prop :=
  ∀ x, t.stage? x = if x ∈ ids then (s.stage? x).map f else s.stage? x

structure Departs (ids : List ComponentId) (s t : Scene κ) : Prop where
  alike : s.Alike departing t
  stage : s.Turns Stage.departed ids t
  strays : ∀ x o, x ∈ t.strays o ↔ x ∈ s.strays o ∨ x ∈ ids ∧ s.lodging? x = some (o, false)

structure Arrives (ids : List ComponentId) (s t : Scene κ) : Prop where
  alike : s.Alike departing t
  stage : s.Turns Stage.arrived ids t
  strays : ∀ x o, x ∈ t.strays o ↔
    x ∈ s.strays o ∧ ¬(x ∈ ids ∧ s.stage? x = some .detached ∧ s.lodging? x = some (o, true))

section Going
variable {s t u : Scene κ} {id : ComponentId} {ids : List ComponentId}

theorem turns_of_same {f : Stage → Stage} (same : (s.stage? id).map f = s.stage? id) : s.Turns f [id] s := by
  intro x
  split
  · next listed => rw [List.mem_singleton.mp listed, same]
  · rfl

theorem Turns.of_alike {f : Stage → Stage} {F : List Field} (turns : s.Turns f ids t) (alike : t.Alike F u)
    (out : ∀ g ∈ [Field.stage, .components], g ∉ F) : s.Turns f ids u :=
  fun x => (alike.stage? out x).trans (turns x)

theorem Departs.nil (s : Scene κ) : s.Departs [] s := ⟨.refl s, fun _ => rfl, fun _ _ => by simp⟩

theorem Arrives.nil (s : Scene κ) : s.Arrives [] s := ⟨.refl s, fun _ => rfl, fun _ _ => by simp⟩

theorem Departs.of_housed (alike : s.Alike (.pending :: Act.Touches.entered) t)
    (stage : s.Turns Stage.departed [id] t)
    (housed : ∀ o, t.lodging? id ≠ some (o, false)) : s.Departs [id] t where
  alike := alike.mono (by decide)
  stage := stage
  strays x o := by
    rw [alike.strays (by decide), ← alike.lodging? (by decide)]
    grind

theorem Departs.of_astray (alike : s.Alike (.pending :: Act.Touches.entered) t)
    (stage : s.Turns Stage.departed [id] t)
    {o : ComponentId} (astray : t.lodging? id = some (o, false)) : s.Departs [id] (t.modify o fun d =>
      if d.strays.contains id then d else { d with strays := d.strays ++ [id] }) where
  alike := (alike.mono (by decide)).trans ((Act.Touches.addStray o id t).1.mono (by decide))
  stage := stage.of_alike (Act.Touches.addStray o id t).1 (by decide)
  strays x p := by
    obtain ⟨-, d, -, -, there, -⟩ := lodging?_eq_some.mp astray
    rw [mem_strays_add there, alike.strays (by decide), ← alike.lodging? (by decide)]
    grind

theorem Departs.cons (first : s.Departs [id] t) (second : t.Departs ids u) : s.Departs (id :: ids) u where
  alike := first.alike.trans second.alike
  stage x := by
    rw [second.stage, first.stage]
    cases s.stage? x with
    | none => simp
    | some stage => cases stage <;> grind [Stage.departed]
  strays x o := by
    rw [second.strays, first.strays, first.alike.lodging? (by decide)]
    grind

theorem Arrives.of_astray (alike : s.Alike Act.Touches.entered t)
    (stage : s.Turns Stage.arrived [id] t)
    (astray : ∀ o, s.stage? id = some .detached → t.lodging? id ≠ some (o, true)) : s.Arrives [id] t where
  alike := alike.mono (by decide)
  stage := stage
  strays x o := by
    rw [alike.strays (by decide), ← alike.lodging? (by decide)]
    grind

theorem Arrives.of_housed (alike : s.Alike Act.Touches.entered t)
    (stage : s.Turns Stage.arrived [id] t)
    (detached : s.stage? id = some .detached) {o : ComponentId} (housed : t.lodging? id = some (o, true)) :
    s.Arrives [id] (t.modify o fun d => { d with strays := d.strays.filter (· ≠ id) }) where
  alike := (alike.mono (by decide)).trans
    ((Act.Touches.modifyStrays o (List.filter (· ≠ id)) t).1.mono (by decide))
  stage := stage.of_alike (Act.Touches.modifyStrays o (List.filter (· ≠ id)) t).1 (by decide)
  strays x p := by
    rw [mem_strays_forget, alike.strays (by decide), ← alike.lodging? (by decide)]
    grind

theorem Arrives.cons (first : s.Arrives [id] t) (second : t.Arrives ids u) : s.Arrives (id :: ids) u where
  alike := first.alike.trans second.alike
  stage x := by
    rw [second.stage, first.stage]
    cases s.stage? x with
    | none => simp
    | some stage => cases stage <;> grind [Stage.arrived]
  strays x o := by
    rw [second.strays, first.strays, first.alike.lodging? (by decide), first.stage]
    cases s.stage? x with
    | none => simp
    | some stage => cases stage <;> grind [Stage.arrived]

end Going
end Scene

namespace Act
variable {R : Scene κ → Scene κ → Prop} {id : ComponentId} {p : Point κ σ}

theorem wp_still {F : List Field} {m : Act κ α} (touches : m.Touches F []) :
    m.wp (Leading σ ⊤ R) (fun _ q => p.scene.Alike F q.scene) p :=
  touches.wp_alone fun _ _ _ _ _ => trivial

theorem wp_setStage (f : Stage → Stage) {old : Stage} (here : p.scene.stage? id = some old) :
    (Act.setStage id (f old)).wp (Leading σ ⊤ R) (fun _ q =>
      p.scene.Alike [.stage] q.scene ∧ p.scene.Turns f [id] q.scene) p := by
  refine ⟨trivial, fun _ => ⟨.modify p.scene id fun c => .put c .stage _ (by decide), fun x => ?_⟩⟩
  refine (p.scene.stage?_setStage id x (f old)).trans ?_
  by_cases same : id = x
  · subst same
    rw [here, if_pos rfl, if_pos (List.mem_singleton_self id)]
    rfl
  · rw [if_neg same, if_neg fun listed => same (List.mem_singleton.mp listed).symm]

variable [IsEmpty κ]

theorem wp_depart : (Act.detach id).wp (Leading σ ⊤ R) (fun _ q => p.scene.Departs [id] q.scene) p := by
  refine wp_withComponent (fun c found => ?_) fun missing => ?_
  · have there : p.scene.stage? id = some c.stage := by rw [Scene.stage?, found, Option.map_some]
    extract_lets left
    have later (r) {q : Point κ σ} (alike : p.scene.Alike Touches.entered q.scene)
        (stage : p.scene.Turns Stage.departed [id] q.scene) :
        (left r).wp (Leading σ ⊤ R) (fun _ q => p.scene.Departs [id] q.scene) q := by
      have dequeues : (Act.update fun s : Scene κ => { s with
          pending := s.pending.filter (· ≠ id) }).Touches [.pending] [] :=
        .update fun s => .put s .pending _ (by decide)
      refine (wp_bind _ _).mpr (wp_mono _ (fun _ u same => ?_) (wp_still dequeues))
      have stage := stage.of_alike same (by decide)
      have alike : p.scene.Alike (.pending :: Touches.entered) u.scene :=
        (alike.mono (by decide)).trans (same.mono (by decide))
      have lodging := alike.lodging?_of found
      refine (wp_bind _ _).mpr (wp_scene.mpr ?_)
      split
      · next o owned =>
        rw [owned, Option.bind_some] at lodging
        rw [wp_ite]
        split
        · next outside =>
          refine ⟨trivial, fun _ => .of_astray alike stage ?_⟩
          rw [lodging]
          cases there : u.scene.component? o <;> simp_all
        · next inside =>
          refine .of_housed alike stage fun p astray => inside ?_
          rw [lodging] at astray
          cases there : u.scene.component? o <;> simp_all
      · next owned =>
        refine .of_housed alike stage fun o astray => ?_
        rw [lodging, owned] at astray
        cases astray
    split
    · next attached =>
      refine (wp_bind _ _).mpr (wp_mono _ (fun _ q unwired => ?_) (wp_still (.unwire id)))
      have here : q.scene.stage? id = some .attached := by rw [unwired.stage? (by decide), there, attached]
      refine (wp_bind _ _).mpr (wp_mono _ (fun _ r set => ?_) (wp_setStage Stage.departed here))
      refine (wp_bind _ _).mpr (wp_mono _ (fun _ s told => ?_)
        (wp_still ((Touches.tellParts _ _).alone (by decide))))
      refine (wp_bind _ _).mpr (wp_mono _ (fun u t hooked => ?_)
        (wp_still ((Touches.runHook _ _ _).alone (by decide))))
      have alike : p.scene.Alike Touches.entered r.scene :=
        (unwired.mono (by decide)).trans (set.1.mono (by decide))
      have stage := (set.2.of_alike told (by decide)).of_alike hooked (by decide)
      refine later u ((alike.trans (told.mono (by decide))).trans (hooked.mono (by decide))) fun x => ?_
      rw [stage, unwired.stage? (by decide)]
    · next other =>
      refine later () (.refl _) (Scene.turns_of_same (Stage.map_departed fun same => other ?_))
      exact Option.some.inj (there.symm.trans same)
  · refine .of_housed (.refl _) (Scene.turns_of_same ?_) fun o astray => ?_
    · rw [Scene.stage?, missing]
      rfl
    · obtain ⟨c, -, found, -⟩ := Scene.lodging?_eq_some.mp astray
      cases missing.symm.trans found

theorem wp_departs (ids : List ComponentId) : (each ids detach).wp (Leading σ ⊤ R)
    (fun _ q => p.scene.Departs ids q.scene) p := by
  induction ids generalizing p with
  | nil => exact .nil _
  | cons id rest ih =>
    refine (wp_actBind _ _).mpr (wp_mono _ (fun _ q first => ?_) wp_depart)
    exact wp_mono _ (fun _ _ later => first.cons later) ih

theorem wp_reenter (there : p.scene.stage? id = some .detached) :
    (Act.enter id).wp (Leading σ ⊤ R) (fun _ q => p.scene.Alike Touches.entered q.scene ∧
      p.scene.Turns Stage.arrived [id] q.scene) p := by
  refine (wp_bind _ _).mpr (wp_mono _ (fun _ q set => ?_) (wp_setStage Stage.arrived there))
  refine (wp_bind _ _).mpr (wp_mono _ (fun _ r told => ?_)
    (wp_still ((Touches.tellParts _ _).alone (by decide))))
  refine (wp_bind _ _).mpr (wp_mono _ (fun _ s hooked => ?_)
    (wp_still ((Touches.runHook _ _ _).alone (by decide))))
  refine wp_mono _ (fun _ t wired => ⟨?_, ?_⟩) (wp_still (.wire id))
  · have alike : p.scene.Alike Touches.entered r.scene :=
      (set.1.mono (by decide)).trans (told.mono (by decide))
    exact (alike.trans (hooked.mono (by decide))).trans (wired.mono (by decide))
  · exact ((set.2.of_alike told (by decide)).of_alike hooked (by decide)).of_alike wired (by decide)

theorem wp_arrive (started : p.scene.stage? id ≠ some .created) :
    (Act.connect id).wp (Leading σ ⊤ R) (fun _ q => p.scene.Arrives [id] q.scene) p := by
  have idle (other : p.scene.stage? id ≠ some .detached) : p.scene.Arrives [id] p.scene :=
    .of_astray (.refl _) (Scene.turns_of_same (Stage.map_arrived other)) fun _ detached =>
      absurd detached other
  refine wp_withComponent (fun c found => ?_) fun missing => idle (by simp [Scene.stage?, missing])
  have there : p.scene.stage? id = some c.stage := by rw [Scene.stage?, found, Option.map_some]
  split
  · next created => exact absurd (there.trans (congrArg some created)) started
  · next detached =>
    rw [detached] at there
    refine wp_withComponent (fun c found => ?_) fun missing => by simp [Scene.stage?, missing] at there
    refine (wp_bind _ _).mpr (wp_mono _ (fun _ q entered => ?_) (wp_reenter there))
    obtain ⟨alike, stage⟩ := entered
    have lodging := alike.lodging?_of found
    refine (wp_bind _ _).mpr (wp_scene.mpr ?_)
    split
    · next o owned =>
      rw [owned, Option.bind_some] at lodging
      rw [wp_ite]
      split
      · next inside =>
        refine ⟨trivial, fun _ => .of_housed alike stage there ?_⟩
        rw [lodging]
        cases there : q.scene.component? o <;> simp_all
      · next outside =>
        refine .of_astray alike stage fun p _ housed => outside ?_
        rw [lodging] at housed
        cases there : q.scene.component? o <;> simp_all
    · next owned =>
      refine .of_astray alike stage fun o _ housed => ?_
      rw [lodging, owned] at housed
      cases housed
  · next other => exact idle fun detached => other (Option.some.inj (there.symm.trans detached))

theorem wp_arrives (ids : List ComponentId) (started : ∀ id ∈ ids, p.scene.stage? id ≠ some .created) :
    (each ids connect).wp (Leading σ ⊤ R) (fun _ q => p.scene.Arrives ids q.scene) p := by
  induction ids generalizing p with
  | nil => exact .nil _
  | cons id rest ih =>
    obtain ⟨first, others⟩ := List.forall_mem_cons.mp started
    refine (wp_actBind _ _).mpr (wp_mono _ (fun _ q arrived => ?_) (wp_arrive first))
    refine wp_mono _ (fun _ _ later => arrived.cons later) (ih fun other inside created => ?_)
    rw [arrived.stage] at created
    split at created
    · exact others other inside (Stage.created_of_arrived created)
    · exact others other inside created

end Act

end LiveTree
