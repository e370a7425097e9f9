import LiveTree.Proofs.Placement

/-! What components remember. Only two acts write to the strays of a component: one that adds a component
whose owner it is, unless it is there already, and one that takes one away. So a component remembers only
what it owns, whatever else runs. -/
namespace LiveTree
variable {κ σ α : Type}

namespace Scene

def Remembers (s : Scene κ) : Prop := ∀ o d, s.component? o = some d →
  d.strays.Nodup ∧ ∀ id ∈ d.strays, ∃ c, s.component? id = some c ∧ c.owner = some o

def Bequeaths (s t : Scene κ) : Prop :=
  ∀ id c, s.component? id = some c → ∃ d, t.component? id = some d ∧ d.owner = c.owner

instance : IsPreorder (Scene κ) Bequeaths where
  refl _ _ c found := ⟨c, found, rfl⟩
  trans _ _ _ first second id c found := by
    obtain ⟨d, there, same⟩ := first id c found
    obtain ⟨e, later, same'⟩ := second id d there
    exact ⟨e, later, same'.trans same⟩

variable {F : List Field} {s t : Scene κ} {id o : ComponentId}

theorem Alike.bequeaths (alike : s.Alike F t) : s.Bequeaths t := fun id c found => by
  obtain ⟨d, there, same⟩ := alike.component id c found
  exact ⟨d, there, same.owner⟩

namespace Remembers
variable (remembers : s.Remembers)
include remembers

/-- What is remembered goes over if no list has grown. -/
theorem shrink (bequeaths : s.Bequeaths t) (less : ∀ o d, t.component? o = some d →
      d.strays = [] ∨ ∃ c, s.component? o = some c ∧ d.strays.Sublist c.strays) : t.Remembers := by
  intro o d there
  rcases less o d there with none | ⟨c, found, less⟩
  · rw [none]
    exact ⟨.nil, nofun⟩
  · obtain ⟨once, owned⟩ := remembers o c found
    refine ⟨once.sublist less, fun id inside => ?_⟩
    obtain ⟨e, here, owner⟩ := owned id (less.subset inside)
    obtain ⟨e', later, same⟩ := bequeaths id e here
    exact ⟨e', later, same.trans owner⟩

theorem of_alike (alike : s.Alike F t) (out : .components ∉ F ∧ .strays ∉ F) : t.Remembers := by
  refine remembers.shrink alike.bequeaths fun o d there => ?_
  obtain ⟨c, found, same⟩ := alike.component_of out.1 there
  have view : d.strays = c.strays := same.view .strays out.2
  exact .inr ⟨c, found, view ▸ .refl _⟩

theorem push {c : Component κ} (bare : c.strays = []) :
    ({ s with components := s.components.push c } : Scene κ).Remembers := by
  refine remembers.shrink (Alike.push s c).bequeaths fun o d there => ?_
  rw [component?_push] at there
  split at there
  · cases there
    exact .inl bare
  · exact .inr ⟨d, there, .refl _⟩

/-- One more is remembered that is owned, and was not remembered yet. -/
theorem grow (bequeaths : s.Bequeaths t) (owned : ∃ c, s.component? id = some c ∧ c.owner = some o)
    (more : ∀ p d, t.component? p = some d → ∃ c, s.component? p = some c ∧
      (d.strays = c.strays ∨ p = o ∧ id ∉ c.strays ∧ d.strays = c.strays ++ [id])) : t.Remembers := by
  have later {x p : ComponentId} (before : ∃ c, s.component? x = some c ∧ c.owner = some p) :
      ∃ d, t.component? x = some d ∧ d.owner = some p := by
    obtain ⟨c, found, owner⟩ := before
    obtain ⟨d, there, same⟩ := bequeaths x c found
    exact ⟨d, there, same.trans owner⟩
  intro p d there
  obtain ⟨c, found, same | ⟨rfl, new, same⟩⟩ := more p d there
  · rw [same]
    exact (remembers p c found).imp_right fun old x inside => later (old x inside)
  · obtain ⟨once, old⟩ := remembers p c found
    rw [same]
    refine ⟨List.concat_eq_append ▸ List.Nodup.concat new once, fun x inside => later ?_⟩
    rcases List.mem_append.mp inside with inside | last
    · exact old x inside
    · exact List.mem_singleton.mp last ▸ owned

variable (o id) in
theorem forget : (s.modify o fun d => { d with strays := d.strays.filter (· ≠ id) }).Remembers ∧
    s.Bequeaths (s.modify o fun d => { d with strays := d.strays.filter (· ≠ id) }) := by
  have bequeaths := (Act.Touches.modifyStrays o (List.filter (· ≠ id)) s).1.bequeaths
  refine ⟨remembers.shrink bequeaths fun p d there => ?_, bequeaths⟩
  rw [component?_modify] at there
  split at there
  · obtain ⟨c, found, rfl⟩ := Option.map_eq_some_iff.mp there
    exact .inr ⟨c, found, List.filter_sublist⟩
  · exact .inr ⟨d, there, .refl _⟩

theorem add (owned : ∃ c, s.component? id = some c ∧ c.owner = some o) : (s.modify o fun d =>
      if d.strays.contains id then d else { d with strays := d.strays ++ [id] }).Remembers ∧
    s.Bequeaths (s.modify o fun d =>
      if d.strays.contains id then d else { d with strays := d.strays ++ [id] }) := by
  have bequeaths := (Act.Touches.addStray o id s).1.bequeaths
  refine ⟨remembers.grow bequeaths owned fun p d there => ?_, bequeaths⟩
  rw [component?_modify] at there
  split at there
  · next same =>
    obtain ⟨c, found, rfl⟩ := Option.map_eq_some_iff.mp there
    refine ⟨c, found, ?_⟩
    split
    · exact .inl rfl
    · next new => exact .inr ⟨same.symm, by simpa using new, rfl⟩
  · exact ⟨d, there, .inl rfl⟩

end Remembers

theorem remembers_ofConfig (config : Config) (journal : Option Journal) :
    (ofConfig config journal : Scene κ).Remembers :=
  fun _ _ found => nomatch found

end Scene

abbrev Act.Remembers (s : Scene κ) (m : Act κ α) : Prop :=
  m.Upholds Scene.Remembers Scene.Bequeaths (fun _ => True) s

namespace Act.Remembers
variable {s : Scene κ}

theorem of_touches {F : List Field} {C : List Call.Kind} {m : Act κ α} (touches : m.Touches F C)
    (out : .components ∉ F ∧ .strays ∉ F) : m.Remembers s :=
  .of_within (fun _ _ remembers alike => ⟨remembers.of_alike alike out, alike.bequeaths⟩)
    (fun _ _ => trivial) touches

theorem update {f : Scene κ → Scene κ} (same : ∀ t : Scene κ, (f t).components = t.components) :
    (Act.update f).Remembers s := by
  refine Upholds.update fun t remembers _ => ?_
  have there (id) : (f t).component? id = t.component? id := by
    rw [Scene.component?, same, Scene.component?]
  have bequeaths : t.Bequeaths (f t) := fun id c found => ⟨c, (there id).trans found, rfl⟩
  refine ⟨remembers.shrink bequeaths fun o d found => .inr ⟨d, ?_, .refl _⟩, bequeaths⟩
  exact (there o).symm.trans found

theorem edit (f : Document → Document) : (Act.edit f : Act κ _).Remembers s := update fun _ => rfl

theorem instantiate (x : NodeId) (d : Definition κ) (owner : Option ComponentId) :
    (Act.instantiate x d owner : Act κ _).Remembers s := by
  refine .sceneBind fun t _ _ => .bind (.update fun u remembers _ => ?_) fun _ => ?_
  · exact ⟨remembers.push rfl, (Scene.Alike.push u _).bequeaths⟩
  · refine .bind (of_touches (.setStage _ _) (by decide)) fun _ => ?_
    refine .bind (of_touches (.tellParts _ _) (by decide)) fun _ => ?_
    exact .bind (of_touches (.runHook _ _ _) (by decide)) fun _ => .pure _

theorem createElement (tag : String) : (Act.createElement tag : Act κ _).Remembers s :=
  Upholds.composes.createElement (fun _ => edit _) instantiate tag

theorem applyTemplate (id : ComponentId) : (Act.applyTemplate id : Act κ _).Remembers s := by
  have text (text : String) : (Act.createText text : Act κ _).Remembers s :=
    of_touches (.createText text) (by decide)
  have noted (id : ComponentId) (fault : Fault) : (Act.note (some id) fault : Act κ _).Remembers s :=
    of_touches (.note _ _) (by decide)
  have grown := Upholds.composes.growBelow (fun f _ => edit f) text createElement
  have templated := Upholds.composes.growTemplate (fun _ => update fun _ => rfl) grown
  have expanded := Upholds.composes.expand (fun f _ => edit f) noted templated
  refine Upholds.composes.applyTemplate expanded ?_ ?_ ?_ ?_ ?_ id
  · exact fun _ _ => of_touches (.layOut _ _) (by decide)
  · exact fun _ _ _ => of_touches (.placeLight _ _ _) (by decide)
  · exact fun _ _ _ _ _ => of_touches (C := []) (.modify fun c => .applied c _ _ _ _) (by decide)
  · exact fun _ _ => of_touches (.awaitNested _ _) (by decide)
  · exact fun _ => .ask _ trivial

theorem attach (id : ComponentId) : (Act.attach id : Act κ _).Remembers s :=
  Upholds.composes.attach (of_touches (.enter id) (by decide)) fun o =>
    .update fun _ remembers _ => remembers.forget id o

/-- A component that left is remembered by its owner. -/
theorem detach (id : ComponentId) : (Act.detach id : Act κ _).Remembers s := by
  refine .withComponent fun t c _ _ found => ?_
  extract_lets left
  have later (r) : (left r).Remembers t := by
    refine .bind (update fun _ => rfl) fun _ => .sceneBind fun u _ since => ?_
    split
    · next o owned =>
      refine .ite (fun _ => .update fun v remembers since' => ?_) fun _ => .pure _
      obtain ⟨d, there, same⟩ := IsTrans.trans _ _ _ since since' id c found
      exact remembers.add ⟨d, there, same.trans owned⟩
    · exact .pure _
  refine .ite (fun _ => ?_) fun _ => later ()
  refine .bind (of_touches (.unwire id) (by decide)) fun _ => ?_
  refine .bind (of_touches (.setStage _ _) (by decide)) fun _ => ?_
  refine .bind (of_touches (.tellParts _ _) (by decide)) fun _ => ?_
  exact .bind (of_touches (.runHook _ _ _) (by decide)) later

theorem connect (id : ComponentId) : (Act.connect id : Act κ _).Remembers s :=
  Upholds.composes.connect (fun _ => update fun _ => rfl) (of_touches (.configure id) (by decide))
    (applyTemplate id) (attach id)

theorem request (r : Request κ) : r.act.Remembers s := by
  cases r with
  | register d =>
    exact Upholds.composes.register connect d (fun _ => of_touches (.note _ _) (by decide))
      (fun _ => update fun _ => rfl) (fun k => of_touches (.registered k) (by decide)) fun x _ owner =>
        instantiate x _ owner
  | createElement tag => exact createElement tag
  | appendChild parent child => exact Upholds.composes.appendChild detach connect parent child (edit _)
  | removeChild parent child => exact Upholds.composes.removeChild detach (fun _ => edit _) parent child
  | finishLoading =>
    exact Upholds.composes.finishLoading connect (update fun _ => rfl)
      (of_touches .resolveWaiting (by decide))
  | _ =>
    refine of_touches (.request _) ?_
    dsimp only [Touches.requested]
    decide

theorem call (c : Call κ) : c.Upholds Scene.Remembers Scene.Bequeaths (fun _ => True) s := by
  cases c with
  | write id name v origin => exact of_touches (.write id name v origin) (by decide)
  | connect id => exact connect id
  | release id => exact of_touches (.release id) (by decide)
  | service x id arguments => exact of_touches (.service x id arguments) (by decide)
  | deliver x e => exact of_touches (.deliver x e) (by decide)
  | callback k o => trivial
  | apply f arguments => trivial

end Act.Remembers

theorem Environment.Reachable.remembers {env : Environment κ σ} {w : World κ σ} (reached : env.Reachable w) :
    w.scene.Remembers :=
  reached.upholds (fun r _ => Act.Remembers.request r) (fun c _ => Act.Remembers.call c) env
    Scene.remembers_ofConfig

/-- Whatever is asked of a live tree and whatever callbacks do, in each scene between operations and in each
that is met in the midst of one, a component remembers only strays that it owns, and none of them twice. -/
theorem strays_of_reachable (env : Environment κ σ) {w : World κ σ} (reached : env.Reachable w) (fuel : Nat)
    (m : Script κ σ α) {s : Scene κ} (met : s = w.scene ∨ ∃ x ∈ (env.record fuel m w).steps, s ∈ x.scenes) :
    ∀ o d, s.component? o = some d →
      d.strays.Nodup ∧ ∀ id ∈ d.strays, ∃ c, s.component? id = some c ∧ c.owner = some o :=
  reached.upholds_met (fun r _ => Act.Remembers.request r) (fun c _ => Act.Remembers.call c) env
    Scene.remembers_ofConfig fuel m met

def denning : Script Empty Unit NodeId := do
  Script.request (.setDefaults [])
  let _ ← Script.request (.register (Declaration.define { tag := "x-cat" }))
  let _ ← Script.request (.register (Declaration.define {
    tag := "x-den"
    template := some "<x-cat></x-cat>" }))
  let den ← Script.request (.createElement "x-den")
  Script.request (.appendChild Document.root den)
  return den

theorem strays_of_reachable_denning : ∃ w d,
    silent.play 30 (denning >>= fun _ => .request (.appendChild Document.root ⟨2⟩)) ⟨.ofConfig {} none, ()⟩ =
        some ((), w) ∧
      w.scene.component? ⟨0⟩ = some d ∧ d.strays = [⟨1⟩] ∧
      d.strays.Nodup ∧ ∀ id ∈ d.strays, ∃ c, w.scene.component? id = some c ∧ c.owner = some ⟨0⟩ := by
  have answered : (silent.play 30 (denning >>= fun _ => .request (.appendChild Document.root ⟨2⟩))
      ⟨.ofConfig {} none, ()⟩).bind (fun r => (r.2.scene.component? ⟨0⟩).map Component.strays) =
        some [⟨1⟩] := by decide +kernel
  obtain ⟨⟨_, w⟩, played, answered⟩ := Option.bind_eq_some_iff.mp answered
  obtain ⟨d, found, strays⟩ := Option.map_eq_some_iff.mp answered
  have reached : silent.Reachable w := (Environment.Reachable.start _ none ()).play _ played
  exact ⟨w, d, played, found, strays,
    strays_of_reachable silent reached 0 denning (.inl rfl) ⟨0⟩ d found⟩

end LiveTree
