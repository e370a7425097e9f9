import LiveTree.Proofs.Contract.Relation
import LiveTree.Proofs.Guards.Raised

/-! Every act lowers the guards it raises. Most never raise a guard; an act that does is a bracket: it
raises the guard, does what is to be guarded and lowers it. -/
namespace LiveTree
variable {κ σ α β : Type}

instance : IsPreorder (Scene κ) (Scene.Raises []) where
  refl s := .refl s
  trans _ _ _ first second := first.trans second

def Act.Releases (m : Act κ α) : Prop := m.Leads ⊤ (Scene.Raises [])

def Act.Lowers (s : Scene κ) (G : List Guard) (m : Act κ α) : Prop :=
  ∀ (σ : Type) (p : Point κ σ), s.Raises G p.scene →
    m.wp (Leading σ ⊤ (Scene.Raises [])) (fun _ q => s.Raises [] q.scene) p

namespace Act.Releases

theorem of_touches {F : List Field} {C : List Call.Kind} {m : Act κ α} (touches : m.Touches F C)
    (out : ∀ f ∈ Field.guards, f ∉ F) : m.Releases :=
  .of_within (fun _ _ alike => ⟨trivial, .of_alike alike out⟩) touches

/-- An act that releases leaves raised what may be raised. -/
theorem keeps {m : Act κ α} (releases : m.Releases) {s : Scene κ} {G : List Guard} {p : Point κ σ}
    (before : s.Raises G p.scene) :
    m.wp (Leading σ ⊤ (Scene.Raises [])) (fun _ q => s.Raises G q.scene) p :=
  wp_mono _ (fun _ _ after => before.trans after) (releases σ p)

theorem modify {id : ComponentId} {f : Component κ → Component κ}
    (keeps : ∀ c m, (f c).marked m = true → c.marked m = true) : (Act.modify id f).Releases :=
  .update (fun _ => trivial) fun s => .modify (M := []) s id fun c m here => .inr (keeps c m here)

end Act.Releases

namespace Act.Lowers
variable {s : Scene κ} {G : List Guard}

theorem bind {m : Act κ β} {f : β → Act κ α} (first : m.Releases)
    (second : ∀ b, (f b).Lowers s G) : (m >>= f).Lowers s G := fun σ _ before =>
  (wp_bind _ _).mpr (wp_mono _ (fun b q kept => second b σ q kept) (first.keeps before))

theorem before {m : Act κ β} {f : β → Act κ α} (first : m.Lowers s G)
    (second : ∀ b, (f b).Releases) : (m >>= f).Lowers s G := fun σ p before =>
  (wp_bind _ _).mpr (wp_mono _ (fun b _ kept => (second b).keeps kept) (first σ p before))

/-- The last step of a bracket. What the guarded act did to the guards does not matter. -/
theorem update {f : Scene κ → Scene κ} (raises : ∀ t : Scene κ, t.Raises G (f t))
    (lowered : ∀ t, ∀ g ∈ G, (f t).raised g = true → s.raised g = true) :
    (Act.update f).Lowers s G := fun _ p before =>
  ⟨trivial, fun _ => before.lower (raises p.scene) (lowered p.scene)⟩

theorem modify {id : ComponentId} {f : Component κ → Component κ} {M : List Mark}
    (raises : ∀ c m, (f c).marked m = true → m ∈ M ∨ c.marked m = true)
    (lowered : ∀ c, ∀ m ∈ M, (f c).marked m = true → s.raised (.component id m) = true) :
    (Act.modify id f).Lowers s (M.map (.component id)) := by
  refine update (fun t => .modify t id raises) fun t g member here => ?_
  obtain ⟨m, inside, rfl⟩ := List.mem_map.mp member
  rw [Scene.raised_modify] at here
  obtain ⟨c, -, marked⟩ := (Option.any_eq_true _ _).mp here
  exact lowered c m inside marked

end Act.Lowers

namespace Act

/-- The first step of a bracket. -/
theorem wp_raise {G : List Guard} {f : Scene κ → Scene κ} {next : Unit → Act κ α} {p : Point κ σ}
    (raises : p.scene.Raises G (f p.scene)) (rest : (next ()).Lowers p.scene G) :
    (update f >>= next).wp (Leading σ ⊤ (Scene.Raises [])) (fun _ q => p.scene.Raises [] q.scene) p :=
  ⟨trivial, fun _ => rest σ (p.change (f p.scene)) raises⟩

end Act
end LiveTree

namespace LiveTree.Act.Releases
variable {κ α β : Type}

theorem modifyBinding (id : ComponentId) (site : Nat) (target : String) {f : Binding → Binding}
    (keeps : ∀ b, (f b).updating = b.updating) :
    (Act.modifyBinding id site target f : Act κ _).Releases := by
  refine .modify fun c m raised => ?_
  rw [c.marked_modifyBinding] at raised
  split at raised
  · next same =>
    rw [same, Component.marked]
    simpa only [keeps] using raised
  · exact raised

/-- A binding is guarded while a value travels through it. -/
theorem through (id : ComponentId) (site : Nat) (target : String) (v : Value) {m : Act κ Unit}
    (body : m.Releases) : (do
      Act.modifyBinding id site target fun b => { b with value := v, updating := true }
      m
      Act.modifyBinding id site target fun b => { b with updating := false } :
      Act κ Unit).Releases := fun σ p => by
  refine wp_raise (.modify p.scene id fun c m => c.raises_modifyBinding site target _ m) ?_
  refine .bind body fun _ => .modify (fun c m => c.raises_modifyBinding site target _ m) ?_
  intro c m inside marked
  rw [c.marked_modifyBinding, if_pos (List.mem_singleton.mp inside)] at marked
  obtain ⟨b, -, updating⟩ := (Option.any_eq_true _ _).mp marked
  cases updating

theorem installWriteBack (id : ComponentId) (site : Nat) (x : NodeId) (b : Binding) :
    (Act.installWriteBack id site x b : Act κ _).Releases := by
  refine .bind .scene fun s => ?_
  split
  · exact .pure _
  · extract_lets installed
    have later : (installed ()).Releases := 
      .bind (of_touches (.listen _ _ _) (by decide)) fun _ => modifyBinding _ _ _ fun _ => rfl
    split
    · exact .bind (of_touches (.modifyNotify _ _) (by decide)) fun _ => later
    · exact later

theorem push (id : ComponentId) (site : Nat) (target : String) :
    (Act.push id site target : Act κ _).Releases := by
  refine .bind .scene fun s => ?_
  extract_lets found
  clear_value found
  rcases found with _ | ⟨x, b⟩
  · exact .pure _
  · refine .ite (.pure _) ?_
    extract_lets ready marked
    have pushing (r) : (ready r).Releases :=
      .bind (of_touches (.evaluate _ _) (by decide)) fun v => .ite (.pure _) <|
        through id site target _ (of_touches (.assign _ _ _) (by decide))
    have marking (r) : (marked r).Releases :=
      .bind (modifyBinding _ _ _ fun _ => rfl) pushing
    exact .ite (.ite (.bind (installWriteBack _ _ _ _) marking) (marking ())) (pushing ())

theorem pushTexts (id : ComponentId) : (Act.pushTexts id : Act κ _).Releases := by
  refine .withComponent fun c => .bind (modify fun _ _ raised => raised) fun _ =>
    .bind .scene fun s => ?_
  extract_lets sites texts written
  have later (r) : (written r).Releases := .each _ fun _ => push _ _ _
  split
  · exact .ite (.bind (of_touches (.writePath _ _ _) (by decide)) later) (later ())
  · exact later ()

theorem pushBound (id : ComponentId) (changed : Option String) :
    (Act.pushBound id changed : Act κ _).Releases :=
  .withComponent fun _ => .ite (.each _ fun _ => push _ _ _) (.pure _)

theorem pushFirst (id : ComponentId) : (Act.pushFirst id : Act κ _).Releases :=
  .bind (modify fun _ _ raised => raised) fun _ => .bind (pushTexts id) fun _ => pushBound id none

theorem pushOwner (owner : ComponentId) : (Act.pushOwner owner : Act κ _).Releases :=
  .withComponent fun _ => .ite (pushFirst _) (.pure _)

theorem refresh (id : ComponentId) : (Act.refresh id : Act κ _).Releases :=
  .withComponent fun _ => .ite
    (.bind (pushTexts id) fun _ => .bind (pushBound id none) fun _ =>
      of_touches (.pushFeeds id) (by decide))
    (.pure _)

theorem writeBack (id : ComponentId) (site : Nat) (target : String) (e : Event) :
    (Act.writeBack id site target e : Act κ _).Releases := by
  refine .bind .scene fun s => ?_
  split
  · exact .pure _
  · exact .ite (through id site target _ (of_touches (.writePath _ _ _) (by decide))) (.pure _)

/-- A binding comes into a template at rest. -/
theorem insertBinding (id : ComponentId) (site : Nat) {b : Binding} (still : b.updating = false) :
    (Act.modify id fun c : Component κ =>
      (c.modifyBindings fun t => t.insert site b).rebound).Releases := by
  refine .modify fun c m => Component.marked_of_bindings (by rfl) (by rfl) (by rfl) fun i key d found => ?_
  change (c.bindings.map _).bind _ = _ at found
  rw [Option.bind_map] at found
  obtain ⟨t, there, held⟩ := Option.bind_eq_some_iff.mp found
  rcases BindingTree.eq_or_of_binding?_insert held with rfl | before
  · exact .inl still
  · exact .inr (Option.bind_eq_some_iff.mpr ⟨t, there, before⟩)

theorem eraseBinding (id : ComponentId) (site : Nat) (target : String) :
    (Act.modify id fun c : Component κ =>
      (c.modifyBindings fun t => t.erase site target).rebound).Releases := by
  refine .modify fun c m => Component.marked_of_bindings (by rfl) (by rfl) (by rfl) fun i key d found => ?_
  change (c.bindings.map _).bind _ = _ at found
  rw [Option.bind_map] at found
  obtain ⟨t, there, held⟩ := Option.bind_eq_some_iff.mp found
  exact .inr (Option.bind_eq_some_iff.mpr ⟨t, there, BindingTree.of_binding?_erase held⟩)

theorem addBinding (id : ComponentId) (expression target stableId : String) :
    (Act.addBinding id expression target stableId : Act κ _).Releases := by
  unfold Act.addBinding
  extract_lets text
  split
  · exact .pure _
  · refine .withComponent fun c => ?_
    split
    · exact .pure _
    · refine .bind (insertBinding _ _ rfl) fun _ => ?_
      refine .bind (.each _ fun b => of_touches (.uninstallWriteBack b) (by decide)) fun _ => ?_
      exact .ite (.bind (push _ _ _) fun _ => .pure _) (.pure _)

theorem removeBinding (id : ComponentId) (expression target stableId : String) :
    (Act.removeBinding id expression target stableId : Act κ _).Releases := by
  refine .withComponent fun c => ?_
  split
  · exact .pure _
  · split
    · exact .pure _
    · exact .ite (.bind (eraseBinding _ _ _) fun _ =>
        .bind (of_touches (.uninstallWriteBack _) (by decide)) fun _ => .pure _) (.pure _)

/-- A component is guarded while one of its properties is written back to the context. -/
theorem writeBackProperty (id : ComponentId) (property : String) :
    (Act.writeBackProperty id property : Act κ _).Releases := by
  refine .withComponent fun c => ?_
  split
  · split
    · refine .ite (fun σ p => ?_) (.pure _)
      refine wp_raise (.modify p.scene id fun c m => c.raises_writingBack true m) ?_
      refine .bind (of_touches (.setContextField _ _ _) (by decide)) fun _ => ?_
      refine .modify (fun c m => c.raises_writingBack false m) fun c m inside marked => ?_
      obtain rfl := List.mem_singleton.mp inside
      cases marked
    · exact .pure _
  · exact .pure _

/-- The handlers of a component are guarded while they run. They may run at the bidding of others
of the same component, which are guarded still when they are done. -/
theorem tellOfChange (id : ComponentId) (p : Property) (old new : Value) :
    (Act.tellOfChange id p old new : Act κ _).Releases := by
  refine fun σ q => wp_withComponent (fun c found => ?_) fun _ => .refl q.scene
  refine wp_raise (.modify q.scene id fun c m => c.raises_changing true m) ?_
  extract_lets restored watched observed
  -- The mark goes back to what it was at the start, so it may stay raised, but only as it was then.
  have restoring (r) : (restored r).Lowers q.scene [.component id .handlers] := by
    refine .modify (M := [.handlers]) (fun d m => d.raises_changing c.changing m) ?_
    intro d m inside marked
    obtain rfl := List.mem_singleton.mp inside
    rw [Scene.raised, found]
    exact marked
  have watching (r) : (watched r).Lowers q.scene [.component id .handlers] := by
    unfold watched
    split
    · exact .bind (of_touches (.callback _ _) (by decide)) fun _ => restoring ()
    · exact restoring ()
  have observing (r) : (observed r).Lowers q.scene [.component id .handlers] := by
    unfold observed
    split
    · exact .bind (of_touches (.notify _ _ _) (by decide)) watching
    · exact watching ()
  split
  · exact .bind (of_touches (.guarded _ _ _ _) (by decide)) observing
  · exact observing ()

theorem spread (id : ComponentId) (p : Property) (c : Component κ) (slot : Slot) (old v : Value)
    (origin : Origin) : (Act.spread id p c slot old v origin).Releases :=
  Leads.composes.spread (of_touches (.reflect _ _ _) (by decide)) (tellOfChange _ _ _ _)
    (of_touches (.announce _ _ _ _) (by decide)) (pushBound _ _) (writeBackProperty _ _) slot

theorem commit (id : ComponentId) (p : Property) (old v : Value) (origin : Origin) :
    (Act.commit id p old v origin : Act κ _).Releases := by
  refine Leads.composes.commit (modify fun c m raised => ?_) fun _ _ => spread _ _ _ _ _ _ _
  rw [c.marked_modifySlot] at raised
  split at raised
  · next same => rwa [same]
  · exact raised

theorem attempt (id : ComponentId) (p : Property) (v : Value) (origin : Origin) :
    (Act.attempt id p v origin : Act κ _).Releases :=
  Leads.composes.attempt (fun _ => of_touches (.refuse _ _) (by decide))
    (fun _ => of_touches (.validated _ _ _ _) (by decide)) fun _ _ => commit _ _ _ _ _

/-- A slot is guarded while it is written, however the write ends. -/
theorem write (id : ComponentId) (property : String) (v : Value) (origin : Origin) :
    (Act.write id property v origin : Act κ _).Releases := by
  refine .withComponent fun c => ?_
  split
  · refine .ite (.pure _) fun σ p => ?_
    refine wp_raise (.modify p.scene id fun c m => c.raises_modifySlot property _ m) ?_
    -- Faults are answers, so that every way out of the attempt comes by here.
    refine .bind (attempt _ _ _ _) fun _ => .before (.modify
      (fun c m => c.raises_modifySlot property _ m) fun c m inside marked => ?_) fun _ => .pure _
    rw [c.marked_modifySlot, if_pos (List.mem_singleton.mp inside)] at marked
    obtain ⟨slot, -, busy⟩ := (Option.any_eq_true _ _).mp marked
    cases busy
  · exact .pure _

theorem hear (l : Listener κ) (e : Event) : (Act.hear l e).Releases := by
  unfold Act.hear
  split
  · exact .bind (of_touches (.callback _ _) (by decide)) fun _ => .pure _
  · exact of_touches (.notify _ _ _) (by decide)
  · exact writeBack _ _ _ _
  · refine .bind .scene fun s => ?_
    split
    · exact .bind (.ask _) fun _ => .pure _
    · exact .pure _

theorem deliver (x : NodeId) (e : Event) : (Act.deliver x e : Act κ _).Releases := by
  unfold Act.deliver
  extract_lets e'
  refine .bind .scene fun s => .bind (.each _ fun id => .bind .scene fun s => ?_) fun _ =>
    .bind .scene fun s => .ite ?_ (.pure _)
  · split
    · exact hear _ _
    · exact .pure _
  · split
    · exact .ask _
    · exact .pure _

theorem service (s : Service) (id : ComponentId) (arguments : List Value) :
    (Act.service s id arguments : Act κ _).Releases := by
  unfold Act.service
  extract_lets text
  split
  · exact .bind (of_touches (.log _ _ _) (by decide)) fun _ => .pure _
  · exact .bind (of_touches (.localize _ _ _) (by decide)) fun _ => .pure _
  · split
    · exact of_touches (.addMessages _ _ _) (by decide)
    · exact .pure _
  · exact .bind (addBinding _ _ _ _) fun _ => .pure _
  · exact .bind (removeBinding _ _ _ _) fun _ => .pure _

end LiveTree.Act.Releases
