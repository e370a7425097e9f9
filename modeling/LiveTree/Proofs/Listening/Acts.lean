import LiveTree.Proofs.Listening.Contract

/-! What the acts that bind, write and deliver do to the books. -/
namespace LiveTree
variable {κ σ α : Type} {id whose : ComponentId}

namespace Act
variable {p : Point κ σ}

theorem wp_unlistenAll (ls : List (NodeId × String × ListenerId)) :
    (unlistenAll ls : Act κ Unit).wp (Keeping σ id) (fun _ q =>
      q.scene.components = p.scene.components ∧
      q.scene.listeners.size = p.scene.listeners.size ∧
      ∀ l, q.scene.own? l = if l ∈ ls.map (·.2.2) then none else p.scene.own? l) p := by
  induction ls generalizing p with
  | nil => exact ⟨rfl, rfl, fun _ => rfl⟩
  | cons w rest ih =>
    refine (wp_actBind _ _).mpr (Keeping.takes (wp_mono _ ?_ ih))
    rintro _ q ⟨components, size, own⟩
    refine ⟨components, size.trans (Arena.size_modify _ _ _), fun l => ?_⟩
    refine (own l).trans ((congrArg _ (Scene.own?_remove (s := p.scene) rfl l)).trans ?_)
    rw [List.map_cons]
    by_cases first : l = w.2.2
    · rw [if_pos first, ite_self, if_pos (List.mem_cons.mpr (.inl first))]
    · have same : l ∈ w.2.2 :: rest.map (·.2.2) ↔ l ∈ rest.map (·.2.2) := by simp [first]
      simp only [if_neg first, same]

theorem wp_listenForContext (x : NodeId) (context : ContextId) (events : List (String × String)) :
    (listenForContext x context events : Act κ _).wp (Keeping σ id) (fun ws q =>
      q.scene.components = p.scene.components ∧
      p.scene.Hears q.scene (ws.map (·.2.2)) none) p := by
  induction events generalizing p with
  | nil => exact ⟨rfl, .refl _ _⟩
  | cons e rest ih =>
    refine (wp_bind _ _).mpr (Keeping.takes ((wp_bind _ _).mpr (wp_mono _ ?_ ih)))
    rintro ws q ⟨components, hears⟩
    exact ⟨components, hears.cons rfl rfl⟩

namespace Tends

/-- A consumer's listener belongs to no entry. -/
theorem listen (x : NodeId) (event : String) (k : κ) :
    (Act.listen x event (.consumer k)).Tends id (Scene.Since id) := by
  intro σ p kept
  refine Keeping.takes ?_
  exact kept.of_hears rfl (.push (k := .consumer k) rfl)

theorem modifyBinding (whose : ComponentId) (i : Nat) (target : String) {f : Binding → Binding}
    (idle : ∀ b, (f b).idle = b.idle) :
    (Act.modifyBinding whose i target f : Act κ _).Tends id (Scene.Since id) :=
  .update fun _ kept => kept.modifyBinding whose i target idle

/-- What is done at the first push of a two-way binding. -/
theorem wp_installWriteBack {p : Point κ σ} (kept : p.scene.Kept id) {c : Component κ} {i : Nat}
    {target : String} {b : Binding} (found : p.scene.component? whose = some c)
    (held : c.binding? i target = some b) (new : b.ready = false) (x : NodeId) :
    (do
      Act.installWriteBack whose i x b
      Act.modifyBinding whose i target fun b => { b with ready := true }
      : Act κ Unit).wp (Keeping σ id) (fun _ q => q.scene.Kept id ∧ p.scene.Since id q.scene) p := by
  have named : b.target = target := ((kept.coherent whose c found).2 i target b held).named
  subst named
  unfold Act.installWriteBack
  refine (wp_bind _ _).mpr ((wp_bind _ _).mpr (wp_scene.mpr ?_))
  split
  · next quiet =>
    refine Keeping.takes (kept.ready found held ?_)
    rintro ⟨-, text, plain, reads⟩
    have asked : p.scene.changeEvent? x b = none := by simpa [text, plain] using quiet
    unfold Scene.changeEvent? at asked
    split at asked
    · cases asked
    · split at asked <;> cases asked
    · next called =>
      rw [called] at reads
      cases reads
  · next event _ =>
    extract_lets installed
    have later {q : Point κ σ} (here : q.scene.Kept id) (since : p.scene.Since id q.scene)
        {d : Component κ} (there : q.scene.component? whose = some d)
        (same : d.binding? i b.target = some b) : (installed ()).wp (Keeping σ id) (fun _ q =>
          (Act.modifyBinding whose i b.target fun b => { b with ready := true }).wp (Keeping σ id)
            (fun _ q => q.scene.Kept id ∧ p.scene.Since id q.scene) q) q := by
      refine (wp_bind _ _).mpr (Keeping.takes (Keeping.takes (Keeping.takes ?_)))
      refine And.imp_right (fun step => IsTrans.trans _ _ _ since step) ?_
      exact here.install there same new x event rfl rfl
    split
    · next child _ =>
      have alike : p.scene.Alike [.notify] _ := (Touches.modifyNotify child b.target p.scene).1
      obtain ⟨next, step⟩ := kept.of_alike alike (by decide)
      obtain ⟨d, there, same⟩ := alike.component whose c found
      have trees : d.bindings = c.bindings := same.view .flow (by decide)
      refine (wp_modify_bind _ _ _).mpr (Keeping.takes (later (q := p.change _) next step there ?_))
      rwa [Component.binding?, trees]
    · exact later kept (Std.Refl.refl _) found held

theorem push (whose : ComponentId) (i : Nat) (target : String) :
    (Act.push whose i target : Act κ _).Tends id (Scene.Since id) := by
  intro σ p kept
  refine (wp_bind _ _).mpr (wp_scene.mpr ?_)
  extract_lets y
  cases located : y with
  | none => exact ⟨kept, Std.Refl.refl _⟩
  | some y =>
    obtain ⟨x, b⟩ := y
    obtain ⟨c, found, held⟩ : ∃ c, p.scene.component? whose = some c ∧ c.binding? i target = some b := by
      obtain ⟨c, found, rest⟩ := Option.bind_eq_some_iff.mp located
      obtain ⟨t, grown, rest⟩ := Option.bind_eq_some_iff.mp rest
      obtain ⟨site, there, rest⟩ := Option.bind_eq_some_iff.mp rest
      obtain ⟨d, held, same⟩ := Option.bind_eq_some_iff.mp rest
      cases same
      exact ⟨c, found, Option.bind_eq_some_iff.mpr ⟨t, grown, held⟩⟩
    refine (wp_ite _ _ _).mpr ?_
    split
    · exact ⟨kept, Std.Refl.refl _⟩
    extract_lets ready marked
    have pushing (r) : (ready r).Tends id (Scene.Since id) := by
      refine bind (of_touches (.evaluate _ _) (by decide)) fun v => composes.ite (pure _) ?_
      refine bind (modifyBinding _ _ _ fun _ => rfl) fun _ => ?_
      exact bind (of_touches (.assign _ _ _) (by decide)) fun _ => modifyBinding _ _ _ fun _ => rfl
    refine (wp_ite _ _ _).mpr ?_
    split
    · next new =>
      have unready : b.ready = false := by simpa using new
      refine (wp_ite _ _ _).mpr ?_
      split
      · refine (wp_bind _ _).mpr ?_
        refine wp_mono _ (fun _ q marked => ?_) ((wp_bind _ _).mp (wp_installWriteBack kept found held unready x))
        exact (wp_bind _ _).mpr (wp_mono _ (fun _ r ended => (pushing ()).after ended.1 ended.2) marked)
      · next other =>
        obtain ⟨next, step⟩ := kept.ready found held fun listens => other listens.1
        exact (wp_bind _ _).mpr (Keeping.takes ((pushing ()).after (p := p.change _) next step))
    · exact pushing () σ p kept

theorem writePath (whose : ComponentId) (path : String) (v : Value) :
    (Act.writePath whose path v : Act κ _).Tends id (Scene.Since id) :=
  of_touches (.writePath _ _ _) (by decide)

theorem pushTexts (whose : ComponentId) : (Act.pushTexts whose : Act κ _).Tends id (Scene.Since id) := by
  have emptied : (Act.modify whose fun c : Component κ => { c with lightText := "" }).Touches
      [.lightText] [] := .modify fun c => .put c .lightText _ (by decide)
  refine composes.withComponent fun c => bind (of_touches emptied (by decide)) fun _ =>
    composes.sceneBind fun s => ?_
  extract_lets sites texts written
  have later (r) : (written r).Tends id (Scene.Since id) := composes.each _ fun _ => push _ _ _
  split
  · exact composes.ite (bind (writePath _ _ _) later) (later ())
  · exact later ()

theorem pushBound (whose : ComponentId) (changed : Option String) :
    (Act.pushBound whose changed : Act κ _).Tends id (Scene.Since id) :=
  composes.withComponent fun _ => composes.ite (composes.each _ fun _ => push _ _ _) (pure _)

theorem pushFirst (whose : ComponentId) : (Act.pushFirst whose : Act κ _).Tends id (Scene.Since id) := by
  have marked : (Act.modify whose fun c : Component κ => { c with bindingsReady := true }).Touches
      [.bindingsReady] [] := .modify fun c => .put c .bindingsReady _ (by decide)
  exact bind (of_touches marked (by decide)) fun _ => bind (pushTexts _) fun _ => pushBound _ _

theorem writeBack (whose : ComponentId) (i : Nat) (target : String) (e : Event) :
    (Act.writeBack whose i target e : Act κ _).Tends id (Scene.Since id) := by
  refine composes.sceneBind fun s => ?_
  split
  · exact pure _
  · refine composes.ite ?_ (pure _)
    refine bind (modifyBinding _ _ _ fun _ => rfl) fun _ => ?_
    exact bind (writePath _ _ _) fun _ => modifyBinding _ _ _ fun _ => rfl

end Tends

/-- A binding that is replaced or removed does not listen any more. -/
theorem wp_rebind {p : Point κ σ} (kept : p.scene.Kept id) {c : Component κ}
    (found : p.scene.component? whose = some c) (i : Nat) (target : String)
    {f : BindingTree → BindingTree} (handlers : ∀ t, (f t).handlers = t.handlers)
    (other : ∀ t j key, ¬(j = i ∧ key = target) → (f t).binding? j key = t.binding? j key)
    (fresh : ∀ t b, (f t).binding? i target = some b → b.listener = none ∧ b.Coherent target) :
    (Act.unlistenAll ((c.binding? i target).bind Binding.listener).toList : Act κ _).wp
      (Keeping σ id) (fun _ q => q.scene.Kept id ∧ p.scene.Since id q.scene)
      (p.change (p.scene.modify whose fun c => (c.modifyBindings f).rebound)) := by
  refine wp_mono _ ?_ (wp_unlistenAll _)
  rintro _ q ⟨components, size, own⟩
  refine kept.rebind found handlers other fresh components size fun l => ?_
  rw [own, Component.entries, Option.toList_map]
  rfl

namespace Tends

theorem addBinding (whose : ComponentId) (expression target stableId : String) :
    (Act.addBinding whose expression target stableId : Act κ _).Tends id (Scene.Since id) := by
  unfold Act.addBinding
  extract_lets text
  split
  · exact pure _
  · next token _ =>
    intro σ p kept
    refine wp_withComponent (fun c found => ?_) fun _ => ⟨kept, Std.Refl.refl _⟩
    split
    · exact ⟨kept, Std.Refl.refl _⟩
    · next i _ =>
      extract_lets q
      refine (wp_modify_bind _ _ _).mpr (Keeping.takes ((wp_bind _ _).mpr ?_))
      have rebound := wp_rebind (σ := σ) kept found i target
        (f := fun t => t.insert i (.ofToken target token q)) ?_ ?_ ?_
      · refine wp_mono _ (fun _ r (ended : r.scene.Kept id ∧ p.scene.Since id r.scene) => ?_) ?_
        · refine after ?_ ended.1 ended.2
          exact composes.ite (bind (push _ _ _) fun _ => pure _) (pure _)
        · cases held : c.binding? i target with
          | none =>
            rw [held] at rebound
            exact rebound
          | some b =>
            rw [held] at rebound
            exact (wp_actBind _ _).mpr rebound
      · exact fun t => t.handlers_modifySite i (Keyed.insert · target (.ofToken target token q))
      · intro t j key apart
        rw [t.binding?_insert, if_neg fun both => apart ⟨both.1.symm, both.2⟩]
      · intro t b held
        rw [t.binding?_insert, if_pos ⟨rfl, rfl⟩] at held
        obtain ⟨_, -, rfl⟩ := Option.map_eq_some_iff.mp held
        exact ⟨rfl, Binding.coherent_ofToken _ _ _⟩

theorem removeBinding (whose : ComponentId) (expression target stableId : String) :
    (Act.removeBinding whose expression target stableId : Act κ _).Tends id (Scene.Since id) := by
  intro σ p kept
  refine wp_withComponent (fun c found => ?_) fun _ => ⟨kept, Std.Refl.refl _⟩
  split
  · exact ⟨kept, Std.Refl.refl _⟩
  · next i _ =>
    split
    · exact ⟨kept, Std.Refl.refl _⟩
    · next b held =>
      refine (wp_ite _ _ _).mpr ?_
      split
      · have rebound := wp_rebind (σ := σ) kept found i target
          (f := fun t => t.erase i target) ?_ ?_ ?_
        · rw [held, Option.bind_some] at rebound
          refine (wp_modify_bind _ _ _).mpr (Keeping.takes ((wp_bind _ _).mpr ?_))
          exact wp_mono _ (fun _ _ ended => ended) rebound
        · exact fun t => t.handlers_modifySite i (Keyed.erase · target)
        · intro t j key apart
          rw [t.binding?_erase, if_neg fun both => apart ⟨both.1.symm, both.2⟩]
        · intro t b held
          rw [t.binding?_erase, if_pos ⟨rfl, rfl⟩] at held
          cases held
      · exact ⟨kept, Std.Refl.refl _⟩

/-- Listeners that call functions of a context belong to no entry. -/
theorem unbindContext (whose : ComponentId) :
    (Act.unbindContext whose : Act κ _).Tends id (Scene.Since id) := by
  intro σ p kept
  refine wp_withComponent (fun c found => ?_) fun _ => ⟨kept, Std.Refl.refl _⟩
  have untied := kept.modify whose (f := fun c => { c with link := none }) (fun _ _ => rfl)
    (fun _ _ listed => absurd listed List.not_mem_nil) (fun _ _ coherent => coherent) fun _ _ _ => rfl
  refine (wp_modify_bind _ _ _).mpr (Keeping.takes ?_)
  split
  · next context feeds listeners linked =>
    refine (wp_bind _ _).mpr (wp_mono _ ?_ (wp_unlistenAll listeners))
    rintro _ q ⟨components, size, own⟩
    have tied (l) (listed : l ∈ listeners.map (·.2.2)) : p.scene.own? l = none := by
      refine (kept.booked.tied whose l ?_).2
      rw [Scene.ties, found, Option.map_some, Option.getD_some, Component.ties, linked]
      exact listed
    have quiet (l) : q.scene.own? l = p.scene.own? l := by
      rw [own]
      split
      · next listed => exact (tied l listed).symm
      · rfl
    obtain ⟨next, step⟩ := untied.1.of_quiet (t := q.scene) components quiet (Nat.le_of_eq size.symm)
    have left (f : Context → Context) : (Act.update fun s : Scene κ =>
        { s with contexts := s.contexts.modify context.index f }).Touches [.contexts] [] :=
      .update fun s => .put s .contexts _ (by decide)
    exact (of_touches (left _) (by decide)).after next (IsTrans.trans _ _ _ untied.2 step)
  · exact untied

theorem pushFeeds (whose : ComponentId) : (Act.pushFeeds whose : Act κ _).Tends id (Scene.Since id) :=
  of_touches (.pushFeeds _) (by decide)

theorem bindContext (whose : ComponentId) (context : ContextId) :
    (Act.bindContext whose context : Act κ _).Tends id (Scene.Since id) := by
  refine composes.sceneBind fun s => composes.ite (pure _) (composes.withComponent fun c => ?_)
  refine bind (unbindContext whose) fun _ => composes.sceneBind fun s => ?_
  intro σ p kept
  refine (wp_bind _ _).mpr (wp_mono _ ?_ (wp_listenForContext _ _ _))
  rintro listeners q ⟨components, hears⟩
  obtain ⟨heard, step⟩ := kept.of_hears components hears
  extract_lets feeds
  have tied := heard.modify whose (f := fun c => { c with link := some (.bound context feeds listeners) })
    (fun _ _ => rfl) (fun _ l listed => .inr ?_) (fun _ _ coherent => coherent) fun _ _ _ => rfl
  · have subscribed (f : Context → Context) : (Act.update fun s : Scene κ =>
        { s with contexts := s.contexts.modify context.index f }).Touches [.contexts] [] :=
      .update fun s => .put s .contexts _ (by decide)
    refine (wp_modify_bind _ _ _).mpr (Keeping.takes ?_)
    refine after (p := q.change _) ?_ tied.1 (IsTrans.trans _ _ _ step tied.2)
    exact bind (of_touches (subscribed _) (by decide)) fun _ => bind (pushFeeds _) fun _ => pure _
  · have fresh := hears.here l listed
    refine ⟨fresh.2, ?_⟩
    rw [hears.quiet, Option.eq_none_iff_forall_ne_some]
    intro k own
    exact Nat.not_lt_of_le fresh.1 (Scene.lt_of_own? own)

theorem resolveContext (whose : ComponentId) :
    (Act.resolveContext whose : Act κ _).Tends id (Scene.Since id) := by
  refine composes.sceneBind fun s => ?_
  split
  · exact pure _
  · split
    · exact bind (bindContext _ _) fun _ => pure _
    · exact update fun s kept => kept.modify whose (fun _ _ => rfl)
        (fun _ _ listed => absurd listed List.not_mem_nil) (fun _ _ coherent => coherent) fun _ _ _ => rfl

theorem registerContext (name : String) (context : ContextId) :
    (Act.registerContext name context : Act κ _).Tends id (Scene.Since id) := by
  have named : (Act.update fun s : Scene κ =>
      { s with namedContexts := s.namedContexts.insert name context }).Touches [.namedContexts] [] :=
    .update fun s => .put s .namedContexts _ (by decide)
  refine bind (of_touches named (by decide)) fun _ => composes.sceneBind fun s => ?_
  exact composes.each _ fun _ => bind (bindContext _ _) fun _ => pure _

theorem resolveWaiting : (Act.resolveWaiting : Act κ _).Tends id (Scene.Since id) := by
  refine composes.sceneBind fun s => composes.each _ fun w => composes.sceneBind fun s => ?_
  split
  · exact bind (bindContext _ _) fun _ => pure _
  · exact pure _

theorem refresh (whose : ComponentId) : (Act.refresh whose : Act κ _).Tends id (Scene.Since id) :=
  composes.withComponent fun _ => composes.ite
    (bind (pushTexts _) fun _ => bind (pushBound _ _) fun _ => pushFeeds _) (pure _)

theorem write (whose : ComponentId) (name : String) (v : Value) (origin : Origin) :
    (Act.write whose name v origin : Act κ _).Tends id (Scene.Since id) := by
  have slot (name : String) (f : Slot → Slot) (keeps : ∀ slot, (f slot).notify = slot.notify) :
      (Act.modify whose fun c : Component κ => c.modifySlot name f).Tends id (Scene.Since id) :=
    of_touches (.modifyValue _ _ keeps) (by decide)
  have spread (p : Property) (c : Component κ) (s : Slot) (old x : Value) :
      (Act.spread whose p c s old x origin).Tends id (Scene.Since id) :=
    composes.spread (of_touches (.reflect _ _ _) (by decide))
      (of_touches (.tellOfChange _ _ _ _) (by decide)) (of_touches (.announce _ _ _ _) (by decide))
      (pushBound _ _) (of_touches (.writeBackProperty _ _) (by decide)) s
  have attempt (p : Property) : (Act.attempt whose p v origin : Act κ _).Tends id (Scene.Since id) :=
    composes.attempt (fun _ => of_touches (.refuse _ _) (by decide))
      (fun _ => of_touches (.validated _ _ _ _) (by decide)) fun old x =>
        composes.commit (slot _ _ fun _ => rfl) fun c s => spread p c s old x
  exact composes.write (fun busy => slot _ _ fun _ => rfl) attempt

theorem hear (l : Listener κ) (e : Event) : (Act.hear l e).Tends id (Scene.Since id) := by
  unfold Act.hear
  split
  · exact bind (of_touches (.callback _ _) (by decide)) fun _ => pure _
  · exact of_touches (.notify _ _ _) (by decide)
  · exact writeBack _ _ _ _
  · refine composes.sceneBind fun s => ?_
    split
    · exact bind (ask _) fun _ => pure _
    · exact pure _

theorem deliver (x : NodeId) (e : Event) : (Act.deliver x e : Act κ _).Tends id (Scene.Since id) := by
  unfold Act.deliver
  extract_lets e'
  refine composes.sceneBind fun s => bind (composes.each _ fun l => composes.sceneBind fun s => ?_)
    fun _ => composes.sceneBind fun s => composes.ite ?_ (pure _)
  · split
    · exact hear _ _
    · exact pure _
  · split
    · exact ask _
    · exact pure _

theorem service (x : Service) (whose : ComponentId) (arguments : List Value) :
    (Act.service x whose arguments : Act κ _).Tends id (Scene.Since id) := by
  unfold Act.service
  extract_lets text
  split
  · exact bind (of_touches (.log _ _ _) (by decide)) fun _ => pure _
  · exact bind (of_touches (.localize _ _ _) (by decide)) fun _ => pure _
  · split
    · exact of_touches (.addMessages _ _ _) (by decide)
    · exact pure _
  · exact bind (addBinding _ _ _ _) fun _ => pure _
  · exact bind (removeBinding _ _ _ _) fun _ => pure _

end Tends
end Act
end LiveTree
