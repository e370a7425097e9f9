import LiveTree.Proofs.Display
import LiveTree.Proofs.Refresh.Receipt

/-! Refreshing. In an orderly scene a refresh leaves each target of the component with the value that its binding
reads, whatever components they are at and whatever those feed in turn; so a second one has nothing to do. -/
namespace LiveTree
variable {κ σ : Type}

namespace Scene
variable {base s t : Scene κ} {id : ComponentId} {i j : Nat} {target key : String} {x y : NodeId} {b d e : Binding}
  {v : Value}

theorem Continues.plain_iff (continues : base.Continues s) (there : x.index < base.document.size) :
    s.Plain x target ↔ base.Plain x target := by
  have tags : s.document.tag? = base.document.tag? := continues.course.view .elements (by decide)
  have size := there.trans_le continues.course.document.size
  rw [Plain, Plain, continues.componentAt?]
  simp only [Document.isText_iff_tag, Document.isElement_iff, tags, there, size]

theorem Ignores.of_held {name : String} {other : ComponentId} (ignores : s.Ignores other name v)
    (declares : ∀ p, t.Declares other p → s.Declares other p) (same : t.held? other name = s.held? other name) :
    t.Ignores other name v := by
  intro p declared named old busy held
  exact ignores p (declares p declared) named old busy (same ▸ held)

section Others
variable (orderly : base.Orderly) (firm : base.Firm) (continues : base.Continues s) (continues' : base.Continues t)
  (bound : base.bound? id i d.target = some (x, d)) (passes : base.Passes id i d.target x s t)
include orderly firm continues continues' bound passes

/-- What another binding of the component has brought to its target is still there. -/
theorem Bears.of_passes (bound' : base.bound? id j e.target = some (y, e)) (other : ¬(j = i ∧ e.target = d.target))
    (same : b.target = e.target) (bears : s.Bears y b v) : t.Bears y b v := by
  have site (here : y = x) : e.target ≠ d.target ∧ attributeOf e.target ≠ attributeOf d.target := by
    subst here
    obtain ⟨-, rfl⟩ := orderly.apart firm bound bound'
    have apart : e.target ≠ d.target := fun same => other ⟨rfl, same⟩
    exact ⟨apart, fun same => apart (orderly.distinct firm bound' bound same)⟩
  have inside : y.index < base.document.size := by
    obtain ⟨f, found, at_⟩ := Option.bind_eq_some_iff.mp (base.nodeAt?_of_bound? bound')
    exact (firm.each id f found).inside j y at_
  refine ⟨fun plain => ?_, fun child here => ?_⟩
  · have plain := (continues'.plain_iff inside).mp plain
    rw [← bears.plain ((continues.plain_iff inside).mpr plain)]
    by_cases here : y = x
    · refine here ▸ passes.aside (here ▸ plain.1) b.target ?_
      rw [same]
      exact (site here).2
    · have node := passes.nodes y here fun child at_ =>
        orderly.not_governs firm bound' plain.1 ⟨i, d.target, x, d, bound, at_⟩
      rw [Document.display?, node, Document.display?]
  · have at_ := (continues'.componentAt? y).symm.trans here
    have feeds : base.Feeds id child := ⟨j, e.target, y, e, bound', at_⟩
    refine (bears.fed child ((continues.componentAt? y).trans at_)).of_held (fun p declared =>
      continues.declares.mpr (continues'.declares.mp declared)) ?_
    by_cases own : y = x
    · rw [same]
      exact passes.fed child (own ▸ at_) _ (site own).1
    · refine held?_of_component (passes.others child (orderly.ne_of_feeds firm feeds) fun z there => ?_) _
      refine orderly.not_reaches_beside firm ⟨i, d.target, x, d, bound, there⟩ feeds ?_
      rintro rfl
      obtain ⟨c, found, rfl⟩ := componentAt?_spec there
      obtain ⟨c', found', rfl⟩ := componentAt?_spec at_
      cases found.symm.trans found'
      exact own rfl

theorem Carried.of_passes (other : ¬(j = i ∧ key = d.target)) (carried : s.Carried id j key) : t.Carried id j key := by
  intro y b held
  rw [passes.flow j key other] at held
  obtain ⟨ready, free, settled⟩ := carried y b held
  obtain ⟨e, bound', still⟩ := continues.course.bound?_of (by decide) held
  obtain rfl := firm.target_eq bound'
  rw [read_of_same_held passes.own]
  refine ⟨ready, free, fun defined => ⟨(settled defined).1, ?_⟩⟩
  have same : b.target = e.target := (congrArg Binding.target still : b.still.target = e.still.target)
  exact (settled defined).2.of_passes orderly firm continues continues' bound passes bound' other same

end Others

theorem Carried.of_logs (carried : s.Carried id i target) (logs : s.Logs t) : t.Carried id i target := by
  obtain ⟨lines, rfl⟩ := logs.exists_journal
  intro x b held
  obtain ⟨ready, free, settled⟩ := carried x b held
  refine ⟨ready, free, fun defined => ⟨(settled defined).1, (settled defined).2.of_logs ?_⟩⟩
  exact logs

structure Renews (base : Scene κ) (id : ComponentId) (s t : Scene κ) : Prop where
  continues : base.Continues t
  own : ∀ name, t.held? id name = s.held? id name
  keeps : ∀ j key, s.Carried id j key → t.Carried id j key
  logs : (∀ j key, s.Carried id j key) → s.Logs t

theorem Renews.refl (continues : base.Continues s) : base.Renews id s s :=
  ⟨continues, fun _ => rfl, fun _ _ carried => carried, fun _ => .refl s⟩

theorem Renews.trans {u : Scene κ} (first : base.Renews id s t) (second : base.Renews id t u) : base.Renews id s u where
  continues := second.continues
  own name := (second.own name).trans (first.own name)
  keeps j key carried := second.keeps j key (first.keeps j key carried)
  logs carried := (first.logs carried).trans (second.logs fun j key => first.keeps j key (carried j key))

theorem Pushes.renews (orderly : base.Orderly) (firm : base.Firm) (continues : base.Continues s)
    (bound : base.bound? id i d.target = some (x, d)) (pushes : base.Pushes id i d.target x s t) :
    base.Renews id s t where
  continues := pushes.continues
  own := pushes.passes.own
  keeps j key carried := by
    by_cases same : j = i ∧ key = d.target
    · obtain ⟨rfl, rfl⟩ := same
      exact carried.of_logs (pushes.logs carried)
    · exact carried.of_passes orderly firm continues pushes.continues bound pushes.passes same
  logs carried := pushes.logs (carried i d.target)

end Scene

section Refreshing
variable {base : Scene κ} {id : ComponentId} {p : Point κ σ} (orderly : base.Orderly) (firm : base.Firm)
  (continues : base.Continues p.scene)
include orderly firm continues

theorem Act.wp_turn (i : Nat) (target : String) : (Act.push id i target : Act κ _).wp (Feeding σ base) (fun _ q =>
    base.Renews id p.scene q.scene ∧ (p.scene.Idle → q.scene.Idle) ∧
      (p.scene.Idle → (∀ name, (p.scene.property id name).WellFormed) → q.scene.Carried id i target)) p := by
  cases found : p.scene.bound? id i target with
  | none =>
    unfold Act.push
    rw [wp_bind, wp_scene]
    extract_lets looked
    have missing : looked = none := found
    rw [missing]
    refine ⟨.refl continues, fun idle => idle, fun _ _ x b held => ?_⟩
    cases found.symm.trans held
  | some y =>
    obtain ⟨x, b⟩ := y
    obtain ⟨d, bound, -⟩ := continues.course.bound?_of (by decide) found
    obtain rfl := firm.target_eq bound
    refine wp_mono _ ?_ (wp_and _ (wp_push orderly firm continues bound) (wp_of_releases (.push _ _ _)))
    rintro _ q ⟨pushes, raises⟩
    exact ⟨pushes.renews orderly firm continues bound, fun idle => idle.of_raises raises, pushes.carries⟩

/-- Each binding that has its turn is carried. -/
theorem Act.wp_turns {β : Type} (items : List β) (place : β → Nat × String) {f : β → Act κ Unit}
    (pushes : ∀ a, f a = Act.push id (place a).1 (place a).2) : (Act.each items f).wp (Feeding σ base) (fun _ q =>
      base.Renews id p.scene q.scene ∧ (p.scene.Idle → q.scene.Idle) ∧
        (p.scene.Idle → (∀ name, (p.scene.property id name).WellFormed) →
          ∀ a ∈ items, q.scene.Carried id (place a).1 (place a).2)) p := by
  induction items generalizing p with
  | nil => exact ⟨.refl continues, fun idle => idle, fun _ _ a inside => by cases inside⟩
  | cons a rest ih =>
    refine (wp_actBind _ _).mpr ?_
    rw [pushes]
    refine wp_mono _ ?_ (wp_turn orderly firm continues (place a).1 (place a).2)
    rintro _ q ⟨renews, idly, carries⟩
    refine wp_mono _ ?_ (ih renews.continues)
    rintro _ r ⟨later, idly', carries'⟩
    refine ⟨renews.trans later, fun idle => idly' (idly idle), fun idle formed b inside => ?_⟩
    rcases List.mem_cons.mp inside with rfl | inside
    · exact later.keeps _ _ (carries idle formed)
    · refine carries' (idly idle) (fun name => ?_) b inside
      rw [Scene.property_of_same_held renews.own]
      exact formed name

theorem Act.wp_pushTexts {c : Component κ} (found : p.scene.component? id = some c) (spent : c.lightText = "") :
    (Act.pushTexts id : Act κ _).wp (Feeding σ base) (fun _ q =>
      base.Renews id p.scene q.scene ∧ (p.scene.Idle → q.scene.Idle)) p := by
  refine wp_withComponent (fun d there => ?_) fun missing => by cases missing.symm.trans found
  cases found.symm.trans there
  have same : p.scene.modify id (fun c => { c with lightText := "" }) = p.scene :=
    Scene.modify_of_same fun d there => by
      cases found.symm.trans there
      rw [← spent]
  refine (wp_modify_bind _ _ _).mpr ⟨trivial, fun _ => (wp_bind _ _).mpr (wp_scene.mpr ?_)⟩
  extract_lets sites texts pushed
  have later (u : Unit) : (pushed u).wp (Feeding σ base) (fun _ q =>
      base.Renews id p.scene q.scene ∧ (p.scene.Idle → q.scene.Idle))
        (p.change (p.scene.modify id fun c => { c with lightText := "" })) := by
    have here : (p.change (p.scene.modify id fun c => { c with lightText := "" })).scene = p.scene := same
    have later : base.Continues (p.change (p.scene.modify id fun c => { c with lightText := "" })).scene := by
      rw [here]
      exact continues
    refine wp_mono _ ?_ (wp_turns orderly firm later texts (fun a => (a.1, textTarget)) fun _ => rfl)
    rintro _ q ⟨renews, idly, -⟩
    rw [here] at renews idly
    exact ⟨renews, idly⟩
  split
  · rw [spent, wp_ite, if_neg (by simp)]
    exact later ()
  · exact later ()

/-- The push of all bindings leaves all of them carried. -/
theorem Act.wp_pushAll {c : Component κ} (found : p.scene.component? id = some c) (completed : c.completed = true) :
    (Act.pushBound id none : Act κ _).wp (Feeding σ base) (fun _ q =>
      base.Renews id p.scene q.scene ∧ (p.scene.Idle → q.scene.Idle) ∧
        (p.scene.Idle → (∀ name, (p.scene.property id name).WellFormed) →
          ∀ i target, q.scene.Carried id i target)) p := by
  refine wp_withComponent (fun d there => ?_) fun missing => by cases missing.symm.trans found
  cases found.symm.trans there
  have firm' := continues.firm firm
  have ready : c.bindingsReady = true :=
    ((firm'.each id c.footing (by rw [Scene.footing?, found]; rfl)).settled completed).2
  extract_lets bindings
  rw [wp_ite, if_pos ready]
  refine wp_mono _ ?_ (wp_turns orderly firm continues _ (fun a => (a.1, a.2.target)) fun _ => rfl)
  rintro _ q ⟨renews, idly, carries⟩
  refine ⟨renews, idly, fun idle formed i target x b held => ?_⟩
  obtain ⟨e, before, still⟩ := renews.continues.course.bound?_of (by decide) held
  obtain ⟨b', bound, -⟩ := continues.course.exists_bound? (by decide) before
  obtain ⟨d, t, there, own, -, binding⟩ := p.scene.component_of_bound? bound
  cases found.symm.trans there
  have inside : (i, b') ∈ bindings := by
    unfold bindings
    rw [own]
    exact BindingTree.mem_bindings binding
  have carried := carries idle formed (i, b') (List.mem_filter.mpr ⟨inside, rfl⟩)
  rw [firm'.target_eq bound] at carried
  exact carried x b held

omit firm in
theorem Act.wp_pushFeeds_unlinked :
    (Act.pushFeeds id : Act κ _).wp (Feeding σ base) (fun _ q => q.scene = p.scene) p := by
  refine wp_withComponent (fun c found => ?_) fun _ => rfl
  obtain ⟨d, before, alike⟩ := continues.component_of found
  have link : c.link = d.link := alike.view .link (by decide)
  have unlinked := (orderly.proper id d before).unlinked
  rw [link]
  split
  · next context feeds listeners bound =>
    rw [bound] at unlinked
    cases unlinked
  · rfl

/-- A refresh leaves all bindings of the component carried, and where they are it only writes lines. -/
theorem Act.wp_refresh {c : Component κ} (found : p.scene.component? id = some c) (completed : c.completed = true) :
    (Act.refresh id : Act κ _).wp (Feeding σ base) (fun _ q => base.Renews id p.scene q.scene ∧
      (p.scene.Idle → (∀ name, (p.scene.property id name).WellFormed) →
        ∀ i target, q.scene.Carried id i target)) p := by
  refine wp_withComponent (fun e there => ?_) fun missing => by cases missing.symm.trans found
  cases found.symm.trans there
  rw [wp_ite, if_pos completed]
  obtain ⟨d, before, alike⟩ := continues.component_of found
  have done : c.completed = d.completed := alike.view .completed (by decide)
  have spent : c.lightText = "" := by
    have text : c.lightText = d.lightText := alike.view .lightText (by decide)
    rw [text]
    exact (orderly.proper id d before).spent (done ▸ completed)
  refine (wp_bind _ _).mpr (wp_mono _ ?_ (wp_pushTexts orderly firm continues found spent))
  rintro _ q ⟨first, idly⟩
  obtain ⟨e, later, alike'⟩ := first.continues.course.component id d before
  have completed' : e.completed = true := by
    have done' : e.completed = d.completed := alike'.view .completed (by decide)
    rw [done', ← done, completed]
  refine (wp_bind _ _).mpr (wp_mono _ ?_ (wp_pushAll orderly firm first.continues later completed'))
  rintro _ r ⟨second, -, carries⟩
  refine wp_mono _ ?_ (wp_pushFeeds_unlinked orderly second.continues)
  rintro _ u same
  rw [same]
  refine ⟨first.trans second, fun idle formed => carries (idly idle) fun name => ?_⟩
  rw [Scene.property_of_same_held first.own]
  exact formed name

end Refreshing

/-- A refresh from outside of a completed component. -/
theorem Environment.renews_of_refresh [IsEmpty κ] (env : Environment κ σ) {base : Scene κ} (orderly : base.Orderly)
    (firm : base.Firm) (typed : base.Typed) {id : ComponentId} {w w' : World κ σ} (continues : base.Continues w.scene)
    {c : Component κ} (found : w.scene.component? id = some c) (completed : c.completed = true) {fuel : Nat}
    {a : (Request.refresh (κ := κ) id).Answer} (played : env.play fuel (.request (.refresh id)) w = some (a, w')) :
    base.Renews id w.scene w'.scene ∧ (w.scene.Idle → (∀ name, (w.scene.property id name).WellFormed) →
      ∀ i target, w'.scene.Carried id i target) := by
  have pre : (Script.request (.refresh id)).wp (Feeding σ base) (fun _ q => base.Renews id w.scene q.scene ∧
      (w.scene.Idle → (∀ name, (w.scene.property id name).WellFormed) →
        ∀ i target, q.scene.Carried id i target)) ⟨[], w⟩ :=
    ⟨trivial, fun _ => Act.wp_refresh (p := Point.request ⟨[], w⟩ (.refresh id)) orderly firm continues found completed⟩
  have ended := (env.result_record fuel (.request (.refresh id)) w).trans played
  refine (Environment.record_fulfils (Feeding.meets env orderly firm typed) fuel _ pre ?_).2 a w' ended
  exact Along.iff_splits.mpr fun _ _ _ _ => trivial

/-- A component that is not completed is not refreshed. -/
theorem Environment.eq_of_refresh {env : Environment κ σ} {id : ComponentId} {w w' : World κ σ}
    (open_ : ∀ c, w.scene.component? id = some c → c.completed = false) {fuel : Nat}
    {a : (Request.refresh (κ := κ) id).Answer} (played : env.play fuel (.request (.refresh id)) w = some (a, w')) :
    w' = w := by
  rw [play, Script.request, Script.run] at played
  split at played
  · next a v ran =>
    cases played
    rcases Act.run_withComponent_eq_some ran with ⟨c, found, ran⟩ | ⟨-, -, same⟩
    · rw [open_ c found] at ran
      cases ran
      rfl
    · exact same
  · cases played

/-- To refresh is idempotent in orderly scenes, with every nesting of components: after a first refresh a second one
changes nothing but lines of the journal. No consumer code is called, and the component's values name no member twice.
The first refresh has brought to each target the value that its binding reads, or one that the target's component does
not take, and whatever that has set off below has left the other targets alone. -/
theorem refresh_settles [IsEmpty κ] (env : Environment κ σ) {w w' w'' : World κ σ} (reached : env.Reachable w)
    (orderly : w.scene.Orderly) (id : ComponentId) (formed : ∀ name, (w.scene.property id name).WellFormed)
    {fuel fuel' : Nat} {a a' : (Request.refresh (κ := κ) id).Answer}
    (first : env.play fuel (.request (.refresh id)) w = some (a, w'))
    (second : env.play fuel' (.request (.refresh id)) w' = some (a', w'')) : w'.scene.Logs w''.scene := by
  have firm := (Scene.founded_of_reachable reached).firm
  have typed : w.scene.Typed := reached.typed fuel (.request (.refresh id)) (.inl rfl)
  have enlisted : w.scene.Enlisted := reached.keeps (fun _ _ _ alike => alike.enrols.enlisted)
    Scene.enlisted_ofConfig
  have start : w.scene.Continues w.scene := ⟨.refl _, orderly.tuned, enlisted⟩
  by_cases done : ∃ c, w.scene.component? id = some c ∧ c.completed = true
  · obtain ⟨c, found, completed⟩ := done
    obtain ⟨renews, carries⟩ := env.renews_of_refresh orderly firm typed start found completed first
    obtain ⟨d, later, alike⟩ := renews.continues.course.component id c found
    have completed' : d.completed = true :=
      (alike.view .completed (by decide) : d.completed = c.completed).trans completed
    obtain ⟨renews', -⟩ := env.renews_of_refresh orderly firm typed renews.continues later completed' second
    exact renews'.logs (carries reached.idle formed)
  · have open_ (c : Component κ) (found : w.scene.component? id = some c) : c.completed = false :=
      Bool.eq_false_iff.mpr fun completed => done ⟨c, found, completed⟩
    obtain rfl := Environment.eq_of_refresh open_ first
    obtain rfl := Environment.eq_of_refresh open_ second
    exact .refl _

mutual
def Value.decidableWellFormed : (v : Value) → Decidable v.WellFormed
  | .array items => decidableWellFormedItems items
  | .object members => @instDecidableAnd _ _ inferInstance (decidableWellFormedMembers members)
  | .undefined | .null | .bool _ | .number _ | .string _ | .date _ | .function _ => isTrue trivial

def Value.decidableWellFormedItems : (items : List Value) → Decidable (Value.WellFormedItems items)
  | [] => isTrue trivial
  | v :: rest => @instDecidableAnd _ _ (decidableWellFormed v) (decidableWellFormedItems rest)

def Value.decidableWellFormedMembers : (members : List (String × Value)) → Decidable (Value.WellFormedMembers members)
  | [] => isTrue trivial
  | (_, v) :: rest => @instDecidableAnd _ _ (decidableWellFormed v) (decidableWellFormedMembers rest)
end

instance (v : Value) : Decidable v.WellFormed := v.decidableWellFormed

namespace Scene
variable {s : Scene κ} {id : ComponentId}

instance (s : Scene κ) (c : Component κ) (x : NodeId) (b : Binding) : Decidable (s.Neat c x b) :=
  decidable_of_iff (_ ∧ _ ∧ _ ∧ _) ⟨fun all => ⟨all.1, all.2.1, all.2.2.1, all.2.2.2⟩,
    fun neat => ⟨neat.reads, neat.order, neat.text, neat.declared⟩⟩

instance (s : Scene κ) (c : Component κ) : Decidable (s.Proper c) :=
  decidable_of_iff (_ ∧ _ ∧ _ ∧ _ ∧ _) ⟨fun all => ⟨all.1, all.2.1, all.2.2.1, all.2.2.2.1, all.2.2.2.2⟩,
    fun proper => ⟨proper.unlinked, proper.spent, proper.attributes, proper.distinct, proper.neat⟩⟩

instance (s : Scene κ) (x : NodeId) (event : String) : (k : Listener κ) → Decidable (s.Heeds x event k)
  | .writeBack id i target => inferInstanceAs (Decidable (target ≠ textTarget ∧
      ∃ y ∈ s.bound? id i target, y.1 = x ∧ s.changeEvent? x y.2 = some event))
  | .handler .. => isFalse fun heeds => heeds
  | .consumer _ | .contextHandler .. => isTrue trivial

theorem tuned_iff : s.Tuned ↔ ∀ i < s.document.size, ∀ l ∈ s.document.listed ⟨i⟩,
    ∀ k ∈ (s.listeners.get? l.2.index).join, s.Heeds ⟨i⟩ l.1 k := by
  refine ⟨fun tuned i _ => tuned ⟨i⟩, fun tuned x l listed => ?_⟩
  refine tuned x.index (Nat.lt_of_not_le fun beyond => ?_) l listed
  have missing : s.document.node? x = none := Array.getElem?_eq_none beyond
  rw [Document.listed, missing] at listed
  cases listed

instance (s : Scene κ) : Decidable s.Tuned := decidable_of_iff _ tuned_iff.symm

instance (s : Scene κ) : Decidable s.Orderly :=
  decidable_of_iff (s.called = [] ∧ (∀ id ∈ s.componentIds, ∀ c ∈ s.component? id, s.Proper c) ∧ s.Tuned)
    ⟨fun all => ⟨all.1, fun id c found => all.2.1 id (mem_componentIds found) c found, all.2.2⟩,
      fun orderly => ⟨orderly.uncalled, fun id _ => orderly.proper id, orderly.tuned⟩⟩

theorem wellFormed_property (formed : ∀ c ∈ s.component? id, ∀ e ∈ c.slots, e.2.value.WellFormed) (name : String) :
    (s.property id name).WellFormed := by
  rw [property_eq, slot?]
  cases found : s.component? id with
  | none => trivial
  | some c =>
    rw [Option.bind_some]
    cases held : Keyed.get? c.slots name with
    | none => trivial
    | some slot => exact formed c found _ (Keyed.mem_of_get? held)

end Scene

/-- Components in a component: the outer one shows its title and gives it to the middle one both ways, which gives it
to the inner one, which shows it. Where no events tell of changes, the middle one may be given another, and what the
outer one shows is written over. -/
def enclosing : Script Empty Unit Unit := do
  let _ ← Script.request (.register (Declaration.define {
    tag := "x-in"
    properties := [.ofKind "v" .string]
    template := some "<b>[[v]]</b>" }))
  let _ ← Script.request (.register (Declaration.define {
    tag := "x-mid"
    properties := [.ofKind "u" .string]
    template := some "<x-in v='[[u]]'></x-in>" }))
  let _ ← Script.request (.register (Declaration.define {
    tag := "x-out"
    properties := [.ofKind "title" .string]
    template := some "<p title='[[title]]'></p><x-mid u='\x7b\x7btitle\x7d\x7d'></x-mid>" }))
  let x ← Script.request (.createElement "x-out")
  Script.request (.appendChild Document.root x)
  let _ ← Script.request (.set ⟨0⟩ "title" (.string "Ada") true)
  let _ ← Script.request (.set ⟨1⟩ "u" (.string "Bob") true)
  Script.request (.edit (.setAttribute ⟨2⟩ "title" "Eve"))

theorem refresh_settles_enclosing : ∃ w w' w'',
    silent.play 60 enclosing ⟨.ofConfig { changeEvents := false } none, ()⟩ = some ((), w) ∧
      silent.play 60 (.request (.refresh ⟨0⟩)) w = some ((), w') ∧
      silent.play 60 (.request (.refresh ⟨0⟩)) w' = some ((), w'') ∧
      w.scene.document.seen? ⟨2⟩ "title" = some "Eve" ∧ w'.scene.document.seen? ⟨2⟩ "title" = some "Ada" ∧
      w.scene.document.seen? ⟨6⟩ textTarget = some "Bob" ∧ w'.scene.document.seen? ⟨6⟩ textTarget = some "Ada" ∧
      w'.scene.Logs w''.scene := by
  have played : ∃ r ∈ silent.play 60 enclosing ⟨.ofConfig { changeEvents := false } none, ()⟩, r.2.scene.Orderly ∧
      (∀ c ∈ r.2.scene.component? ⟨0⟩, ∀ e ∈ c.slots, e.2.value.WellFormed) ∧
      ∃ q ∈ silent.play 60 (.request (.refresh ⟨0⟩)) r.2, (silent.play 60 (.request (.refresh ⟨0⟩)) q.2).isSome = true ∧
        r.2.scene.document.seen? ⟨2⟩ "title" = some "Eve" ∧ q.2.scene.document.seen? ⟨2⟩ "title" = some "Ada" ∧
        r.2.scene.document.seen? ⟨6⟩ textTarget = some "Bob" ∧
        q.2.scene.document.seen? ⟨6⟩ textTarget = some "Ada" := by
    decide +kernel
  obtain ⟨⟨⟨⟩, w⟩, made, orderly, formed, ⟨⟨⟩, w'⟩, first, again, shown⟩ := played
  obtain ⟨⟨⟨⟩, w''⟩, second⟩ := Option.isSome_iff_exists.mp again
  have reached : silent.Reachable w := (Environment.Reachable.start _ none ()).play enclosing made
  refine ⟨w, w', w'', made, first, second, shown.1, shown.2.1, shown.2.2.1, shown.2.2.2, ?_⟩
  exact refresh_settles silent reached orderly ⟨0⟩ (Scene.wellFormed_property formed) first second

end LiveTree
