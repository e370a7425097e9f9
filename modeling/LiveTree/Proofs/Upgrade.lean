import LiveTree.Proofs.Readiness
import LiveTree.Proofs.Reachable

/-! Elements and the components at them. An element gets its component when it is made, if its tag
is registered by then, or when its tag is registered, if it is in the document by then. No other
act makes components, so that an element that is outside the document when its tag is registered
has none from then on, also after it has been put into the document. -/
namespace LiveTree
variable {κ σ α : Type}

theorem Document.tag?_createElement (d : Document) (tag : String) (x : NodeId) :
    (d.createElement tag).2.tag? x =
      if x = (d.createElement tag).1 then some tag.toLower else d.tag? x := by
  obtain ⟨i⟩ := x
  rw [tag?_eq_bind, createElement, node?_add, tag?_eq_bind]
  simp only [add, NodeId.mk.injEq]
  split <;> rfl

namespace Scene

def Bare (s : Scene κ) (x : NodeId) : Prop :=
  ∃ tag, s.document.tag? x = some tag ∧ s.isRegistered tag = true ∧ s.componentAt? x = none

def Tagged (s : Scene κ) : Prop := ∀ key d, s.definitions.get? key = some d → d.tag = key

theorem Tagged.insert {s t : Scene κ} {d : Definition κ} (tagged : s.Tagged)
    (definitions : t.definitions = s.definitions.insert d.tag d) : t.Tagged := by
  intro key e found
  rw [definitions] at found
  by_cases here : key = d.tag
  · rw [here, Keyed.get?_insert_self] at found
    cases found
    exact here.symm
  · rw [Keyed.get?_insert_of_ne _ _ here] at found
    exact tagged key e found

structure Equips (s t : Scene κ) : Prop where
  document : s.document.Follows t.document
  tagged : s.Tagged → t.Tagged
  vacant : ∀ x, t.componentAt? x = none → s.componentAt? x = none
  bare : s.document.Sound → s.Tagged → ∀ x, t.Bare x → s.Bare x

theorem Equips.refl (s : Scene κ) : s.Equips s :=
  ⟨.refl _, fun tagged => tagged, fun _ free => free, fun _ _ _ bare => bare⟩

theorem Equips.trans {s t u : Scene κ} (first : s.Equips t) (second : t.Equips u) : s.Equips u where
  document := first.document.trans second.document
  tagged tagged := second.tagged (first.tagged tagged)
  vacant x free := first.vacant x (second.vacant x free)
  bare sound tagged x bare := first.bare sound tagged x
    (second.bare (first.document.sound sound) (first.tagged tagged) x bare)

instance : IsPreorder (Scene κ) Equips where
  refl := .refl
  trans _ _ _ := .trans

section Equips
variable {F : List Field} {s t : Scene κ}

theorem Alike.vacant (alike : s.Alike F t) (x : NodeId) (free : t.componentAt? x = none) :
    s.componentAt? x = none := by
  rw [componentAt?_eq_none] at free ⊢
  intro id c found same
  obtain ⟨d, there, alike⟩ := alike.component id c found
  exact free id d there (alike.node.trans same)

theorem Alike.equips (alike : s.Alike F t) (out : ∀ f ∈ [Field.elements, .definitions], f ∉ F) :
    s.Equips t := by
  have elements : t.document.tag? = s.document.tag? := alike.view .elements (out _ (by simp))
  have types : t.definitions = s.definitions := alike.view .definitions (out _ (by simp))
  refine ⟨alike.document, ?_, alike.vacant, ?_⟩
  · intro tagged
    rwa [Tagged, types]
  · rintro - - x ⟨tag, here, known, free⟩
    rw [elements] at here
    rw [isRegistered, definition?, types] at known
    exact ⟨tag, here, known, alike.vacant x free⟩

/-- A type in the place of one of its tag. -/
theorem equips_define {old : Definition κ} (d : Definition κ) {tag : String}
    (found : s.definition? tag = some old) (same : d.tag = old.tag) :
    s.Equips { s with definitions := s.definitions.insert d.tag d } := by
  refine ⟨.refl _, fun tagged => tagged.insert rfl, fun _ free => free, ?_⟩
  rintro - tagged x ⟨other, here, known, free⟩
  refine ⟨other, here, ?_, free⟩
  by_cases taken : other.toLower = d.tag
  · have lower : old.tag = tag.toLower := tagged _ old found
    rw [isRegistered, definition?, taken, same, lower, ← definition?, found]
    rfl
  · rw [isRegistered, definition?, Keyed.get?_insert_of_ne _ _ taken] at known
    exact known

/-- An element is not bare once a component has been made at it. -/
theorem componentAt?_push (s : Scene κ) (c : Component κ) :
    ({ s with components := s.components.push c } : Scene κ).componentAt? c.node ≠ none := by
  intro free
  refine componentAt?_eq_none.mp free ⟨s.components.size⟩ c ?_ rfl
  rw [component?_push, if_pos rfl]

theorem equips_push (s : Scene κ) (c : Component κ) :
    s.Equips { s with components := s.components.push c } :=
  (Alike.push s c).equips (by decide)

end Equips

/-- All that could become bare is the new element. -/
theorem equips_createElement (s : Scene κ) {t : Scene κ} {tag : String}
    (kept : (s.edit fun _ => (s.document.createElement tag).2).Equips t)
    (done : ¬t.Bare (s.document.createElement tag).1) : s.Equips t := by
  have follows := Document.follows_createElement s.document tag
  refine ⟨follows.trans kept.document, kept.tagged, kept.vacant, ?_⟩
  intro sound tagged x bare
  obtain ⟨other, here, known, free⟩ := kept.bare (follows.sound sound) tagged x bare
  have apart : x ≠ (s.document.createElement tag).1 := fun same => done (same ▸ bare)
  have old : s.document.tag? x = some other := by
    rw [← here]
    exact ((s.document.tag?_createElement tag x).trans (if_neg apart)).symm
  exact ⟨other, old, known, free⟩

end Scene

abbrev Act.Equips (m : Act κ α) : Prop := m.Leads ⊤ Scene.Equips

namespace Act.Equips

theorem of_touches {F : List Field} {C : List Call.Kind} {m : Act κ α} (touches : m.Touches F C)
    (out : ∀ f ∈ [Field.elements, .definitions], f ∉ F) : m.Equips :=
  .of_within (fun _ _ alike => ⟨trivial, alike.equips out⟩) touches

theorem closed : Closed fun {_} (m : Act κ _) => m.Equips where
  of_touches touches out := by
    have sub : ∀ f ∈ [Field.elements, .definitions], f ∈ Field.telling := by decide
    exact of_touches touches fun f inside => out f (sub f inside)
  bind := .bind

/-- A component that has been made stays at its node. -/
theorem wp_instantiate {p : Point κ σ} (x : NodeId) (d : Definition κ)
    (owner : Option ComponentId) :
    (Act.instantiate x d owner).wp (Leading σ ⊤ Scene.Equips)
      (fun _ q => p.scene.Equips q.scene ∧ q.scene.componentAt? x ≠ none) p := by
  have rest (id : ComponentId) : (do
      setStage id .created
      tellParts id .created
      runHook id "created" Hooks.created
      return id : Act κ ComponentId).Equips :=
    .bind (of_touches (.setStage id .created) (by decide)) fun _ =>
      .bind (of_touches (.tellParts id .created) (by decide)) fun _ =>
        .bind (of_touches (.runHook id _ _) (by decide)) fun _ => .pure id
  have made := p.scene.equips_push (.new d x owner)
  have there := p.scene.componentAt?_push (.new d x owner)
  refine ⟨trivial, fun _ => wp_mono _ (fun _ q kept => ?_) (rest _ σ (p.change _))⟩
  exact ⟨made.trans kept, fun free => there (kept.vacant x free)⟩

theorem createElement (tag : String) : (Act.createElement tag : Act κ _).Equips := by
  intro σ p
  refine (wp_bind _ _).mpr (wp_scene.mpr ?_)
  dsimp -zeta only
  refine (wp_bind _ _).mpr ⟨trivial, fun _ => ?_⟩
  split
  · refine (wp_bind _ _).mpr (wp_mono _ (fun _ q kept => ?_) (wp_instantiate _ _ _))
    exact p.scene.equips_createElement kept.1 fun ⟨_, _, _, free⟩ => kept.2 free
  · next unknown =>
    refine p.scene.equips_createElement (.refl _) ?_
    rintro ⟨other, here, known, -⟩
    have lower : tag.toLower = other := by
      rw [← Option.some.injEq, ← here]
      exact ((p.scene.document.tag?_createElement tag _).trans (if_pos rfl)).symm
    have missing : p.scene.isRegistered other = false := by
      rw [Scene.isRegistered, Scene.definition?, ← lower, String.toLower_toLower,
        ← Scene.definition?, unknown]
      rfl
    exact Bool.eq_false_iff.mp missing known

theorem configure (id : ComponentId) : (Act.configure id : Act κ _).Equips :=
  of_touches (.configure id) (by decide)

theorem connect (id : ComponentId) : (Act.connect id : Act κ _).Equips :=
  closed.connect createElement configure id

theorem addCapability (tag : String) (c : Capability κ) : (Act.addCapability tag c).Equips := by
  intro σ p
  refine (wp_bind _ _).mpr (wp_scene.mpr ?_)
  split
  · exact .refl _
  · next d added =>
    obtain ⟨old, found, extended⟩ := Option.bind_eq_some_iff.mp added
    have defined := Scene.equips_define d found (Definition.tag_add? extended)
    have adopting (ids : List ComponentId) : (do
        Act.each ids fun id => modify id (·.adopt d c)
        return true : Act κ Bool).Equips :=
      .bind (.each ids fun _ => of_touches (C := []) (.modify fun i => .adopt i d c) (by decide))
        fun _ => .pure true
    refine (wp_bind _ _).mpr ⟨trivial, fun _ => ?_⟩
    exact (adopting _).after defined

theorem call (c : Call κ) : c.Leads ⊤ Scene.Equips := by
  cases c with
  | write id name v origin => exact of_touches (.write id name v origin) (by decide)
  | connect id => exact connect id
  | release id => exact of_touches (.release id) (by decide)
  | service s id arguments => exact of_touches (.service s id arguments) (by decide)
  | deliver x e => exact of_touches (.deliver x e) (by decide)
  | callback k o => trivial
  | apply f arguments => trivial

/-- Every request but that of a registration. -/
theorem request (r : Request κ) (other : ∀ d, r ≠ .register d) : r.act.Equips := by
  cases r with
  | register d => exact absurd rfl (other d)
  | addCapability tag c => exact addCapability tag c
  | createElement tag => exact createElement tag
  | appendChild parent child => exact closed.appendChild createElement configure parent child
  | finishLoading =>
    exact closed.finishLoading createElement configure (of_touches .resolveWaiting (by decide))
  | _ =>
    refine of_touches (.request _) ?_
    dsimp only [Touches.requested]
    decide

end Act.Equips

/-- A type is registered while an element of its tag lies outside the document. -/
def Scene.Overlooks (s : Scene κ) (d : Definition κ) (x : NodeId) : Prop :=
  s.isRegistered d.tag = false ∧ s.document.tag? x = some d.tag ∧ s.document.isConnected x = false

def Scene.Leaves (s : Scene κ) (r : Request κ) (x : NodeId) : Prop :=
  ∃ d, r = .register d ∧ (x = Document.root ∨ s.Overlooks d x)

structure Scene.EquipsBut (r : Request κ) (s t : Scene κ) : Prop where
  document : s.document.Follows t.document
  tagged : s.Tagged → t.Tagged
  bare : s.document.Sound → s.Tagged → ∀ x, t.Bare x → s.Bare x ∨ s.Leaves r x

theorem Scene.Equips.but {s t : Scene κ} (equips : s.Equips t) (r : Request κ) :
    s.EquipsBut r t where
  document := equips.document
  tagged := equips.tagged
  bare sound tagged x bare := .inl (equips.bare sound tagged x bare)

/-- The elements in the document that have the new tag get components. -/
theorem Scene.equipsBut_register {s u t : Scene κ} {d e : Definition κ}
    (unknown : s.isRegistered d.tag = false) (tag : e.tag = d.tag)
    (document : u.document = s.document)
    (definitions : u.definitions = s.definitions.insert e.tag e)
    (vacant : ∀ x, u.componentAt? x = none → s.componentAt? x = none) (kept : u.Equips t)
    (upgraded : ∀ x ∈ u.document.descendants Document.root,
      u.document.tag? x = some e.tag → u.componentAt? x = none → t.componentAt? x ≠ none) :
    s.EquipsBut (.register d) t := by
  refine ⟨document ▸ kept.document, fun before => kept.tagged (before.insert definitions), ?_⟩
  intro sound before x bare
  have sound' : u.document.Sound := document ▸ sound
  obtain ⟨other, here, known, free⟩ := kept.bare sound' (before.insert definitions) x bare
  have lower : other.toLower = other := sound'.lower x other here
  by_cases new : other = e.tag
  · have outside : x ∉ u.document.descendants Document.root := by
      intro inside
      obtain ⟨_, _, _, free'⟩ := bare
      exact upgraded x inside (new ▸ here) free free'
    rw [sound'.mem_descendants_iff, not_and_or, not_not, document] at outside
    rw [new, tag, document] at here
    refine .inr ⟨d, rfl, outside.imp id fun apart => ?_⟩
    exact ⟨unknown, here, Bool.eq_false_iff.mpr apart⟩
  · rw [isRegistered, definition?, definitions, lower, Keyed.get?_insert_of_ne _ _ new] at known
    rw [document] at here
    refine .inl ⟨other, here, ?_, vacant x free⟩
    rw [isRegistered, definition?, lower, known]

namespace Act

theorem wp_upgrade {p : Point κ σ} (d : Definition κ) (xs : List NodeId) :
    (upgrade d xs).wp (Leading σ ⊤ Scene.Equips) (fun _ q =>
      p.scene.Equips q.scene ∧ ∀ x ∈ xs, q.scene.componentAt? x ≠ none) p := by
  induction xs generalizing p with
  | nil => exact ⟨.refl _, fun _ => nofun⟩
  | cons x rest ih =>
    refine (wp_bind _ _).mpr (wp_scene.mpr ((wp_bind _ _).mpr ?_))
    refine wp_mono _ (fun _ q made => ?_) (Equips.wp_instantiate x d _)
    refine (wp_bind _ _).mpr (wp_mono _ (fun _ r kept => ?_) ih)
    have still : r.scene.componentAt? x ≠ none := fun free => made.2 (kept.1.vacant x free)
    exact ⟨made.1.trans kept.1, List.forall_mem_cons.mpr ⟨still, kept.2⟩⟩

variable [IsEmpty κ]

theorem wp_register {p : Point κ σ} (d : Definition κ) :
    (register d).wp (Leading σ ⊤ Scene.Equips)
      (fun _ q => p.scene.EquipsBut (.register d) q.scene) p := by
  refine (wp_bind _ _).mpr (wp_scene.mpr ?_)
  rw [wp_ite]
  split
  · exact (Scene.Equips.refl _).but _
  next unknown =>
  extract_lets e
  have tag : e.tag = d.tag := d.tag_compose _
  have noted : (each e.schema.problems (note none) : Act κ Unit).Touches [.journal] [] :=
    .each _ fun _ => .note_none _
  refine (wp_bind _ _).mpr (wp_mono _ ?_ (noted.wp_alone fun _ _ _ _ _ => trivial))
  intro _ q alike
  -- There is no one to tell, so that the document is still the same.
  have alone : (p.scene.waiting.get? e.tag).getD [] = [] := by
    cases (p.scene.waiting.get? e.tag).getD [] with
    | nil => rfl
    | cons k rest => exact isEmptyElim k
  rw [alone]
  refine (wp_bind _ _).mpr ⟨trivial, fun _ => (wp_bind _ _).mpr ?_⟩
  refine (wp_bind _ _).mpr (wp_scene.mpr ((wp_bind _ _).mpr ?_))
  refine wp_mono _ (fun ids r made => ?_) (wp_upgrade e _)
  have connecting : (do each ids connect; return true : Act κ Bool).Equips :=
    .bind (.each ids Equips.connect) fun _ => .pure true
  refine wp_mono _ (fun _ k kept => ?_) (connecting σ r)
  refine Scene.equipsBut_register (Bool.eq_false_iff.mpr unknown) tag ?_ ?_ ?_
    (made.1.trans kept) ?_
  · exact alike.view .document (by decide)
  · rw [← show q.scene.definitions = p.scene.definitions from alike.view .definitions (by decide)]
    rfl
  · exact alike.vacant
  · intro x inside here free free'
    refine made.2 x ?_ (kept.vacant x free')
    have chosen := Bool.and_eq_true_iff.mpr
      ⟨decide_eq_true here, Option.isNone_iff_eq_none.mpr free⟩
    exact List.mem_filter.mpr ⟨inside, chosen⟩

theorem wp_request {p : Point κ σ} (r : Request κ) :
    r.act.wp (Leading σ ⊤ Scene.Equips) (fun _ q => p.scene.EquipsBut r q.scene) p := by
  by_cases registers : ∃ d, r = .register d
  · obtain ⟨d, rfl⟩ := registers
    exact wp_register d
  · have other (d) : r ≠ .register d := fun same => registers ⟨d, same⟩
    exact wp_mono _ (fun _ _ kept => kept.but r) (Equips.request r other σ p)

end Act

def Step.registration? : Step κ σ → Option (Definition κ × Scene κ)
  | .request (.register d) s => some (d, s)
  | _ => none

def Step.Overlooks (x : NodeId) (step : Step κ σ) : Prop :=
  ∃ r, step.registration? = some r ∧ r.2.Overlooks r.1 x

instance (s : Scene κ) (d : Definition κ) (x : NodeId) : Decidable (s.Overlooks d x) :=
  inferInstanceAs (Decidable (_ ∧ _ ∧ _))

instance (x : NodeId) (step : Step κ σ) : Decidable (step.Overlooks x) :=
  decidable_of_iff (step.registration?.any fun r => decide (r.2.Overlooks r.1 x)) <| by
    simp [Step.Overlooks, Option.any_eq_true]

theorem Environment.record_ask (env : Environment κ σ) {fuel : Nat} {r : Request κ}
    (next : r.Answer → Script κ σ α) {w v : World κ σ} {b : r.Answer}
    (asked : env.play fuel (.request r) w = some (b, v)) :
    ∃ during, (env.record fuel (.ask r next) w).steps =
      .request r w.scene :: during ++ (env.record fuel (next b) v).steps := by
  have first : (env.record fuel (.request r) w).result = some (b, v) := by
    rw [env.result_record, asked]
  have answered : (r.act.trace (env.trace fuel) w).result = some (b, v) := by
    cases ended : (r.act.trace (env.trace fuel) w).result with
    | none =>
      simp [record, Script.request, Script.trace, Trace.after, Trace.andThen, ended] at first
    | some x =>
      simpa [record, Script.request, Script.trace, Trace.after, Trace.andThen, ended] using first
  refine ⟨(r.act.trace (env.trace fuel) w).steps, ?_⟩
  simp [record, Script.trace, Trace.after, Trace.andThen, answered]

section Runs
variable [IsEmpty κ] (env : Environment κ σ) {fuel : Nat}

theorem Environment.equips (r : Request κ) {w v : World κ σ} {b : r.Answer}
    (asked : env.play fuel (.request r) w = some (b, v)) : w.scene.EquipsBut r v.scene := by
  have meets : env.Meets (Leading σ ⊤ Scene.Equips) :=
    Leading.meets_of_scripts Act.Equips.call fun k => isEmptyElim k
  have kept := Act.wp_request (p := (Point.mk [] w).request r) r
  exact meets.play_reaches (Q := fun _ t => w.scene.EquipsBut r t) (m := .request r)
    ⟨trivial, fun _ => kept⟩ asked

/-- Bare elements are those that a registration has overlooked. -/
theorem bare_of_play (m : Script κ σ α) (past : History κ σ) {w w' : World κ σ} {a : α}
    (sound : w.scene.document.Sound) (tagged : w.scene.Tagged)
    (known : ∀ x, w.scene.Bare x → x = Document.root ∨ ∃ step ∈ past, step.Overlooks x)
    (played : env.play fuel m w = some (a, w')) {x : NodeId} (bare : w'.scene.Bare x) :
    x = Document.root ∨ ∃ step ∈ past ++ (env.record fuel m w).steps, step.Overlooks x := by
  induction m generalizing w past with
  | done b =>
    cases played
    simpa [Environment.record, Script.trace] using known x bare
  | look next ih => exact ih _ _ past sound tagged known played
  | keep store next ih => exact ih past (w := { w with store := store }) sound tagged known played
  | ask r next ih =>
    obtain ⟨b, v, asked, rest⟩ := env.play_ask played
    obtain ⟨during, steps⟩ := env.record_ask next asked
    have kept := env.equips r asked
    let sofar : History κ σ := past ++ .request r w.scene :: during
    have later (y) (after : v.scene.Bare y) :
        y = Document.root ∨ ∃ step ∈ sofar, step.Overlooks y := by
      rcases kept.bare sound tagged y after with before | ⟨d, rfl, root | overlooked⟩
      · refine (known y before).imp id ?_
        rintro ⟨step, member, overlooked⟩
        exact ⟨step, List.mem_append_left _ member, overlooked⟩
      · exact .inl root
      · exact .inr ⟨.request (.register d) w.scene, by simp [sofar], _, rfl, overlooked⟩
    have ended := ih b sofar (kept.document.sound sound) (kept.tagged tagged) later rest
    simpa [steps, sofar] using ended

/-- Every element but the root whose tag is registered has one component, unless it was outside the
document when its tag was registered, and no two components are at one node. -/
theorem equipped_of_play (m : Script κ σ α) (config : Config) (journal : Option Journal) (store : σ)
    {a : α} {w' : World κ σ}
    (played : env.play fuel m ⟨.ofConfig config journal, store⟩ = some (a, w')) :
    (∀ x tag, x ≠ Document.root → w'.scene.document.tag? x = some tag →
      w'.scene.isRegistered tag = true →
      (∀ step ∈ (env.record fuel m ⟨.ofConfig config journal, store⟩).steps, ¬step.Overlooks x) →
      ∃! id, ∃ c, w'.scene.component? id = some c ∧ c.node = x) ∧
    ∀ id other c d, w'.scene.component? id = some c → w'.scene.component? other = some d →
      c.node = d.node → id = other := by
  have placed := placed_of_play env m config journal store played
  refine ⟨?_, placed.apart⟩
  intro x tag below here known met
  have start (y : NodeId) : ¬(Scene.ofConfig config journal : Scene κ).Bare y := by
    rintro ⟨other, -, known, -⟩
    cases known
  have equipped : w'.scene.componentAt? x ≠ none := by
    intro free
    have overlooked := bare_of_play env m [] Document.sound_empty
      (fun key d found => by cases found) (fun y bare => absurd bare (start y)) played
      ⟨tag, here, known, free⟩
    rcases overlooked with root | ⟨step, member, overlooked⟩
    · exact below root
    · exact met step member overlooked
  rw [Ne, Scene.componentAt?_eq_none] at equipped
  push Not at equipped
  obtain ⟨id, c, found, node⟩ := equipped
  refine ⟨id, ⟨c, found, node⟩, ?_⟩
  rintro other ⟨d, there, same⟩
  exact placed.apart other id d c there found (same.trans node.symm)

end Runs

def upgrading : Script Empty Unit Unit := do
  let x ← Script.request (.createElement "x-out")
  Script.request (.appendChild Document.root x)
  let _ ← Script.request (.register (Declaration.define {
    tag := "x-out"
    template := some "<x-in></x-in>" }))
  let _ ← Script.request (.register (Declaration.define { tag := "x-in" }))

theorem equipped_of_play_upgrading : ∃ w,
    silent.play 20 upgrading ⟨.ofConfig {} none, ()⟩ = some ((), w) ∧
      w.scene.document.tag? ⟨2⟩ = some "x-in" ∧ w.scene.isRegistered "x-in" = true ∧
      ∃! id, ∃ c, w.scene.component? id = some c ∧ c.node = ⟨2⟩ := by
  have answered : (silent.play 20 upgrading ⟨.ofConfig {} none, ()⟩).map (fun r =>
      (r.2.scene.document.tag? ⟨2⟩, r.2.scene.isRegistered "x-in")) = some (some "x-in", true) := by
    decide +kernel
  have met : ∀ step ∈ (silent.record 20 upgrading ⟨.ofConfig {} none, ()⟩).steps,
      ¬step.Overlooks ⟨2⟩ := by decide +kernel
  obtain ⟨⟨⟨⟩, w⟩, played, same⟩ := Option.map_eq_some_iff.mp answered
  obtain ⟨here, known⟩ := Prod.mk.inj same
  have equipped := (equipped_of_play silent upgrading {} none () played).1
  exact ⟨w, played, here, known, equipped ⟨2⟩ "x-in" (by decide) here known met⟩

def straying : Script Empty Unit Unit := do
  let x ← Script.request (.createElement "x-out")
  let _ ← Script.request (.register (Declaration.define { tag := "x-out" }))
  Script.request (.appendChild Document.root x)

theorem bare_of_straying : ∃ w,
    silent.play 20 straying ⟨.ofConfig {} none, ()⟩ = some ((), w) ∧
      w.scene.document.isConnected ⟨1⟩ = true ∧ w.scene.document.tag? ⟨1⟩ = some "x-out" ∧
      w.scene.isRegistered "x-out" = true ∧
      ¬∃ id c, w.scene.component? id = some c ∧ c.node = ⟨1⟩ := by
  have answered : (silent.play 20 straying ⟨.ofConfig {} none, ()⟩).map (fun r =>
      (r.2.scene.document.isConnected ⟨1⟩, r.2.scene.document.tag? ⟨1⟩,
        r.2.scene.isRegistered "x-out", r.2.scene.componentAt? ⟨1⟩)) =
      some (true, some "x-out", true, none) := by
    decide +kernel
  obtain ⟨⟨⟨⟩, w⟩, played, same⟩ := Option.map_eq_some_iff.mp answered
  simp only [Prod.mk.injEq] at same
  obtain ⟨connected, here, known, free⟩ := same
  refine ⟨w, played, connected, here, known, ?_⟩
  rintro ⟨id, c, found, node⟩
  exact Scene.componentAt?_eq_none.mp free id c found node

end LiveTree
