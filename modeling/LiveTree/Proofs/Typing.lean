import LiveTree.Proofs.Contract.Invariant
import LiveTree.Proofs.Typing.Fits

/-! Components fit their types, whatever consumer code does. A component is only ever made of a type
that was registered, and a capability that is added to a type reaches its components as well, so that
the schema of a component lies within the one that is registered for its tag. -/
namespace LiveTree
variable {κ σ α : Type}

namespace Scene

def Knows (s : Scene κ) (d : Definition κ) : Prop :=
  d.tag.toLower = d.tag ∧ ∃ e, s.definitions.get? d.tag = some e ∧ d.schema.Within e.schema

structure Typed (s : Scene κ) : Prop where
  document : s.document.Sound
  tags : ∀ key d, s.definitions.get? key = some d → d.tag = key
  known : ∀ id c, s.component? id = some c → s.Knows c.definition
  fits : ∀ id c, s.component? id = some c → c.Fits

/-- Registered types and components keep what their schemas declare. Types whose tags are not in
lower case are never found and do not count. -/
structure Grows (s t : Scene κ) : Prop where
  definitions : ∀ key d, key.toLower = key → s.definitions.get? key = some d →
    ∃ e, t.definitions.get? key = some e ∧ d.schema.Within e.schema
  components : ∀ id c, s.component? id = some c →
    ∃ d, t.component? id = some d ∧ c.schema.Within d.schema

namespace Grows
variable {s t u : Scene κ}

theorem refl (s : Scene κ) : s.Grows s :=
  ⟨fun _ d _ found => ⟨d, found, .refl _⟩, fun _ c found => ⟨c, found, .refl _⟩⟩

theorem trans (first : s.Grows t) (second : t.Grows u) : s.Grows u where
  definitions key d lower found := by
    obtain ⟨e, there, within⟩ := first.definitions key d lower found
    obtain ⟨f, later, within'⟩ := second.definitions key e lower there
    exact ⟨f, later, within.trans within'⟩
  components id c found := by
    obtain ⟨d, there, within⟩ := first.components id c found
    obtain ⟨e, later, within'⟩ := second.components id d there
    exact ⟨e, later, within.trans within'⟩

instance : IsPreorder (Scene κ) Grows where
  refl := refl
  trans _ _ _ := trans

/-- Only the types and the components count. -/
theorem of_same (definitions : t.definitions = s.definitions) (components : t.components = s.components) :
    s.Grows t := by
  refine ⟨?_, ?_⟩
  · intro key d _ found
    exact ⟨d, by rw [definitions]; exact found, .refl _⟩
  · intro id c found
    exact ⟨c, by rw [component?, components]; exact found, .refl _⟩

theorem knows (grows : s.Grows t) {d : Definition κ} (known : s.Knows d) : t.Knows d := by
  obtain ⟨lower, e, found, within⟩ := known
  obtain ⟨f, there, within'⟩ := grows.definitions _ e lower found
  exact ⟨lower, f, there, within.trans within'⟩

end Grows

theorem Alike.typed {F : List Field} {s t : Scene κ} (alike : s.Alike F t)
    (out : ∀ f ∈ Field.typing, f ∉ F) (typed : s.Typed) : t.Typed ∧ s.Grows t := by
  have types : t.definitions = s.definitions := alike.view .definitions (out _ (by decide))
  have own {c d : Component κ} (same : c.Alike F d) : d.definition = c.definition :=
    same.view .definition (out _ (by decide))
  have grows : s.Grows t := by
    refine ⟨fun key d _ found => ⟨d, by rw [types]; exact found, .refl _⟩, ?_⟩
    intro id c found
    obtain ⟨d, there, same⟩ := alike.component id c found
    refine ⟨d, there, ?_⟩
    rw [Component.schema, Component.schema, own same]
    exact .refl _
  refine ⟨⟨alike.document.sound typed.document, ?_, ?_, ?_⟩, grows⟩
  · rw [types]
    exact typed.tags
  · intro id d there
    obtain ⟨c, found, same⟩ := alike.component_of (out _ (by decide)) there
    rw [own same]
    exact grows.knows (typed.known id c found)
  · intro id d there
    obtain ⟨c, found, same⟩ := alike.component_of (out _ (by decide)) there
    exact (typed.fits id c found).of_alike same out

namespace Typed
variable {s : Scene κ}

theorem edit (typed : s.Typed) {f : Document → Document} (sound : (f s.document).Sound) :
    (s.edit f).Typed ∧ s.Grows (s.edit f) :=
  ⟨⟨sound, typed.tags, typed.known, typed.fits⟩, .of_same rfl rfl⟩

theorem modify (typed : s.Typed) (id : ComponentId) {f : Component κ → Component κ}
    (changed : ∀ c, s.component? id = some c →
      (f c).Fits ∧ c.schema.Within (f c).schema ∧ s.Knows (f c).definition) :
    (s.modify id f).Typed ∧ s.Grows (s.modify id f) := by
  have cases_of {other : ComponentId} {d : Component κ} {P : Component κ → Prop}
      (there : (s.modify id f).component? other = some d)
      (here : ∀ c, s.component? id = some c → P (f c))
      (elsewhere : ∀ c, s.component? other = some c → P c) : P d := by
    rw [component?_modify] at there
    split at there
    · next same =>
      obtain ⟨c, found, rfl⟩ := Option.map_eq_some_iff.mp there
      exact here c (by rw [same]; exact found)
    · exact elsewhere d there
  refine ⟨⟨typed.document, typed.tags, ?_, ?_⟩, ?_, ?_⟩
  · intro other d there
    exact cases_of (P := fun d => s.Knows d.definition) there (fun c found => (changed c found).2.2)
      (typed.known other)
  · intro other d there
    exact cases_of there (fun c found => (changed c found).1) (typed.fits other)
  · exact (Grows.refl s).definitions
  · intro other c found
    rw [component?_modify]
    by_cases same : id = other
    · refine ⟨f c, by rw [if_pos same, found]; rfl, (changed c ?_).2.1⟩
      rw [same]
      exact found
    · exact ⟨c, by rw [if_neg same, found], .refl _⟩

/-- A slot takes any value that its property may have. -/
theorem modifySlot (typed : s.Typed) (id : ComponentId) (name : String) {f : Slot → Slot}
    (keeps : ∀ c p slot, s.component? id = some c → c.schema.get? name = some p →
      p.Holds slot.value → p.Holds (f slot).value) :
    (s.modify id fun c => c.modifySlot name f).Typed ∧
      s.Grows (s.modify id fun c => c.modifySlot name f) := by
  apply typed.modify
  intro c found
  have fits := (typed.fits id c found).modifySlot name fun p slot => keeps c p slot found
  exact ⟨fits, .refl _, typed.known id c found⟩

theorem push (typed : s.Typed) {d : Definition κ} (known : s.Knows d) (x : NodeId)
    (owner : Option ComponentId) :
    ({ s with components := s.components.push (.new d x owner) } : Scene κ).Typed ∧
      s.Grows { s with components := s.components.push (.new d x owner) } := by
  have cases_of {P : Component κ → Prop} (new : P (.new d x owner)) {id : ComponentId}
      {c : Component κ} (old : ∀ c, s.component? id = some c → P c)
      (found : ({ s with components := s.components.push (.new d x owner) } : Scene κ).component? id
        = some c) : P c := by
    rw [component?, Arena.get?_push] at found
    split at found
    · cases found
      exact new
    · exact old c found
  refine ⟨⟨typed.document, typed.tags, ?_, ?_⟩, (Grows.refl s).definitions, ?_⟩
  · intro id c found
    exact cases_of (P := fun c => s.Knows c.definition) known (typed.known id) found
  · intro id c found
    exact cases_of (.new d x owner) (typed.fits id) found
  · intro id c found
    obtain ⟨e, there, same⟩ := (Alike.push s (.new d x owner)).component id c found
    have types : e.definition = c.definition := same.view .definition (by decide)
    refine ⟨e, there, ?_⟩
    rw [Component.schema, Component.schema, types]
    exact .refl _

/-- A tag takes a type, or a larger one than it had. -/
theorem define (typed : s.Typed) (d : Definition κ)
    (larger : ∀ e, d.tag.toLower = d.tag → s.definitions.get? d.tag = some e →
      e.schema.Within d.schema) {t : Scene κ}
    (definitions : t.definitions = s.definitions.insert d.tag d)
    (document : t.document = s.document) (components : t.components = s.components) :
    t.Typed ∧ s.Grows t := by
  have same (id) : t.component? id = s.component? id := by rw [component?, components, component?]
  have grows : s.Grows t := by
    refine ⟨?_, fun id c found => ⟨c, (same id).trans found, .refl _⟩⟩
    intro key e lower found
    rw [definitions]
    by_cases here : key = d.tag
    · subst here
      exact ⟨d, Keyed.get?_insert_self _ _ _, larger e lower found⟩
    · exact ⟨e, (Keyed.get?_insert_of_ne _ _ here).trans found, .refl _⟩
  refine ⟨⟨by rw [document]; exact typed.document, ?_, ?_, ?_⟩, grows⟩
  · intro key e found
    rw [definitions] at found
    by_cases here : key = d.tag
    · subst here
      rw [Keyed.get?_insert_self] at found
      cases found
      rfl
    · rw [Keyed.get?_insert_of_ne _ _ here] at found
      exact typed.tags key e found
  · intro id c found
    exact grows.knows (typed.known id c ((same id).symm.trans found))
  · intro id c found
    exact typed.fits id c ((same id).symm.trans found)

end Typed

theorem Grows.declares {s t : Scene κ} (grows : s.Grows t) {id : ComponentId} {p : Property}
    (declared : s.Declares id p) : t.Declares id p := by
  obtain ⟨c, found, own⟩ := declared
  obtain ⟨d, there, within⟩ := grows.components id c found
  exact ⟨d, there, within _ p own⟩

theorem typed_ofConfig (config : Config) (journal : Option Journal) :
    (ofConfig config journal : Scene κ).Typed := by
  have none (id : ComponentId) : (ofConfig config journal : Scene κ).component? id = none := rfl
  refine ⟨Document.sound_empty, ?_, ?_, ?_⟩
  · intro key d found
    cases found
  all_goals
    intro id c found
    exact nomatch (none id).symm.trans found

end Scene

abbrev Act.Types (s : Scene κ) (m : Act κ α) : Prop :=
  m.Upholds Scene.Typed Scene.Grows (fun _ => True) s

namespace Act.Types
variable {s : Scene κ}

theorem of_touches {F : List Field} {C : List Call.Kind} {m : Act κ α} (touches : m.Touches F C)
    (out : ∀ f ∈ Field.typing, f ∉ F) : m.Types s :=
  .of_within (fun _ _ typed alike => alike.typed out typed) (fun _ _ => trivial) touches

theorem closed (s : Scene κ) : Closed fun {_} (m : Act κ _) => m.Types s where
  of_touches touches out := by
    have sub : ∀ f ∈ Field.typing, f ∈ Field.telling := by decide
    exact of_touches touches fun f inside => out f (sub f inside)
  bind := .bind

theorem configure (id : ComponentId) : (Act.configure id).Types s :=
  of_touches (.configure id) (by decide)

theorem instantiate (x : NodeId) (d : Definition κ) (owner : Option ComponentId) (known : s.Knows d) :
    (Act.instantiate x d owner).Types s := by
  refine .sceneBind fun t _ since => .bind (.update fun u typed grows => ?_) fun _ => ?_
  · exact typed.push (grows.knows (since.knows known)) x owner
  · refine .bind (of_touches (.setStage _ _) (by decide)) fun _ => ?_
    refine .bind (of_touches (.tellParts _ _) (by decide)) fun _ => ?_
    exact .bind (of_touches (.runHook _ _ _) (by decide)) fun _ => .pure _

theorem createElement (tag : String) : (Act.createElement tag).Types s := by
  refine .sceneBind fun t typed _ => ?_
  have sound : (t.document.createElement tag).2.Sound :=
    (Document.follows_createElement t.document tag).sound typed.document
  dsimp -zeta only
  refine .bind (.update fun u typed _ => typed.edit sound) fun _ => ?_
  split
  · next d found =>
    have lower : d.tag = tag.toLower := typed.tags _ d found
    have known : t.Knows d := by
      refine ⟨by rw [lower, String.toLower_toLower], d, ?_, .refl _⟩
      rw [lower]
      exact found
    exact .bind (instantiate _ d _ known) fun _ => .pure _
  · exact .pure _

theorem markBusy (id : ComponentId) (name : String) (busy : Bool) :
    (Act.modify id fun c : Component κ => c.modifySlot name fun slot =>
      { slot with busy := busy }).Types s :=
  .update fun _ typed _ => typed.modifySlot id name fun _ _ _ _ _ holds => holds

theorem commit {id : ComponentId} {p : Property} (declared : s.Declares id p) (old : Value) {v : Value}
    (passed : p.Holds v) (origin : Origin) : (Act.commit id p old v origin).Types s := by
  refine .withComponent fun t c _ since _ => ?_
  split
  · exact .pure _
  · refine .bind (.update fun u typed grows => ?_) fun _ => ?_
    · obtain ⟨d, there, own⟩ := grows.declares (since.declares declared)
      apply typed.modifySlot
      intro e q slot here asked _
      cases there.symm.trans here
      cases own.symm.trans asked
      exact passed
    · exact .bind (of_touches (.spread _ _ _ _ _ _ _) (by decide)) fun _ => .pure _

/-- Without a validator the value stays as it is. -/
theorem bind_validated {id : ComponentId} {p : Property} {old v : Value} {f : Value → Act κ α}
    (rest : ∀ x, (p.validator = none → x = v) → (f x).Types s) :
    (Act.validated id p old v >>= f).Types s := by
  cases validator : p.validator with
  | none =>
    unfold Act.validated
    rw [validator]
    exact rest v fun _ => rfl
  | some method =>
    refine .bind (of_touches (.validated _ _ _ _) (by decide)) fun x => rest x ?_
    intro free
    exact nomatch validator.symm.trans free

/-- The value that is committed passed the check of its kind, and if no validator changed it, it is
the one that was found to be allowed. -/
theorem attempt {id : ComponentId} {p : Property} (declared : s.Declares id p) (v : Value)
    (origin : Origin) : (Act.attempt id p v origin).Types s := by
  unfold Act.attempt Property.checkAllowed
  refine .ite (fun _ => .pure _) fun _ => ?_
  split
  · exact of_touches (.refuse _ _) (by decide)
  next allowed =>
  have isAllowed : p.isAllowed v = true := by
    by_contra refused
    rw [if_neg refused] at allowed
    cases allowed
  refine .sceneBind fun t _ since => bind_validated fun x same => ?_
  refine .ite (fun _ => .pure _) fun _ => ?_
  unfold Property.checkKind
  split
  · exact of_touches (.refuse _ _) (by decide)
  · next fits =>
    have accepted : p.kind.accepts p.nullable x = true := by
      by_contra refused
      rw [if_neg refused] at fits
      cases fits
    have passed : p.Holds x := by
      refine .inr ⟨accepted, ?_⟩
      intro free
      rw [same free]
      exact isAllowed
    exact commit (since.declares declared) _ passed origin

theorem write (id : ComponentId) (name : String) (v : Value) (origin : Origin) :
    (Act.write id name v origin).Types s := by
  refine .withComponent fun t c _ _ found => ?_
  split
  · next p _ own _ =>
    have declared : t.Declares id p := ⟨c, found, by rw [Schema.name_of_get? own]; exact own⟩
    refine .ite (fun _ => .pure _) fun _ => .bind (markBusy id name true) fun _ => ?_
    refine .bind (attempt declared v origin) fun r => ?_
    exact .bind (markBusy id name false) fun _ => .pure r
  · exact .pure _

/-- Without calls nothing comes between. -/
theorem wp_alone {F : List Field} {m : Act κ α} {p : Point κ σ} (touches : m.Touches F [])
    (out : ∀ f ∈ Field.typing, f ∉ F) (typed : p.scene.Typed) :
    m.wp (Upholding σ Scene.Typed Scene.Grows fun _ => True)
      (fun _ q => q.scene.Typed ∧ p.scene.Alike F q.scene) p := by
  refine wp_mono _ (fun _ q alike => ⟨(alike.typed out typed).1, alike⟩) (touches.wp_alone ?_)
  intro past s t since step
  have here := (since.typed out typed).1
  exact Upholding.safe_change here (step.typed out here).1

/-- Nodes in the document carry their tags in lower case, so that their type is found. -/
theorem upgrade {d : Definition κ} (typed : s.Typed) (known : d.tag.toLower = d.tag → s.Knows d)
    (nodes : List NodeId) (tagged : ∀ x ∈ nodes, s.document.tag? x = some d.tag) :
    (Act.upgrade d nodes).Types s := by
  cases nodes with
  | nil => exact .pure _
  | cons x rest =>
    have lower := typed.document.lower x d.tag (tagged x List.mem_cons_self)
    exact (closed s).composes.upgrade d (fun y owner => instantiate y d owner (known lower)) _

theorem connect (id : ComponentId) : (Act.connect id).Types s :=
  (closed s).connect createElement configure id

theorem register (d : Definition κ) : (Act.register d).Types s := by
  intro σ p typed since
  refine (wp_bind _ _).mpr (wp_scene.mpr ?_)
  rw [wp_ite]
  split
  · exact ⟨typed, since⟩
  next unknown =>
  extract_lets e
  have noted : (Act.each e.schema.problems (note none) : Act κ Unit).Touches [.journal] [] :=
    .each _ fun fault => .note_none fault
  refine (wp_bind _ _).mpr (wp_mono _ ?_ (wp_alone noted (by decide) typed))
  rintro _ q ⟨still, alike⟩
  -- Only now is it known that the tag is free: what follows may well register types of its own.
  have types : q.scene.definitions = p.scene.definitions := alike.view .definitions (by decide)
  have free (f : Definition κ) (lower : e.tag.toLower = e.tag)
      (found : q.scene.definitions.get? e.tag = some f) : f.schema.Within e.schema := by
    rw [types, ← lower, Definition.tag_compose] at found
    exact absurd (by rw [Scene.isRegistered, Scene.definition?, found]; rfl) unknown
  obtain ⟨next, step⟩ := still.define e free (t := { q.scene with
    definitions := q.scene.definitions.insert e.tag e
    waiting := q.scene.waiting.erase e.tag }) rfl rfl rfl
  have before := since.trans ((alike.typed (by decide) typed).2.trans step)
  refine (wp_bind _ _).mpr (Upholding.takes_change still next ?_)
  refine Upholds.after ?_ next before
  have told (k : κ) : (do let _ ← callback k .registered : Act κ Unit).Touches [] [.registered] :=
    .bind (.registered k) fun _ => .pure _
  refine .bind (of_touches (.each _ told) (by decide)) fun _ => .sceneBind fun t typed grows => ?_
  extract_lets nodes
  have known (lower : e.tag.toLower = e.tag) : t.Knows e :=
    grows.knows ⟨lower, e, Keyed.get?_insert_self _ _ _, .refl _⟩
  have tagged (x : NodeId) (member : x ∈ nodes) : t.document.tag? x = some e.tag := by
    have kept := (List.mem_filter.mp member).2
    simp only [Bool.and_eq_true, decide_eq_true_eq] at kept
    exact kept.1
  refine .bind (upgrade typed known nodes tagged) fun ids => ?_
  exact .bind (.each ids connect) fun _ => .pure _

/-- The components of a type take part when it gets a capability, each of them once. -/
theorem addCapability (tag : String) (c : Capability κ) : (Act.addCapability tag c).Types s := by
  intro σ p typed since
  refine (wp_bind _ _).mpr (wp_scene.mpr ?_)
  split
  · exact ⟨typed, since⟩
  next d larger =>
  obtain ⟨e, found, added⟩ := Option.bind_eq_some_iff.mp larger
  have within : e.schema.Within d.schema := Definition.schema_add? added
  have name : d.tag = tag.toLower := (Definition.tag_add? added).trans (typed.tags _ e found)
  have lower : d.tag.toLower = d.tag := by rw [name, String.toLower_toLower]
  obtain ⟨next, step⟩ := typed.define d (t := { p.scene with
      definitions := p.scene.definitions.insert d.tag d })
    (fun f _ there => by
      rw [name] at there
      cases found.symm.trans there
      exact within) rfl rfl rfl
  -- A component of this tag was made of the type as it was registered, or of a smaller one.
  have members (id : ComponentId) (member : id ∈ p.scene.componentsWhere fun i => i.tag == tag)
      (i : Component κ) (there : p.scene.component? id = some i) : i.schema.Within d.schema := by
    have own : i.definition.tag = tag := by
      have kept := (List.mem_filter.mp member).2
      rw [there] at kept
      exact beq_iff_eq.mp kept
    obtain ⟨small, f, registered, within'⟩ := typed.known id i there
    rw [own] at small registered
    have same : f = e := by
      rw [Scene.definition?, small, registered] at found
      exact Option.some.inj found
    rw [same] at within'
    exact within'.trans within
  have known : ({ p.scene with definitions := p.scene.definitions.insert d.tag d } : Scene κ).Knows d :=
    ⟨lower, d, Keyed.get?_insert_self _ _ _, .refl _⟩
  refine (wp_bind _ _).mpr (Upholding.takes_change typed next ?_)
  refine (wp_bind _ _).mpr (wp_each (fun ids q => q.scene.Typed ∧ s.Grows q.scene ∧
    q.scene.Knows d ∧ ∀ id ∈ ids, ∀ i, q.scene.component? id = some i → i.schema.Within d.schema)
    ?_ ?_ _ ⟨next, since.trans step, known, members⟩)
  · rintro id rest q ⟨typed, grows, known, smaller⟩
    obtain ⟨next, step⟩ := typed.modify id (f := fun i => i.adopt d c) fun i there =>
      ⟨(typed.fits id i there).adopt (smaller id List.mem_cons_self i there) c,
        smaller id List.mem_cons_self i there, known⟩
    refine Upholding.takes_change typed next ⟨next, grows.trans step, step.knows known, ?_⟩
    intro other later i there
    rw [Point.scene_change, Scene.component?_modify] at there
    split at there
    · obtain ⟨j, -, rfl⟩ := Option.map_eq_some_iff.mp there
      exact .refl _
    · exact smaller other (List.mem_cons_of_mem _ later) i there
  · rintro q ⟨typed, grows, -, -⟩
    exact ⟨typed, grows⟩

theorem request (r : Request κ) : r.act.Types s := by
  cases r with
  | register d => exact register d
  | addCapability tag c => exact addCapability tag c
  | createElement tag => exact createElement tag
  | appendChild parent child => exact (closed s).appendChild createElement configure parent child
  | finishLoading => exact (closed s).finishLoading createElement configure (of_touches .resolveWaiting (by decide))
  | _ =>
    refine of_touches (.request _) ?_
    dsimp only [Touches.requested]
    decide

theorem call (c : Call κ) : c.Upholds Scene.Typed Scene.Grows (fun _ => True) s := by
  cases c with
  | write id name v origin => exact write id name v origin
  | connect id => exact connect id
  | release id => exact of_touches (.release id) (by decide)
  | service x id arguments => exact of_touches (.service x id arguments) (by decide)
  | deliver x e => exact of_touches (.deliver x e) (by decide)
  | callback k o => trivial
  | apply f arguments => trivial

end Act.Types

theorem Environment.Reachable.typed {env : Environment κ σ} {w : World κ σ} (reached : env.Reachable w) (fuel : Nat)
    (m : Script κ σ α) {s : Scene κ} (met : s = w.scene ∨ ∃ x ∈ (env.record fuel m w).steps, s ∈ x.scenes) :
    s.Typed :=
  reached.upholds_met (fun r _ => Act.Types.request r) (fun c _ => Act.Types.call c) env Scene.typed_ofConfig fuel m met

/-- Whatever is asked of a live tree, in each scene between operations and in each that is met in
the midst of one, a component has one slot for each property of its type, and in it the default or a
value that the property accepts, a listed one if no validator chose it. -/
theorem fits_of_reachable (env : Environment κ σ) {w : World κ σ} (reached : env.Reachable w)
    (fuel : Nat) (m : Script κ σ α) {s : Scene κ}
    (met : s = w.scene ∨ ∃ x ∈ (env.record fuel m w).steps, s ∈ x.scenes) {id : ComponentId}
    {c : Component κ} (found : s.component? id = some c) : c.Fits :=
  (reached.typed fuel m met).fits id c found

def extending : Environment Unit Unit where
  script _ o := match o with
    | .change .. => do
      let mood := { Property.ofKind "mood" .string with
        default := .string "calm", allowed := some [.string "calm", .string "merry"] }
      let _ ← Script.request (.addCapability "x-cat" { name := "Moods", properties := [mood] })
      return .ok .undefined
    | _ => return .ok .undefined
  apply _ _ store := (.undefined, store)

def naming : Script Unit Unit (List String × String) := do
  Script.request (.setDefaults [])
  let _ ← Script.request (.register (Declaration.define {
    tag := "x-cat"
    properties := [.ofKind "name" .string]
    hooks := { changed := some () } }))
  let x ← Script.request (.createElement "x-cat")
  Script.request (.appendChild Document.root x)
  let _ ← Script.request (.set ⟨0⟩ "name" (.string "Ada") true)
  let _ ← Script.request (.set ⟨0⟩ "mood" (.string "merry") true)
  let _ ← Script.request (.set ⟨0⟩ "mood" (.string "grim") true)
  let s ← Script.scene
  return (((s.component? ⟨0⟩).map fun c => Keyed.names c.slots).getD [],
    (s.property ⟨0⟩ "mood").display)

theorem fits_of_reachable_extending : ∃ w,
    extending.play 20 naming ⟨.ofConfig {} none, ()⟩ = some ((["name", "mood"], "merry"), w) ∧
      ∃ c, w.scene.component? ⟨0⟩ = some c ∧ c.Fits := by
  have answered : (extending.play 20 naming ⟨.ofConfig {} none, ()⟩).map (fun r =>
      (r.1, (r.2.scene.component? ⟨0⟩).isSome)) = some ((["name", "mood"], "merry"), true) := by
    decide +kernel
  obtain ⟨⟨answer, w⟩, played, same⟩ := Option.map_eq_some_iff.mp answered
  obtain ⟨rfl, there⟩ := Prod.mk.inj same
  obtain ⟨c, found⟩ := Option.isSome_iff_exists.mp there
  have reached : extending.Reachable w := (Environment.Reachable.start _ none ()).play naming played
  exact ⟨w, played, c, found, fits_of_reachable extending reached 0 naming (.inl rfl) found⟩

end LiveTree
