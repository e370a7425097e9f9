import LiveTree.Proofs.Composition
import LiveTree.Proofs.Contract.Invariant
import LiveTree.Proofs.Upgrade

/-! Types that get a capability while they are in use. A component works with a type that was
registered for its tag at some time, and a registered type only ever gets larger; so a further
capability that is new to the type is new to all its components. -/
namespace LiveTree
variable {κ σ α : Type}

def Field.staffing : List Field :=
  [.components, .definitions, .definition, .capabilities, .names]

namespace Component

def capabilities (i : Component κ) : List (Capability κ) := i.parts.map Part.capability

structure Works (i : Component κ) (d : Definition κ) : Prop where
  definition : d.Enlarges i.definition
  slots : ∀ name ∈ d.schema.names, name ∈ Keyed.names i.slots
  capabilities : ∀ c ∈ d.capabilities, c ∈ i.capabilities

structure Enlarges (i j : Component κ) : Prop where
  definition : i.definition.Enlarges j.definition
  slots : ∀ name ∈ Keyed.names i.slots, name ∈ Keyed.names j.slots
  capabilities : ∀ c ∈ i.capabilities, c ∈ j.capabilities

namespace Enlarges
variable {i j k : Component κ} {d e : Definition κ}

theorem refl (i : Component κ) : i.Enlarges i := ⟨.refl _, fun _ there => there, fun _ there => there⟩

theorem trans (first : i.Enlarges j) (second : j.Enlarges k) : i.Enlarges k where
  definition := first.definition.trans second.definition
  slots name there := second.slots name (first.slots name there)
  capabilities c there := second.capabilities c (first.capabilities c there)

theorem works (h : i.Enlarges j) (works : i.Works d) : j.Works d where
  definition := works.definition.trans h.definition
  slots name there := h.slots name (works.slots name there)
  capabilities c there := h.capabilities c (works.capabilities c there)

theorem of_alike {F : List Field} (alike : i.Alike F j) (out : ∀ f ∈ Field.staffing, f ∉ F) :
    i.Enlarges j := by
  have types : j.definition = i.definition := alike.view .definition (out _ (by decide))
  have slots : Keyed.names j.slots = Keyed.names i.slots := alike.view .names (out _ (by decide))
  have parts : j.capabilities = i.capabilities := alike.view .capabilities (out _ (by decide))
  refine ⟨?_, ?_, ?_⟩
  · rw [types]
    exact .refl _
  · rw [slots]
    exact fun _ there => there
  · rw [parts]
    exact fun _ there => there

end Enlarges

theorem Works.mono {i : Component κ} {d e : Definition κ} (works : i.Works e) (larger : d.Enlarges e) :
    i.Works d where
  definition := larger.trans works.definition
  slots name there := by
    obtain ⟨p, declared⟩ := Schema.mem_names.mp there
    exact works.slots name (Schema.mem_names.mpr ⟨p, larger.schema name p declared⟩)
  capabilities c there := works.capabilities c (larger.capabilities.subset there)

theorem works_new (d : Definition κ) (x : NodeId) (owner : Option ComponentId) :
    (Component.new d x owner).Works d where
  definition := .refl _
  slots name there := by
    rw [show (Component.new d x owner).slots = .ofSchema d.schema from rfl, Slots.names_ofSchema]
    exact there
  capabilities c there := by
    rw [capabilities, new, List.map_map]
    exact List.mem_map.mpr ⟨c, there, rfl⟩

end Component

namespace Scene

theorem nodup_componentsWhere (s : Scene κ) (p : Component κ → Bool) : (s.componentsWhere p).Nodup := by
  refine (List.Nodup.map ?_ List.nodup_range).filter _
  rintro i j ⟨⟩
  rfl

theorem mem_componentsWhere {s : Scene κ} {p : Component κ → Bool} {id : ComponentId} :
    id ∈ s.componentsWhere p ↔ ∃ i, s.component? id = some i ∧ p i = true := by
  rw [componentsWhere, List.mem_filter, Option.any_eq_true]
  constructor
  · exact And.right
  · rintro ⟨i, found, holds⟩
    have bound : id.index < s.components.size := (Array.getElem?_eq_some_iff.mp found).1
    exact ⟨List.mem_map.mpr ⟨id.index, List.mem_range.mpr bound, rfl⟩, i, found, holds⟩

def Issues (s : Scene κ) (d : Definition κ) : Prop :=
  d.tag.toLower = d.tag ∧ ∃ e, s.definitions.get? d.tag = some e ∧ d.Enlarges e

structure Staffed (s : Scene κ) : Prop where
  document : s.document.Sound
  tagged : s.Tagged
  ranked : ∀ key d, s.definitions.get? key = some d → d.Ranked
  issued : ∀ id i, s.component? id = some i → s.Issues i.definition
  parts : ∀ id i, s.component? id = some i → i.capabilities.Sublist i.definition.capabilities

structure Extends (s t : Scene κ) : Prop where
  definitions : ∀ key d, key.toLower = key → s.definitions.get? key = some d →
    ∃ e, t.definitions.get? key = some e ∧ d.Enlarges e
  old : ∀ id i, s.component? id = some i → ∃ j, t.component? id = some j ∧ i.Enlarges j
  new : ∀ id j d, s.component? id = none → t.component? id = some j → j.tag.toLower = j.tag →
    s.definitions.get? j.tag = some d → j.Works d

namespace Extends
variable {s t u : Scene κ}

theorem refl (s : Scene κ) : s.Extends s where
  definitions _ d _ found := ⟨d, found, .refl _⟩
  old _ i found := ⟨i, found, .refl _⟩
  new _ _ _ missing found := nomatch missing.symm.trans found

theorem trans (first : s.Extends t) (second : t.Extends u) : s.Extends u where
  definitions key d lower found := by
    obtain ⟨e, there, larger⟩ := first.definitions key d lower found
    obtain ⟨f, later, larger'⟩ := second.definitions key e lower there
    exact ⟨f, later, larger.trans larger'⟩
  old id i found := by
    obtain ⟨j, there, larger⟩ := first.old id i found
    obtain ⟨k, later, larger'⟩ := second.old id j there
    exact ⟨k, later, larger.trans larger'⟩
  new id k d missing found lower registered := by
    cases between : t.component? id with
    | none =>
      obtain ⟨e, there, larger⟩ := first.definitions k.tag d lower registered
      exact (second.new id k e between found lower there).mono larger
    | some j =>
      obtain ⟨k', later, larger⟩ := second.old id j between
      cases later.symm.trans found
      have tag : k.tag = j.tag := larger.definition.tag
      rw [tag] at lower registered
      exact larger.works (first.new id j d missing between lower registered)

instance : IsPreorder (Scene κ) Extends where
  refl := refl
  trans _ _ _ := trans

/-- Only the types and the components count. -/
theorem of_same (definitions : t.definitions = s.definitions)
    (components : t.components = s.components) : s.Extends t := by
  have same (id) : t.component? id = s.component? id := by rw [component?, components, component?]
  refine ⟨?_, fun id i found => ⟨i, (same id).trans found, .refl _⟩, ?_⟩
  · intro key d _ found
    exact ⟨d, by rw [definitions]; exact found, .refl _⟩
  · intro id j d missing found
    cases missing.symm.trans ((same id).symm.trans found)

/-- A new component has all of the type that was registered for its tag. -/
theorem push (since : s.Extends t) {d : Definition κ}
    (current : ∀ e, s.definitions.get? d.tag = some e → e.Enlarges d) (x : NodeId)
    (owner : Option ComponentId) :
    s.Extends { t with components := t.components.push (.new d x owner) } where
  definitions := since.definitions
  old id i found := by
    obtain ⟨j, there, larger⟩ := since.old id i found
    have bound : id.index < t.components.size := (Array.getElem?_eq_some_iff.mp there).1
    exact ⟨j, by rw [component?_push, if_neg (Nat.ne_of_lt bound), there], larger⟩
  new id j e missing there lower registered := by
    rw [component?_push] at there
    split at there
    · cases there
      exact (Component.works_new d x owner).mono (current e registered)
    · exact since.new id j e missing there lower registered

theorem issues (extended : s.Extends t) {d : Definition κ} (issued : s.Issues d) : t.Issues d := by
  obtain ⟨lower, e, found, larger⟩ := issued
  obtain ⟨f, there, larger'⟩ := extended.definitions _ e lower found
  exact ⟨lower, f, there, larger.trans larger'⟩

end Extends

theorem Alike.staffed {F : List Field} {s t : Scene κ} (alike : s.Alike F t)
    (out : ∀ f ∈ Field.staffing, f ∉ F) (staffed : s.Staffed) : t.Staffed ∧ s.Extends t := by
  have types : t.definitions = s.definitions := alike.view .definitions (out _ (by decide))
  have before {id : ComponentId} {j : Component κ} (there : t.component? id = some j) :
      ∃ i, s.component? id = some i ∧ i.Alike F j :=
    alike.component_of (out _ (by decide)) there
  have extended : s.Extends t := by
    refine ⟨fun key d _ found => ⟨d, by rw [types]; exact found, .refl _⟩, ?_, ?_⟩
    · intro id i found
      obtain ⟨j, there, same⟩ := alike.component id i found
      exact ⟨j, there, .of_alike same out⟩
    · intro id j d missing there
      obtain ⟨i, found, -⟩ := before there
      cases missing.symm.trans found
  refine ⟨⟨alike.document.sound staffed.document, ?_, ?_, ?_, ?_⟩, extended⟩
  · rw [Tagged, types]
    exact staffed.tagged
  · rw [types]
    exact staffed.ranked
  · intro id j there
    obtain ⟨i, found, same⟩ := before there
    rw [show j.definition = i.definition from same.view .definition (out _ (by decide))]
    exact extended.issues (staffed.issued id i found)
  · intro id j there
    obtain ⟨i, found, same⟩ := before there
    have parts : j.capabilities = i.capabilities := same.view .capabilities (out _ (by decide))
    rw [show j.definition = i.definition from same.view .definition (out _ (by decide)), parts]
    exact staffed.parts id i found

namespace Staffed
variable {s : Scene κ}

theorem edit (staffed : s.Staffed) {f : Document → Document} (sound : (f s.document).Sound) :
    (s.edit f).Staffed ∧ s.Extends (s.edit f) :=
  ⟨⟨sound, staffed.tagged, staffed.ranked, staffed.issued, staffed.parts⟩, .of_same rfl rfl⟩

/-- A new component belongs to the type as it is registered, or as it was when its tag was still
free. -/
theorem push (staffed : s.Staffed) {d : Definition κ} (issued : s.Issues d) (x : NodeId)
    (owner : Option ComponentId) :
    ({ s with components := s.components.push (.new d x owner) } : Scene κ).Staffed := by
  have cases_of {P : Component κ → Prop} (new : P (.new d x owner)) {id : ComponentId}
      {i : Component κ} (old : ∀ i, s.component? id = some i → P i)
      (found : ({ s with components := s.components.push (.new d x owner) } : Scene κ).component? id
        = some i) : P i := by
    rw [component?_push] at found
    split at found
    · cases found
      exact new
    · exact old i found
  refine ⟨staffed.document, staffed.tagged, staffed.ranked, ?_, ?_⟩
  · intro id i found
    exact cases_of (P := fun i => s.Issues i.definition) issued (staffed.issued id) found
  · intro id i found
    refine cases_of (P := fun i => i.capabilities.Sublist i.definition.capabilities) ?_
      (staffed.parts id) found
    rw [Component.capabilities, Component.new, List.map_map]
    exact (List.map_id d.capabilities).symm ▸ .refl _

theorem modify (staffed : s.Staffed) (id : ComponentId) {f : Component κ → Component κ}
    (changed : ∀ i, s.component? id = some i → s.Issues (f i).definition ∧
      (f i).capabilities.Sublist (f i).definition.capabilities ∧ i.Enlarges (f i)) :
    (s.modify id f).Staffed ∧ s.Extends (s.modify id f) := by
  have cases_of {other : ComponentId} {j : Component κ} {P : Component κ → Prop}
      (there : (s.modify id f).component? other = some j)
      (here : ∀ i, s.component? id = some i → P (f i))
      (elsewhere : ∀ i, s.component? other = some i → P i) : P j := by
    rw [component?_modify] at there
    split at there
    · next same =>
      obtain ⟨i, found, rfl⟩ := Option.map_eq_some_iff.mp there
      exact here i (by rw [same]; exact found)
    · exact elsewhere j there
  refine ⟨⟨staffed.document, staffed.tagged, staffed.ranked, ?_, ?_⟩,
    (Extends.refl s).definitions, ?_, ?_⟩
  · intro other j there
    exact cases_of (P := fun j => s.Issues j.definition) there
      (fun i found => (changed i found).1) (staffed.issued other)
  · intro other j there
    exact cases_of (P := fun j => j.capabilities.Sublist j.definition.capabilities) there
      (fun i found => (changed i found).2.1) (staffed.parts other)
  · intro other i found
    rw [component?_modify]
    by_cases same : id = other
    · exact ⟨f i, by rw [if_pos same, found]; rfl, (changed i (by rw [same]; exact found)).2.2⟩
    · exact ⟨i, by rw [if_neg same, found], .refl _⟩
  · intro other j d missing there
    rw [component?_modify, missing, Option.map_none, ite_self] at there
    cases there

/-- A component takes part when its type gets a capability. -/
theorem adopt (staffed : s.Staffed) {d : Definition κ} {c : Capability κ} (free : d.has c.name = false)
    (issued : s.Issues (d.take c)) {id : ComponentId}
    (smaller : ∀ i, s.component? id = some i → i.definition.Enlarges d) :
    (s.modify id (·.adopt (d.take c) c)).Staffed ∧
      s.Extends (s.modify id (·.adopt (d.take c) c)) := by
  apply staffed.modify
  intro i found
  refine ⟨issued, ?_, ?_⟩
  · rw [Component.capabilities, Component.adopt, List.map_append, Definition.capabilities_take free]
    exact ((staffed.parts id i found).trans (smaller i found).capabilities).append_right [c]
  · refine ⟨(smaller i found).trans (.take d c), ?_, ?_⟩
    · intro name there
      exact Slots.mem_names_fill.mpr (.inl there)
    · intro x there
      rw [Component.capabilities, Component.adopt, List.map_append]
      exact List.mem_append_left _ there

/-- A tag takes a type, or a larger one than it had. -/
theorem define (staffed : s.Staffed) {d : Definition κ} (ranked : d.Ranked)
    (larger : ∀ e, d.tag.toLower = d.tag → s.definitions.get? d.tag = some e → e.Enlarges d)
    {t : Scene κ} (definitions : t.definitions = s.definitions.insert d.tag d)
    (document : t.document = s.document) (components : t.components = s.components) :
    t.Staffed ∧ s.Extends t := by
  have same (id) : t.component? id = s.component? id := by rw [component?, components, component?]
  have extended : s.Extends t := by
    refine ⟨?_, fun id i found => ⟨i, (same id).trans found, .refl _⟩, ?_⟩
    · intro key e lower found
      rw [definitions]
      by_cases here : key = d.tag
      · subst here
        exact ⟨d, Keyed.get?_insert_self _ _ _, larger e lower found⟩
      · exact ⟨e, (Keyed.get?_insert_of_ne _ _ here).trans found, .refl _⟩
    · intro id j e missing found
      cases missing.symm.trans ((same id).symm.trans found)
  refine ⟨⟨document ▸ staffed.document, staffed.tagged.insert definitions, ?_, ?_, ?_⟩, extended⟩
  · intro key e found
    rw [definitions] at found
    by_cases here : key = d.tag
    · rw [here, Keyed.get?_insert_self] at found
      cases found
      exact ranked
    · rw [Keyed.get?_insert_of_ne _ _ here] at found
      exact staffed.ranked key e found
  · intro id i found
    exact extended.issues (staffed.issued id i ((same id).symm.trans found))
  · intro id i found
    exact staffed.parts id i ((same id).symm.trans found)

theorem distinct (staffed : s.Staffed) {id : ComponentId} {i : Component κ}
    (found : s.component? id = some i) : (i.capabilities.map Capability.name).Nodup := by
  obtain ⟨-, e, registered, larger⟩ := staffed.issued id i found
  have sub := (staffed.parts id i found).trans larger.capabilities
  exact (staffed.ranked _ e registered).distinct.sublist (sub.map Capability.name)

/-- The registered type is as large as that of its components. -/
theorem enlarges (staffed : s.Staffed) {tag : String} {d : Definition κ}
    (registered : s.definition? tag = some d) {id : ComponentId} {i : Component κ}
    (found : s.component? id = some i) (own : i.tag = tag) : i.definition.Enlarges d := by
  obtain ⟨lower, e, there, larger⟩ := staffed.issued id i found
  rw [show i.definition.tag = tag from own] at lower there
  rw [Scene.definition?, lower, there] at registered
  cases registered
  exact larger

end Staffed

theorem staffed_ofConfig (config : Config) (journal : Option Journal) :
    (ofConfig config journal : Scene κ).Staffed := by
  have none (id : ComponentId) : (ofConfig config journal : Scene κ).component? id = none := rfl
  refine ⟨Document.sound_empty, ?_, ?_, ?_, ?_⟩
  · intro key d found
    cases found
  · intro key d found
    cases found
  all_goals
    intro id i found
    cases (none id).symm.trans found

end Scene

abbrev Act.Staffs (s : Scene κ) (m : Act κ α) : Prop :=
  m.Upholds Scene.Staffed Scene.Extends (fun _ => True) s

namespace Act.Staffs
variable {s : Scene κ}

theorem of_touches {F : List Field} {C : List Call.Kind} {m : Act κ α} (touches : m.Touches F C)
    (out : ∀ f ∈ Field.staffing, f ∉ F) : m.Staffs s :=
  .of_within (fun _ _ staffed alike => alike.staffed out staffed) (fun _ _ => trivial) touches

theorem closed (s : Scene κ) : Closed fun {_} (m : Act κ _) => m.Staffs s where
  of_touches touches out := by
    have sub : ∀ f ∈ Field.staffing, f ∈ Field.telling := by decide
    exact of_touches touches fun f inside => out f (sub f inside)
  bind := .bind

theorem configure (id : ComponentId) : (Act.configure id).Staffs s :=
  of_touches (.configure id) (by decide)

/-- The type is registered by now, and of the former scene it is only asked that a type that had the
tag then is not larger. -/
theorem wp_instantiate {p : Point κ σ} (x : NodeId) (d : Definition κ) (owner : Option ComponentId)
    (staffed : p.scene.Staffed) (since : s.Extends p.scene) (issued : p.scene.Issues d)
    (current : ∀ e, s.definitions.get? d.tag = some e → e.Enlarges d) :
    (Act.instantiate x d owner).wp (Upholding σ Scene.Staffed Scene.Extends fun _ => True)
      (fun _ q => q.scene.Staffed ∧ s.Extends q.scene ∧ q.scene.Issues d) p := by
  have told (id : ComponentId) (t : Scene κ) : (do
      setStage id .created
      tellParts id .created
      runHook id "created" Hooks.created
      return id : Act κ ComponentId).Staffs t :=
    .bind (of_touches (.setStage _ _) (by decide)) fun _ =>
      .bind (of_touches (.tellParts _ _) (by decide)) fun _ =>
        .bind (of_touches (.runHook _ _ _) (by decide)) fun _ => .pure _
  let made : Scene κ := { p.scene with components := p.scene.components.push (.new d x owner) }
  have next : made.Staffed := staffed.push issued x owner
  have later : s.Extends made := since.push current x owner
  refine Upholding.takes_change staffed next ?_
  refine wp_mono _ (fun _ q kept => ?_) (told _ made σ (p.change made) next (.refl _))
  exact ⟨kept.1, later.trans kept.2, kept.2.issues issued⟩

theorem instantiate (x : NodeId) {d : Definition κ} (owner : Option ComponentId)
    (issued : s.Issues d) (current : ∀ e, s.definitions.get? d.tag = some e → e.Enlarges d) :
    (Act.instantiate x d owner).Staffs s := by
  intro σ p staffed since
  refine wp_mono _ ?_ (wp_instantiate x d owner staffed since (since.issues issued) current)
  rintro _ q ⟨staffed, since, -⟩
  exact ⟨staffed, since⟩

theorem createElement (tag : String) : (Act.createElement tag).Staffs s := by
  refine .sceneBind fun t staffed _ => ?_
  have sound : (t.document.createElement tag).2.Sound :=
    (Document.follows_createElement t.document tag).sound staffed.document
  dsimp -zeta only
  refine .bind (.update fun u here _ => here.edit sound) fun _ => ?_
  split
  · next d found =>
    have lower : d.tag = tag.toLower := staffed.tagged _ d found
    have issued : t.Issues d := by
      refine ⟨by rw [lower, String.toLower_toLower], d, ?_, .refl _⟩
      rw [lower]
      exact found
    refine .bind (instantiate _ _ issued ?_) fun _ => .pure _
    intro e registered
    rw [lower] at registered
    cases registered.symm.trans found
    exact .refl _
  · exact .pure _

theorem connect (id : ComponentId) : (Act.connect id).Staffs s :=
  (closed s).connect createElement configure id

/-- Without calls nothing comes between. -/
theorem wp_alone {F : List Field} {m : Act κ α} {p : Point κ σ} (touches : m.Touches F [])
    (out : ∀ f ∈ Field.staffing, f ∉ F) (staffed : p.scene.Staffed) :
    m.wp (Upholding σ Scene.Staffed Scene.Extends fun _ => True)
      (fun _ q => q.scene.Staffed ∧ p.scene.Alike F q.scene) p := by
  refine wp_mono _ (fun _ q alike => ⟨(alike.staffed out staffed).1, alike⟩) (touches.wp_alone ?_)
  intro past s t since step
  have here := (since.staffed out staffed).1
  exact Upholding.safe_change here (step.staffed out here).1

theorem wp_upgrade {p : Point κ σ} (d : Definition κ) (nodes : List NodeId)
    (staffed : p.scene.Staffed) (since : s.Extends p.scene)
    (issued : ∀ x ∈ nodes, p.scene.Issues d)
    (current : ∀ e, d.tag.toLower = d.tag → s.definitions.get? d.tag = some e → e.Enlarges d) :
    (Act.upgrade d nodes).wp (Upholding σ Scene.Staffed Scene.Extends fun _ => True)
      (fun _ q => q.scene.Staffed ∧ s.Extends q.scene) p := by
  induction nodes generalizing p with
  | nil => exact ⟨staffed, since⟩
  | cons x rest ih =>
    have here := issued x List.mem_cons_self
    refine (wp_bind _ _).mpr (wp_scene.mpr ((wp_bind _ _).mpr ?_))
    refine wp_mono _ ?_ (wp_instantiate x d _ staffed since here fun e => current e here.1)
    rintro _ q ⟨staffed, since, issued⟩
    exact (wp_bind _ _).mpr (wp_mono _ (fun _ r kept => kept) (ih staffed since fun _ _ => issued))

theorem register (d : Definition κ) : (Act.register d).Staffs s := by
  intro σ p staffed since
  refine (wp_bind _ _).mpr (wp_scene.mpr ?_)
  rw [wp_ite]
  split
  · exact ⟨staffed, since⟩
  next unknown =>
  extract_lets e
  have noted : (Act.each e.schema.problems (note none) : Act κ Unit).Touches [.journal] [] :=
    .each _ fun fault => .note_none fault
  refine (wp_bind _ _).mpr (wp_mono _ ?_ (wp_alone noted (by decide) staffed))
  rintro _ q ⟨still, alike⟩
  have types : q.scene.definitions = p.scene.definitions := alike.view .definitions (by decide)
  have free (lower : e.tag.toLower = e.tag) : q.scene.definitions.get? e.tag = none := by
    rw [types, ← lower, Definition.tag_compose]
    rw [Scene.isRegistered, Scene.definition?, Bool.not_eq_true, Option.isSome_eq_false_iff,
      Option.isNone_iff_eq_none] at unknown
    exact unknown
  have unused (f : Definition κ) (lower : e.tag.toLower = e.tag)
      (found : q.scene.definitions.get? e.tag = some f) : f.Enlarges e := by
    cases (free lower).symm.trans found
  obtain ⟨next, step⟩ := still.define (d.ranked_compose _) (d := e) unused (t := { q.scene with
      definitions := q.scene.definitions.insert e.tag e
      waiting := q.scene.waiting.erase e.tag }) rfl rfl rfl
  have before := since.trans (alike.staffed (by decide) staffed).2
  have issued (lower : e.tag.toLower = e.tag) : ({ q.scene with
      definitions := q.scene.definitions.insert e.tag e
      waiting := q.scene.waiting.erase e.tag } : Scene κ).Issues e :=
    ⟨lower, e, Keyed.get?_insert_self _ _ _, .refl _⟩
  refine (wp_bind _ _).mpr (Upholding.takes_change still next ?_)
  have told (k : κ) : (do let _ ← callback k .registered : Act κ Unit).Touches [] [.registered] :=
    .bind (.registered k) fun _ => .pure _
  have telling (ks : List κ) (t : Scene κ) : (Act.each ks fun k => do
      let _ ← callback k .registered).Staffs t := of_touches (.each _ told) (by decide)
  refine (wp_bind _ _).mpr (wp_mono _ ?_ (telling _ _ σ (q.change _) next (.refl _)))
  rintro _ r ⟨staffed, later⟩
  -- The type may have got larger meanwhile. It counts that its tag was free before: consumers who
  -- add a capability now find that the components still to be made do not get it.
  have since := before.trans (step.trans later)
  refine (wp_bind _ _).mpr (wp_scene.mpr ?_)
  extract_lets nodes
  have tagged (x : NodeId) (member : x ∈ nodes) : e.tag.toLower = e.tag := by
    have kept := (List.mem_filter.mp member).2
    simp only [Bool.and_eq_true, decide_eq_true_eq] at kept
    exact staffed.document.lower x e.tag kept.1
  have upgraded := wp_upgrade (s := q.scene) (σ := σ) e nodes staffed (step.trans later)
    (fun x member => later.issues (issued (tagged x member))) unused
  refine (wp_bind _ _).mpr (wp_mono _ ?_ upgraded)
  rintro ids k ⟨staffed, extended⟩
  have connecting : (do Act.each ids Act.connect; return true : Act κ Bool).Staffs k.scene :=
    .bind (.each ids fun id => connect id) fun _ => .pure true
  exact Upholds.after connecting staffed (before.trans extended)

/-- Each component is adopted once, while its type is still one that lacks the capability. -/
theorem addCapability (tag : String) (c : Capability κ) : (Act.addCapability tag c).Staffs s := by
  intro σ p staffed since
  refine (wp_bind _ _).mpr (wp_scene.mpr ?_)
  split
  · exact ⟨staffed, since⟩
  next d larger =>
  obtain ⟨e, found, added⟩ := Option.bind_eq_some_iff.mp larger
  obtain ⟨free, rfl⟩ := Definition.add?_eq_some added
  have name : e.tag = tag.toLower := staffed.tagged _ e found
  have lower : (e.take c).tag.toLower = (e.take c).tag := by
    rw [(Definition.Enlarges.take e c).tag, name, String.toLower_toLower]
  obtain ⟨next, step⟩ := staffed.define ((staffed.ranked _ e found).take c) (d := e.take c)
    (t := { p.scene with definitions := p.scene.definitions.insert (e.take c).tag (e.take c) })
    (fun f _ there => by
      rw [(Definition.Enlarges.take e c).tag, name] at there
      cases found.symm.trans there
      exact .take e c) rfl rfl rfl
  have members (id : ComponentId) (member : id ∈ p.scene.componentsWhere fun i => i.tag == tag)
      (i : Component κ) (there : p.scene.component? id = some i) : i.definition.Enlarges e := by
    obtain ⟨j, here, own⟩ := Scene.mem_componentsWhere.mp member
    cases here.symm.trans there
    exact staffed.enlarges found there (beq_iff_eq.mp own)
  have issued : ({ p.scene with
      definitions := p.scene.definitions.insert (e.take c).tag (e.take c) } : Scene κ).Issues
        (e.take c) :=
    ⟨lower, _, Keyed.get?_insert_self _ _ _, .refl _⟩
  refine (wp_bind _ _).mpr (Upholding.takes_change staffed next ?_)
  refine (wp_bind _ _).mpr (wp_each (fun ids q => ids.Nodup ∧ q.scene.Staffed ∧ s.Extends q.scene ∧
    q.scene.Issues (e.take c) ∧
    ∀ id ∈ ids, ∀ i, q.scene.component? id = some i → i.definition.Enlarges e)
    ?_ ?_ _ ⟨p.scene.nodup_componentsWhere _, next, since.trans step, issued, members⟩)
  · rintro id rest q ⟨distinct, staffed, since, issued, smaller⟩
    obtain ⟨fresh, distinct⟩ := List.nodup_cons.mp distinct
    obtain ⟨next, step⟩ := staffed.adopt free issued (smaller id List.mem_cons_self)
    refine Upholding.takes_change staffed next
      ⟨distinct, next, since.trans step, step.issues issued, ?_⟩
    intro other later i there
    have apart : id ≠ other := by
      rintro rfl
      exact fresh later
    rw [Point.scene_change, Scene.component?_modify, if_neg apart] at there
    exact smaller other (List.mem_cons_of_mem _ later) i there
  · rintro q ⟨-, staffed, since, -, -⟩
    exact ⟨staffed, since⟩

theorem request (r : Request κ) : r.act.Staffs s := by
  cases r with
  | register d => exact register d
  | addCapability tag c => exact addCapability tag c
  | createElement tag => exact createElement tag
  | appendChild parent child => exact (closed s).appendChild createElement configure parent child
  | finishLoading => exact (closed s).finishLoading createElement configure (of_touches .resolveWaiting (by decide))
  | _ =>
    refine of_touches (.request _) ?_
    dsimp only [Touches.requested]
    decide

theorem call (c : Call κ) : c.Upholds Scene.Staffed Scene.Extends (fun _ => True) s := by
  cases c with
  | write id name v origin => exact of_touches (.write id name v origin) (by decide)
  | connect id => exact connect id
  | release id => exact of_touches (.release id) (by decide)
  | service x id arguments => exact of_touches (.service x id arguments) (by decide)
  | deliver x e => exact of_touches (.deliver x e) (by decide)
  | callback k o => trivial
  | apply f arguments => trivial

end Act.Staffs

/-- A property that is declared anew or was there before has a place. -/
theorem Schema.mem_names_foldl_declareNew {ps : List Property} {a : Schema} {p : Property}
    (listed : p ∈ ps) : p.name ∈ (ps.foldl declareNew a).names := by
  induction ps generalizing a with
  | nil => cases listed
  | cons q rest ih =>
    rcases List.mem_cons.mp listed with rfl | later
    · obtain ⟨first, declared⟩ : ∃ x, (a.declareNew p).get? p.name = some x := by
        unfold declareNew
        split
        · next there => exact Option.isSome_iff_exists.mp there
        · exact ⟨p, by rw [get?_declare, if_pos rfl]⟩
      exact mem_names.mpr ⟨first, within_foldl_declareNew rest _ _ _ declared⟩
    · exact ih later

namespace Act
variable {ρ : Type} {answer : (c : Call κ) → World κ ρ → Option (c.Answer × World κ ρ)}

theorem run_each_modify (ids : List ComponentId) (f : Component κ → Component κ) (w : World κ ρ) :
    (each ids fun id => modify id f).run answer w =
      some ((), { w with scene := ids.foldl (fun s id => s.modify id f) w.scene }) := by
  induction ids generalizing w with
  | nil => rfl
  | cons id rest ih => exact ih { w with scene := w.scene.modify id f }

end Act

theorem Scene.component?_foldl_modify {ids : List ComponentId} (distinct : ids.Nodup)
    (f : Component κ → Component κ) (s : Scene κ) (id : ComponentId) :
    (ids.foldl (fun s id => s.modify id f) s).component? id =
      if id ∈ ids then (s.component? id).map f else s.component? id := by
  induction ids generalizing s with
  | nil => simp
  | cons first rest ih =>
    obtain ⟨fresh, distinct⟩ := List.nodup_cons.mp distinct
    rw [List.foldl_cons, ih distinct, component?_modify]
    by_cases same : first = id
    · subst same
      simp [fresh]
    · simp [same, Ne.symm same]

namespace Component

structure Carries (i : Component κ) (d : Definition κ) (c : Capability κ) : Prop where
  slots : ∀ p ∈ c.properties, p.name ∈ Keyed.names i.slots
  /-- Methods whose names were still free are those of the capability. -/
  dispatch : ∀ name m, d.methods.get? name = none → Keyed.get? c.methods name = some m →
    i.definition.methods.get? name = some { owner := some c.name, method := m }
  once : i.capabilities.filter (·.name == c.name) = [c]

structure Keeps (i j : Component κ) : Prop where
  slots : ∀ name slot, Keyed.get? i.slots name = some slot → Keyed.get? j.slots name = some slot
  methods : ∀ name x, i.definition.methods.get? name = some x →
    j.definition.methods.get? name = some x
  rest : { j with definition := i.definition, slots := i.slots, parts := i.parts } = i

theorem keeps_adopt {i : Component κ} {e : Definition κ} (larger : i.definition.Enlarges e)
    (c : Capability κ) : i.Keeps (i.adopt e c) where
  slots name slot there := by
    change Keyed.get? (i.slots.fill e.schema) name = some slot
    rw [Slots.get?_fill, there, Option.some_or]
  methods := larger.methods
  rest := rfl

theorem carries {i : Component κ} {d : Definition κ} {c : Capability κ}
    (free : d.has c.name = false) (distinct : (i.capabilities.map Capability.name).Nodup)
    (larger : (d.take c).Enlarges i.definition)
    (slots : ∀ name ∈ (d.take c).schema.names, name ∈ Keyed.names i.slots)
    (there : c ∈ i.capabilities) : i.Carries d c := by
  refine ⟨?_, ?_, ?_⟩
  · intro p listed
    apply slots
    rw [Definition.take_eq, free]
    exact Schema.mem_names_foldl_declareNew listed
  · intro name m unknown found
    apply larger.methods
    rw [Definition.take_eq, free]
    change Keyed.get? (Definition.addMethods d.methods c) name = _
    rw [Definition.get?_addMethods, unknown, Option.none_or, Capability.provided?, found]
    rfl
  · obtain ⟨front, back, same⟩ := List.append_of_mem there
    rw [same, List.map_append, List.map_cons, List.nodup_append, List.nodup_cons] at distinct
    obtain ⟨-, ⟨behind, -⟩, apart⟩ := distinct
    have none_of (cs : List (Capability κ)) (other : ∀ x ∈ cs, x.name ≠ c.name) :
        cs.filter (·.name == c.name) = [] :=
      List.filter_eq_nil_iff.mpr fun x member => by simpa using other x member
    rw [same, List.filter_append, List.filter_cons, if_pos (beq_self_eq_true _),
      none_of front ?_, none_of back ?_]
    · rfl
    · intro x member here
      exact behind (here ▸ List.mem_map_of_mem member)
    · intro x member
      exact apart _ (List.mem_map_of_mem member) _ List.mem_cons_self

theorem Works.carries {i : Component κ} {d : Definition κ} {c : Capability κ}
    (works : i.Works (d.take c)) (free : d.has c.name = false)
    (distinct : (i.capabilities.map Capability.name).Nodup) : i.Carries d c := by
  refine Component.carries free distinct works.definition works.slots (works.capabilities c ?_)
  rw [Definition.capabilities_take free]
  exact List.mem_append_right _ List.mem_cons_self

/-- A component that was adopted carries the capability from then on, whichever of the capabilities
before it are missing. -/
theorem carries_of_adopt {i j : Component κ} {d : Definition κ} {c : Capability κ}
    (later : (i.adopt (d.take c) c).Enlarges j) (free : d.has c.name = false)
    (distinct : (j.capabilities.map Capability.name).Nodup) : j.Carries d c := by
  refine Component.carries free distinct later.definition ?_ (later.capabilities c ?_)
  · intro name there
    exact later.slots name (Slots.mem_names_fill.mpr (.inr there))
  · rw [Component.capabilities, Component.adopt, List.map_append]
    exact List.mem_append_right _ List.mem_cons_self

end Component

namespace Scene

def enlarge (s : Scene κ) (tag : String) (d : Definition κ) (c : Capability κ) : Scene κ :=
  (s.componentsWhere fun i => i.tag == tag).foldl (fun s id => s.modify id (·.adopt d c))
    { s with definitions := s.definitions.insert d.tag d }

theorem component?_enlarge (s : Scene κ) (tag : String) (d : Definition κ) (c : Capability κ)
    (id : ComponentId) : (s.enlarge tag d c).component? id =
      (s.component? id).map fun i => if i.tag = tag then i.adopt d c else i := by
  rw [enlarge, component?_foldl_modify (s.nodup_componentsWhere _)]
  simp only [mem_componentsWhere]
  change (if _ then (s.component? id).map _ else s.component? id) = _
  cases s.component? id with
  | none => simp
  | some i => by_cases here : i.tag = tag <;> simp [here]

theorem definitions_enlarge (s : Scene κ) (tag : String) (d : Definition κ) (c : Capability κ) :
    (s.enlarge tag d c).definitions = s.definitions.insert d.tag d := by
  have fold (ids : List ComponentId) (t : Scene κ) :
      (ids.foldl (fun s id => s.modify id (·.adopt d c)) t).definitions = t.definitions := by
    induction ids generalizing t with
    | nil => rfl
    | cons id rest ih => exact ih _
  exact fold _ _

end Scene

theorem Act.run_addCapability {ρ : Type}
    {answer : (c : Call κ) → World κ ρ → Option (c.Answer × World κ ρ)} (tag : String)
    (c : Capability κ) (w : World κ ρ) : (addCapability tag c).run answer w =
      match (w.scene.definition? tag).bind (·.add? c) with
      | none => some (false, w)
      | some d => some (true, { w with scene := w.scene.enlarge tag d c }) := by
  have opened : (addCapability tag c).run answer w =
      (match (w.scene.definition? tag).bind (·.add? c) with
      | none => (return false : Act κ Bool)
      | some d => do
        update fun s => { s with definitions := s.definitions.insert d.tag d }
        each (w.scene.componentsWhere fun i => i.tag == tag) fun id => modify id (·.adopt d c)
        return true).run answer w := rfl
  rw [opened]
  split
  · rfl
  · next d _ =>
    change ((each _ fun id => modify id (·.adopt d c)).bind fun _ => done true).run answer _ = _
    rw [run_bind, run_each_modify]
    rfl

section Runs
variable (env : Environment κ σ)

theorem Environment.play_staffed {w w' : World κ σ} (staffed : w.scene.Staffed) {fuel : Nat}
    {m : Script κ σ α} {a : α} (played : env.play fuel m w = some (a, w')) :
    w'.scene.Staffed ∧ w.scene.Extends w'.scene :=
  env.play_upholds (fun r _ => Act.Staffs.request r) (fun c _ => Act.Staffs.call c) staffed played

theorem Environment.play_addCapability (fuel : Nat) (tag : String) (c : Capability κ)
    (w : World κ σ) : env.play fuel (.request (.addCapability tag c)) w =
      match (w.scene.definition? tag).bind (·.add? c) with
      | none => some (false, w)
      | some d => some (true, { w with scene := w.scene.enlarge tag d c }) := by
  rw [play, Script.request, Script.run, show (Request.addCapability tag c).act =
    Act.addCapability tag c from rfl, Act.run_addCapability]
  cases (w.scene.definition? tag).bind (·.add? c) <;> rfl

/-- An addition is refused if the type is unknown or has a capability of that name. -/
theorem Definition.add?_eq_none {d : Definition κ} {c : Capability κ} :
    d.add? c = none ↔ d.has c.name = true := by
  unfold add?
  split <;> simp_all

/-- What becomes of a scene in which a type gets a capability: it is carried by the components of
that tag, and they keep what they have; all others are as they were. -/
structure Scene.Gains (s t : Scene κ) (tag : String) (d : Definition κ) (c : Capability κ) :
    Prop where
  registered : s.definition? tag = some d
  lacking : d.has c.name = false
  larger : t.definition? tag = some (d.take c)
  members : ∀ id i, s.component? id = some i → i.tag = tag →
    ∃ j, t.component? id = some j ∧ j.Carries d c ∧ i.Keeps j
  others : ∀ id i, s.component? id = some i → i.tag ≠ tag → t.component? id = some i

theorem Scene.Staffed.gains {s : Scene κ} (staffed : s.Staffed) {tag : String} {d : Definition κ}
    {c : Capability κ} (found : s.definition? tag = some d) (free : d.has c.name = false)
    (later : (s.enlarge tag (d.take c) c).Staffed) :
    s.Gains (s.enlarge tag (d.take c) c) tag d c where
  registered := found
  lacking := free
  larger := by
    have own : (d.take c).tag = tag.toLower :=
      (Definition.Enlarges.take d c).tag.trans (staffed.tagged _ d found)
    rw [Scene.definition?, Scene.definitions_enlarge, own, Keyed.get?_insert_self]
  members id i there own := by
    have now := s.component?_enlarge tag (d.take c) c id
    rw [there, Option.map_some, if_pos own] at now
    refine ⟨_, now, Component.carries_of_adopt (.refl _) free (later.distinct now), ?_⟩
    exact Component.keeps_adopt ((staffed.enlarges found there own).trans (.take d c)) c
  others id i there other := by
    rw [component?_enlarge, there, Option.map_some, if_neg other]

/-- Whoever has the tag at a later time carries the capability. -/
theorem Scene.Gains.carries {s u : Scene κ} {tag : String} {d : Definition κ} {c : Capability κ}
    (gains : s.Gains (s.enlarge tag (d.take c) c) tag d c) (extended : (s.enlarge tag (d.take c) c).Extends u)
    (staffed : u.Staffed) {id : ComponentId} {k : Component κ} (there : u.component? id = some k)
    (own : k.tag = tag) : k.Carries d c := by
  have distinct := staffed.distinct there
  have moved := s.component?_enlarge tag (d.take c) c id
  cases before : s.component? id with
  | some i =>
    -- The component was adopted in the addition.
    rw [before, Option.map_some] at moved
    obtain ⟨k', found, larger⟩ := extended.old id _ moved
    cases found.symm.trans there
    by_cases same : i.tag = tag
    · rw [if_pos same] at larger
      exact Component.carries_of_adopt larger gains.lacking distinct
    · rw [if_neg same] at larger
      exact absurd (larger.definition.tag.symm.trans own) same
  | none =>
    -- It was made afterwards, of the type as it was then.
    rw [before, Option.map_none] at moved
    obtain ⟨lower, -⟩ := staffed.issued id k there
    have registered := gains.larger
    have key : tag.toLower = k.tag := by rw [← own]; exact lower
    rw [Scene.definition?, key] at registered
    exact (extended.new id k _ moved there lower registered).carries gains.lacking distinct

/-- The addition of a capability always ends, and it is refused exactly if the type is unknown or has it. -/
theorem Environment.play_gains {s : Scene κ} (staffed : s.Staffed) (fuel : Nat) (tag : String)
    (c : Capability κ) (store : σ) :
    ∃ b t, env.play fuel (.request (.addCapability tag c)) ⟨s, store⟩ = some (b, ⟨t, store⟩) ∧
      (b = true ↔ ∃ d, s.definition? tag = some d ∧ d.has c.name = false) ∧
      (b = false → t = s) ∧
      (b = true → ∃ d, t = s.enlarge tag (d.take c) c ∧ s.Gains t tag d c) := by
  have played := env.play_addCapability fuel tag c ⟨s, store⟩
  cases known : s.definition? tag with
  | none =>
    rw [known] at played
    exact ⟨false, s, played, by simp, fun _ => rfl, nofun⟩
  | some d =>
    rw [known, Option.bind_some] at played
    cases result : d.add? c with
    | none =>
      rw [result] at played
      have taken := Definition.add?_eq_none.mp result
      exact ⟨false, s, played, by simp [taken], fun _ => rfl, nofun⟩
    | some e =>
      rw [result] at played
      obtain ⟨free, rfl⟩ := Definition.add?_eq_some result
      refine ⟨true, _, played, by simp [free], nofun, fun _ => ⟨d, rfl, ?_⟩⟩
      exact staffed.gains known free (env.play_staffed staffed played).1

/-- When a type gets a capability, every component of the tag gets it too, whatever goes on at that
time: each property has a slot, each method that was not there is called, the capability is listed
once, and all that was there stays. If the capability is refused, nothing changes. From an addition
between operations on, every component of the tag has it, those made later as well. -/
theorem capability_of_reachable {w : World κ σ} (reached : env.Reachable w) (tag : String)
    (c : Capability κ) :
    (∀ (fuel : Nat) (m : Script κ σ α) (s : Scene κ) (store : σ),
      s = w.scene ∨ (∃ x ∈ (env.record fuel m w).steps, s ∈ x.scenes) →
      ∃ b t, env.play fuel (.request (.addCapability tag c)) ⟨s, store⟩ = some (b, ⟨t, store⟩) ∧
        (b = true ↔ ∃ d, s.definition? tag = some d ∧ d.has c.name = false) ∧
        (b = false → t = s) ∧ (b = true → ∃ d, s.Gains t tag d c)) ∧
    ∀ fuel w', env.play fuel (.request (.addCapability tag c)) w = some (true, w') →
      ∃ d, w.scene.definition? tag = some d ∧ d.has c.name = false ∧
        ∀ fuel (m : Script κ σ α) a w'', env.play fuel m w' = some (a, w'') →
          ∀ id i, w''.scene.component? id = some i → i.tag = tag → i.Carries d c := by
  refine ⟨?_, ?_⟩
  · intro fuel m s store met
    have staffed : s.Staffed := reached.upholds_met (fun r _ => Act.Staffs.request r)
      (fun c _ => Act.Staffs.call c) env Scene.staffed_ofConfig fuel m met
    obtain ⟨b, t, played, accepted, refused, gains⟩ := env.play_gains staffed fuel tag c store
    exact ⟨b, t, played, accepted, refused, fun yes => (gains yes).imp fun _ gained => gained.2⟩
  · intro fuel w' asked
    have staffed : w.scene.Staffed := reached.upholds (fun r _ => Act.Staffs.request r)
      (fun c _ => Act.Staffs.call c) env Scene.staffed_ofConfig
    obtain ⟨b, t, played, -, -, gains⟩ := env.play_gains staffed fuel tag c w.store
    cases played.symm.trans asked
    obtain ⟨d, rfl, gains⟩ := gains rfl
    refine ⟨d, gains.registered, gains.lacking, fun fuel' m a w'' later id k there own => ?_⟩
    obtain ⟨then_, extended⟩ := env.play_staffed (env.play_staffed staffed asked).1 later
    exact gains.carries extended then_ there own

end Runs

def furnishing : Script Empty Unit Unit := do
  let _ ← Script.request (.register (Declaration.define { tag := "x-a" }))
  let _ ← Script.request (.createElement "x-a")

def lamp : Capability Empty where
  name := "Lamp"
  properties := [.ofKind "lit" .boolean]

theorem capability_of_reachable_furnishing : ∃ w t d,
    silent.play 10 furnishing ⟨.ofConfig {} none, ()⟩ = some ((), w) ∧
      silent.play 10 (.request (.addCapability "x-a" lamp)) w = some (true, ⟨t, ()⟩) ∧
      (w.scene.component? ⟨0⟩).isSome = true ∧ w.scene.Gains t "x-a" d lamp := by
  have answered : (silent.play 10 furnishing ⟨.ofConfig {} none, ()⟩).map (fun r =>
      ((r.2.scene.component? ⟨0⟩).isSome, (r.2.scene.definition? "x-a").map (·.has "Lamp"))) =
        some (true, some false) := by decide +kernel
  obtain ⟨⟨_, w⟩, played, same⟩ := Option.map_eq_some_iff.mp answered
  obtain ⟨there, free⟩ := Prod.mk.inj same
  have reached : silent.Reachable w := (Environment.Reachable.start _ none ()).play furnishing played
  obtain ⟨added, -⟩ := capability_of_reachable (α := Unit) silent reached "x-a" lamp
  obtain ⟨b, t, given, known, -, gains⟩ := added 10 furnishing w.scene () (.inl rfl)
  obtain rfl : b = true := known.mpr (Option.map_eq_some_iff.mp free)
  obtain ⟨d, gains⟩ := gains rfl
  exact ⟨w, t, d, played, given, there, gains⟩

end LiveTree
