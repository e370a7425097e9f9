import LiveTree.Proofs.Contract.Preserving
import LiveTree.Proofs.Footprint.Closed

/-! Every component has a node of its own. Components are made at new nodes and, when a type is
registered, at nodes of its tag. From then on the tag is taken, so that no consumer code that runs
in between can make another component at one of these nodes. -/
namespace LiveTree
variable {κ σ α β : Type}

namespace Scene

structure Placed (s : Scene κ) : Prop where
  document : s.document.Sound
  inside : ∀ id c, s.component? id = some c → c.node.index < s.document.size
  apart : ∀ id other c d, s.component? id = some c → s.component? other = some d →
    c.node = d.node → id = other

def Open (s : Scene κ) (x : NodeId) : Prop :=
  s.document.size ≤ x.index ∨ ∀ tag, s.document.tag? x = some tag → s.isRegistered tag = false

structure Settles (s t : Scene κ) : Prop where
  document : s.document.Follows t.document
  registered : ∀ tag, s.isRegistered tag = true → t.isRegistered tag = true
  node : ∀ id c, s.component? id = some c → ∃ d, t.component? id = some d ∧ d.node = c.node
  fresh : ∀ id d, s.component? id = none → t.component? id = some d → s.Open d.node

namespace Settles
variable {s t u : Scene κ}

theorem refl (s : Scene κ) : s.Settles s :=
  ⟨.refl _, fun _ known => known, fun _ c found => ⟨c, found, rfl⟩,
    fun _ _ missing found => nomatch missing.symm.trans found⟩

/-- What is open later has always been. -/
theorem opened (settles : s.Settles t) {x : NodeId} (later : t.Open x) : s.Open x := by
  by_cases new : s.document.size ≤ x.index
  · exact .inl new
  refine .inr fun tag here => ?_
  have same := settles.document.tag x (Nat.lt_of_not_le new)
  rcases later with beyond | free
  · exact absurd (settles.document.size.trans beyond) new
  · have gone := free tag (same.trans here)
    refine Bool.eq_false_iff.mpr fun known => ?_
    rw [settles.registered tag known] at gone
    cases gone

theorem trans (first : s.Settles t) (second : t.Settles u) : s.Settles u where
  document := first.document.trans second.document
  registered tag known := second.registered tag (first.registered tag known)
  node id c found := by
    obtain ⟨d, there, same⟩ := first.node id c found
    obtain ⟨e, later, same'⟩ := second.node id d there
    exact ⟨e, later, same'.trans same⟩
  fresh id e missing found := by
    cases there : t.component? id with
    | none => exact first.opened (second.fresh id e there found)
    | some d =>
      obtain ⟨e', later, same⟩ := second.node id d there
      cases later.symm.trans found
      rw [same]
      exact first.fresh id d missing there

end Settles

/-- With the same components at the same nodes nothing is taken. -/
theorem Alike.settles {F : List Field} {s t : Scene κ} (alike : s.Alike F t)
    (out : .components ∉ F) : s.Settles t where
  document := alike.document
  registered := alike.registered
  node id c found := by
    obtain ⟨d, there, same⟩ := alike.component id c found
    exact ⟨d, there, same.node⟩
  fresh id d missing found := by
    have same := alike.map_component? out Component.node (fun _ _ alike => alike.node) id
    rw [missing, found] at same
    cases same

theorem Alike.placed {F : List Field} {s t : Scene κ} (alike : s.Alike F t)
    (out : .components ∉ F) (placed : s.Placed) : t.Placed := by
  have old (id) (d) (found : t.component? id = some d) :
      ∃ c, s.component? id = some c ∧ c.node = d.node := by
    have same := alike.map_component? out Component.node (fun _ _ alike => alike.node) id
    rw [found] at same
    exact Option.map_eq_some_iff.mp same.symm
  refine ⟨alike.document.sound placed.document, fun id d found => ?_, fun id other d e found there same => ?_⟩
  · obtain ⟨c, before, same⟩ := old id d found
    rw [← same]
    exact (placed.inside id c before).trans_le alike.document.size
  · obtain ⟨c, before, node⟩ := old id d found
    obtain ⟨c', before', node'⟩ := old other e there
    exact placed.apart id other c c' before before' (node.trans (same.trans node'.symm))

theorem componentAt?_eq_none {s : Scene κ} {x : NodeId} :
    s.componentAt? x = none ↔ ∀ id c, s.component? id = some c → c.node ≠ x := by
  rw [componentAt?, Option.map_eq_none_iff, Array.findIdx?_eq_none_iff]
  refine ⟨fun none id c found => ?_, fun free c member => ?_⟩
  · exact of_decide_eq_false (none c (Array.mem_of_getElem? found))
  · obtain ⟨i, found⟩ := Array.mem_iff_getElem?.mp member
    exact decide_eq_false (free ⟨i⟩ c found)

/-- Which component a node has depends on the nodes of the components alone. -/
theorem componentAt?_of_nodes {s t : Scene κ}
    (same : ∀ id, (t.component? id).map Component.node = (s.component? id).map Component.node) (x : NodeId) :
    t.componentAt? x = s.componentAt? x := by
  have nodes : t.components.cells.map Component.node = s.components.cells.map Component.node := by
    refine Array.ext_getElem? fun i => ?_
    rw [Array.getElem?_map, Array.getElem?_map]
    exact same ⟨i⟩
  have found (u : Scene κ) : u.componentAt? x =
      ((u.components.cells.map Component.node).findIdx? (decide <| · = x)).map ComponentId.mk := by
    rw [componentAt?, Array.findIdx?_map]
    rfl
  rw [found, found, nodes]

theorem Alike.componentAt? {F : List Field} {s t : Scene κ} (alike : s.Alike F t) (out : .components ∉ F)
    (x : NodeId) : t.componentAt? x = s.componentAt? x :=
  componentAt?_of_nodes (alike.map_component? out Component.node fun _ _ same => same.node) x

section Push
variable {s t : Scene κ} {c : Component κ}

theorem component?_push (s : Scene κ) (c : Component κ) (id : ComponentId) :
    ({ s with components := s.components.push c } : Scene κ).component? id =
      if id.index = s.components.size then some c else s.component? id :=
  Arena.get?_push _ _ _

theorem Settles.push (settles : s.Settles t) (free : s.Open c.node) :
    s.Settles { t with components := t.components.push c } where
  document := settles.document
  registered := settles.registered
  node id d found := by
    obtain ⟨e, there, same⟩ := settles.node id d found
    obtain ⟨e', later, alike⟩ := (Alike.push t c).component id e there
    exact ⟨e', later, alike.node.trans same⟩
  fresh id d missing found := by
    rw [component?_push] at found
    split at found
    · cases found
      exact free
    · exact settles.fresh id d missing found

theorem Placed.push (placed : s.Placed) (inside : c.node.index < s.document.size)
    (vacant : ∀ id d, s.component? id = some d → d.node ≠ c.node) :
    ({ s with components := s.components.push c } : Scene κ).Placed where
  document := placed.document
  inside id d found := by
    rw [component?_push] at found
    split at found
    · cases found
      exact inside
    · exact placed.inside id d found
  apart id other d e found there same := by
    rw [component?_push] at found there
    split at found <;> split at there
    · next one two => exact congrArg ComponentId.mk (one.trans two.symm)
    · cases found
      exact absurd same.symm (vacant other e there)
    · cases there
      exact absurd same (vacant id d found)
    · exact placed.apart id other d e found there same

end Push
end Scene

def Placing (κ σ : Type) : Contract κ σ where
  given _ _ := True
  safe _ x := match x with
    | .change _ t => t.Placed
    | _ => True
  before _ p := p.scene.Placed
  after _ p _ q := q.scene.Placed ∧ p.scene.Settles q.scene

def Act.Places (m : Act κ α) : Prop :=
  ∀ (σ : Type) (p : Point κ σ), p.scene.Placed →
    m.wp (Placing κ σ) (fun _ q => q.scene.Placed ∧ p.scene.Settles q.scene) p

namespace Act.Places

theorem of_touches {F : List Field} {C : List Call.Kind} {m : Act κ α} (touches : m.Touches F C)
    (out : .components ∉ F) : m.Places := by
  intro σ p placed
  refine wp_of_within (I := fun q => q.scene.Placed ∧ p.scene.Settles q.scene) ?_ ?_
    ⟨placed, .refl _⟩ (touches p.scene)
  · intro q t kept alike
    have next := alike.placed out kept.1
    exact ⟨next, fun _ => ⟨next, kept.2.trans (alike.settles out)⟩⟩
  · exact fun c q kept _ => ⟨kept.1, fun a r after => ⟨trivial, fun _ =>
      ⟨after.1, kept.2.trans after.2⟩⟩⟩

theorem bind {m : Act κ β} {f : β → Act κ α} (first : m.Places) (second : ∀ b, (f b).Places) :
    (m >>= f).Places := by
  intro σ p placed
  refine (wp_bind _ _).mpr (wp_mono _ (fun b q kept => ?_) (first σ p placed))
  exact wp_mono _ (fun _ r more => ⟨more.1, kept.2.trans more.2⟩) (second b σ q kept.1)

theorem closed : Closed fun {_} (m : Act κ _) => m.Places where
  of_touches touches out := of_touches touches (out _ (by decide))
  bind := bind

theorem update {f : Scene κ → Scene κ}
    (document : ∀ s : Scene κ, s.document.Follows (f s).document)
    (registered : ∀ (s : Scene κ) tag, s.isRegistered tag = true → (f s).isRegistered tag = true)
    (components : ∀ s : Scene κ, (f s).components = s.components) :
    (Act.update f).Places := by
  intro σ p placed
  have same (id) : (f p.scene).component? id = p.scene.component? id := by
    rw [Scene.component?, components, Scene.component?]
  have next : (f p.scene).Placed :=
    { document := (document p.scene).sound placed.document
      inside := fun id c found =>
        (placed.inside id c (by rwa [← same])).trans_le (document p.scene).size
      apart := fun id other c d found there =>
        placed.apart id other c d (by rwa [← same]) (by rwa [← same]) }
  refine ⟨next, fun _ => ⟨next, document p.scene, registered p.scene, fun id c found => ?_,
    fun id d missing found => ?_⟩⟩
  · exact ⟨c, (same id).trans found, rfl⟩
  · cases missing.symm.trans ((same id).symm.trans found)

/-- A component is made at a node that is free and was open at the outset. -/
theorem wp_instantiate {p : Point κ σ} {s : Scene κ} {x : NodeId} (d : Definition κ)
    (owner : Option ComponentId) (placed : p.scene.Placed) (settled : s.Settles p.scene)
    (inside : x.index < p.scene.document.size) (free : s.Open x)
    (vacant : ∀ id c, p.scene.component? id = some c → c.node ≠ x) :
    (Act.instantiate x d owner).wp (Placing κ σ) (fun _ q => q.scene.Placed ∧ s.Settles q.scene ∧
      ({ p.scene with components := p.scene.components.push (.new d x owner) } : Scene κ).Settles
        q.scene) p := by
  have next := placed.push (c := .new d x owner) inside vacant
  have made := settled.push (c := .new d x owner) free
  have rest (id : ComponentId) : (do
      setStage id .created
      tellParts id .created
      runHook id "created" Hooks.created
      return id : Act κ ComponentId).Places :=
    bind (of_touches (.setStage id .created) (by decide)) fun _ =>
      bind (of_touches (.tellParts id .created) (by decide)) fun _ =>
        bind (of_touches (.runHook id _ _) (by decide)) fun _ => closed.composes.pure id
  refine ⟨next, fun _ => ?_⟩
  exact wp_mono _ (fun _ q kept => ⟨kept.1, made.trans kept.2, kept.2⟩)
    (rest _ σ (p.change _) next)

theorem createElement (tag : String) : (Act.createElement tag : Act κ _).Places := by
  intro σ p placed
  have added := Scene.Alike.extend p.scene (Document.follows_createElement p.scene.document tag)
    (Document.listed_add _ _)
  have edited := added.placed (by decide) placed
  have settled := added.settles (by decide)
  refine (wp_bind _ _).mpr (wp_scene.mpr ?_)
  dsimp -zeta only
  refine (wp_bind _ _).mpr ⟨edited, fun _ => ?_⟩
  split
  · next d known =>
    have inside : p.scene.document.size < (p.scene.document.createElement tag).2.size := by
      rw [Document.createElement, Document.size_add]
      exact Nat.lt_succ_self _
    have made := wp_instantiate (p := p.change _) (x := ⟨p.scene.document.size⟩) d
      p.scene.templateOwner edited settled inside (.inl (Nat.le_refl _)) fun id c found same => by
        have bound := placed.inside id c found
        rw [same] at bound
        exact Nat.lt_irrefl _ bound
    exact (wp_bind _ _).mpr (wp_mono _ (fun _ q kept => ⟨kept.1, kept.2.1⟩) made)
  · exact ⟨edited, settled⟩

theorem configure (id : ComponentId) : (Act.configure id : Act κ _).Places :=
  of_touches (.configure id) (by decide)

theorem connect (id : ComponentId) : (Act.connect id : Act κ _).Places :=
  closed.connect createElement configure id

/-- The nodes of a type that was registered get a component each; what runs in between cannot
take them, since their tag is registered. -/
theorem wp_upgrade {p : Point κ σ} {s : Scene κ} (d : Definition κ) (xs : List NodeId)
    (placed : p.scene.Placed) (settled : s.Settles p.scene) (distinct : xs.Nodup)
    (free : ∀ x ∈ xs, s.Open x) (taken : ∀ x ∈ xs, ¬p.scene.Open x)
    (vacant : ∀ x ∈ xs, ∀ id c, p.scene.component? id = some c → c.node ≠ x) :
    (Act.upgrade d xs).wp (Placing κ σ)
      (fun _ q => q.scene.Placed ∧ s.Settles q.scene) p := by
  induction xs generalizing p with
  | nil => exact ⟨placed, settled⟩
  | cons x rest ih =>
    obtain ⟨apart, distinct⟩ := List.nodup_cons.mp distinct
    have inside : x.index < p.scene.document.size := by
      by_contra beyond
      exact taken x List.mem_cons_self (.inl (Nat.le_of_not_lt beyond))
    have made := wp_instantiate d (p.scene.componentAbove? x) placed settled inside
      (free x List.mem_cons_self) (vacant x List.mem_cons_self)
    refine (wp_bind _ _).mpr (wp_scene.mpr ((wp_bind _ _).mpr (wp_mono _ ?_ made)))
    rintro _ q ⟨placed', settled', since⟩
    have still (y) (later : y ∈ rest) : ¬q.scene.Open y := fun opened =>
      taken y (List.mem_cons_of_mem _ later) (since.opened opened)
    refine (wp_bind _ _).mpr (wp_mono _ (fun _ r kept => kept) (ih placed' settled' distinct
      (fun y later => free y (List.mem_cons_of_mem _ later)) still fun y later id c found same => ?_))
    cases before : ({ p.scene with components := p.scene.components.push (.new d x
        (p.scene.componentAbove? x)) } : Scene κ).component? id with
    | none =>
      have opened := since.fresh id c before found
      rw [same] at opened
      exact taken y (List.mem_cons_of_mem _ later) opened
    | some e =>
      obtain ⟨c', there, node⟩ := since.node id e before
      cases there.symm.trans found
      rw [same] at node
      rw [Scene.component?_push] at before
      split at before
      · cases before
        exact apart (node.symm ▸ later : Component.node (.new d x _) ∈ rest)
      · exact vacant y (List.mem_cons_of_mem _ later) id e before node.symm

theorem register (d : Definition κ) : (Act.register d).Places := by
  intro σ p placed
  refine (wp_bind _ _).mpr (wp_scene.mpr ?_)
  rw [wp_ite]
  split
  · exact ⟨placed, .refl _⟩
  next unknown =>
  extract_lets e
  have tag : e.tag = d.tag := d.tag_compose _
  have noted : (Act.each e.schema.problems (note none) : Act κ Unit).Places :=
    of_touches (.each _ fun _ => .note none _) (by decide)
  refine (wp_bind _ _).mpr (wp_mono _ ?_ (noted σ p placed))
  rintro _ q ⟨placed, settled⟩
  have entered : (Act.update fun s : Scene κ => { s with
      definitions := s.definitions.insert e.tag e, waiting := s.waiting.erase e.tag }).Places :=
    update (fun s => .refl _) (fun s tag => s.isRegistered_insert _ _ tag) fun _ => rfl
  refine (wp_bind _ _).mpr ((entered σ q placed).imp fun next => ?_)
  have told (ks : List κ) : (Act.each ks fun k => do let _ ← Act.callback k .registered).Places :=
    of_touches (.each ks fun k => .bind (.registered k) fun _ => .pure _) (by decide)
  refine (wp_bind _ _).mpr (wp_mono _ ?_ (told _ σ _ next.1))
  rintro _ r ⟨placed, since⟩
  have settled := (settled.trans next.2).trans since
  refine (wp_bind _ _).mpr (wp_scene.mpr ?_)
  extract_lets nodes
  have bare (x) (member : x ∈ nodes) :
      r.scene.document.tag? x = some d.tag ∧ r.scene.componentAt? x = none := by
    have held := (List.mem_filter.mp member).2
    rw [tag] at held
    simpa using held
  have upgraded := wp_upgrade e nodes placed settled
    ((placed.document.nodup_descendants _).filter _) (fun x member => ?_) (fun x member => ?_)
    fun x member => Scene.componentAt?_eq_none.mp (bare x member).2
  · refine (wp_bind _ _).mpr (wp_mono _ ?_ upgraded)
    rintro ids k ⟨placed, settled⟩
    have rest : (do Act.each ids Act.connect; return true : Act κ Bool).Places :=
      bind (closed.composes.each ids connect) fun _ => closed.composes.pure true
    exact wp_mono _ (fun _ l kept => ⟨kept.1, settled.trans kept.2⟩) (rest σ k placed)
  · by_cases new : p.scene.document.size ≤ x.index
    · exact .inl new
    refine .inr fun t here => ?_
    have same := settled.document.tag x (Nat.lt_of_not_le new)
    rw [here, (bare x member).1] at same
    cases same
    exact Bool.eq_false_iff.mpr unknown
  · rintro (beyond | free)
    · exact Nat.not_le_of_lt (Document.bound_of_tag? (bare x member).1) beyond
    · have lower := placed.document.lower x d.tag (bare x member).1
      have known : r.scene.isRegistered d.tag = true := since.registered d.tag <| by
        change ((q.scene.definitions.insert e.tag e).get? d.tag.toLower).isSome = true
        rw [lower, tag, Keyed.get?_insert_self]
        rfl
      rw [free d.tag (bare x member).1] at known
      cases known

theorem request (r : Request κ) : r.act.Places := by
  cases r with
  | register d => exact register d
  | createElement tag => exact createElement tag
  | appendChild parent child => exact closed.appendChild createElement configure parent child
  | finishLoading => exact closed.finishLoading createElement configure (of_touches .resolveWaiting (by decide))
  | _ =>
    refine of_touches (.request _) ?_
    dsimp only [Touches.requested]
    decide

end Act.Places

theorem Script.wp_placed (m : Script κ σ α) {p : Point κ σ} (placed : p.scene.Placed) :
    m.wp (Placing κ σ) (fun _ q => q.scene.Placed ∧ p.scene.Settles q.scene) p := by
  refine wp_of_requests (I := fun q => q.scene.Placed ∧ p.scene.Settles q.scene)
    (fun q store kept => kept) (fun r q kept => ⟨trivial, fun _ => ?_⟩) m ⟨placed, .refl _⟩
  exact Act.wp_mono _ (fun _ s ended => ⟨ended.1, kept.2.trans ended.2⟩)
    (Act.Places.request r σ (q.request r) kept.1)

theorem Placing.meets (env : Environment κ σ) : env.Meets (Placing κ σ) := by
  intro c p placed
  cases c with
  | write id name v origin => exact Act.Places.of_touches (.write id name v origin) (by decide) σ p placed
  | connect id => exact Act.Places.connect id σ p placed
  | release id => exact Act.Places.of_touches (.release id) (by decide) σ p placed
  | service s id arguments =>
    exact Act.Places.of_touches (.service s id arguments) (by decide) σ p placed
  | deliver x e => exact Act.Places.of_touches (.deliver x e) (by decide) σ p placed
  | callback k o => exact Script.wp_placed _ placed
  | apply f arguments => exact ⟨placed, .refl _⟩

namespace Scene

theorem placed_ofConfig (config : Config) (journal : Option Journal) :
    (ofConfig config journal : Scene κ).Placed := by
  have none (id : ComponentId) : (ofConfig config journal : Scene κ).component? id = none := rfl
  refine ⟨Document.sound_empty, fun id c found => ?_, fun id other c d found => ?_⟩
  all_goals exact nomatch (none id).symm.trans found

end Scene

/-- At every point of a run each component has a node of its own. -/
theorem placed_of_run (env : Environment κ σ) (fuel : Nat) (m : Script κ σ α) (config : Config)
    (journal : Option Journal) (store : σ) (s t : Scene κ)
    (step : .change s t ∈ (env.record fuel m ⟨.ofConfig config journal, store⟩).steps) :
    t.Placed := by
  have start := Scene.placed_ofConfig (κ := κ) config journal
  have kept := Environment.record_fulfils (Placing.meets env) fuel m
    (p := ⟨[], .ofConfig config journal, store⟩) (Script.wp_placed m start)
  obtain ⟨front, back, same⟩ := List.append_of_mem step
  have safe := (kept (Along.iff_splits.mpr fun _ _ _ _ => trivial)).1
  exact Along.iff_splits.mp safe front _ back same

/-- And so it is when the run is over. -/
theorem placed_of_play (env : Environment κ σ) {fuel : Nat} (m : Script κ σ α) (config : Config)
    (journal : Option Journal) (store : σ) {a : α} {w : World κ σ}
    (played : env.play fuel m ⟨.ofConfig config journal, store⟩ = some (a, w)) : w.scene.Placed := by
  have start := Scene.placed_ofConfig (κ := κ) config journal
  have kept := Environment.record_fulfils (Placing.meets env) fuel m
    (p := ⟨[], .ofConfig config journal, store⟩) (Script.wp_placed m start)
  have ended : (env.record fuel m ⟨.ofConfig config journal, store⟩).result = some (a, w) := by
    rw [env.result_record, played]
  exact ((kept (Along.iff_splits.mpr fun _ _ _ _ => trivial)).2 a w ended).1

/-- So it is between operations. -/
theorem Environment.Reachable.placed {env : Environment κ σ} {w : World κ σ} (reached : env.Reachable w) :
    w.scene.Placed := by
  induction reached with
  | start config journal store => exact Scene.placed_ofConfig config journal
  | keep store _ ih => exact ih
  | @request w w' r fuel a _ asked ih =>
    have fulfils := Environment.record_fulfils (p := ⟨[], w⟩) (Placing.meets env) fuel (.request r)
      (Script.wp_placed _ ih)
    have ended : (env.record fuel (.request r) w).result = some (a, w') := by
      rw [env.result_record, asked]
    exact ((fulfils (Along.iff_splits.mpr fun _ _ _ _ => trivial)).2 a w' ended).1

/-- And in the midst of whatever is asked then. -/
theorem Environment.record_placed (env : Environment κ σ) {w : World κ σ} (placed : w.scene.Placed)
    (fuel : Nat) (m : Script κ σ α) {x : Step κ σ} (step : x ∈ (env.record fuel m w).steps) {t : Scene κ}
    (met : t ∈ x.scenes) : t.Placed := by
  have safe := (Environment.record_fulfils (p := ⟨[], w⟩) (Placing.meets env) fuel m (Script.wp_placed m placed)
    (Along.iff_splits.mpr fun _ _ _ _ => trivial)).1
  refine env.record_scenes placed (fun s u change _ => ?_) step met
  obtain ⟨front, back, same⟩ := List.append_of_mem change
  exact Along.iff_splits.mp safe front _ back same

end LiveTree
