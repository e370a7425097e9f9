import LiveTree.Proofs.Refresh.Push

/-! Writes in an orderly scene. A component that is fed takes the value or does not; what it sets off when it does
stays with it and with those that it feeds. -/
namespace LiveTree
variable {κ σ : Type}

section Spreading
variable {base s t : Scene κ} {id : ComponentId} {names : List String} {p : Property} {c : Component κ}
  (orderly : base.Orderly) (firm : base.Firm)
include orderly

/-- No method is called when the property is written. -/
theorem Scene.Orderly.uncalled_of_declared (declared : base.Declares id p) :
    p.validator = none ∧ p.observer = none := by
  have none {method : String} (calls : base.Calls id method) : False := by
    have called := calls.mem_called
    rw [orderly.uncalled] at called
    cases called
  constructor
  · exact Option.eq_none_iff_forall_ne_some.mpr fun method named => none (.validator declared named)
  · exact Option.eq_none_iff_forall_ne_some.mpr fun method named => none (.observer declared named)

namespace Act.Minds

theorem push (firm : base.Firm) (i : Nat) (target : String) :
    (Act.push id i target : Act κ _).Minds base (base.Confines id names) s := by
  intro σ p continues since
  cases found : p.scene.bound? id i target with
  | none =>
    unfold Act.push
    rw [wp_bind, wp_scene]
    extract_lets looked
    have missing : looked = none := found
    rw [missing]
    exact ⟨continues, since⟩
  | some y =>
    obtain ⟨x, b⟩ := y
    obtain ⟨d, bound, -⟩ := continues.course.bound?_of (by decide) found
    obtain rfl := firm.target_eq bound
    refine wp_mono _ (fun _ q pushes => ⟨pushes.continues, ?_⟩) (wp_push orderly firm continues bound)
    exact IsTrans.trans _ _ _ since (pushes.passes.confines bound)

theorem pushBound (firm : base.Firm) (changed : Option String) :
    (Act.pushBound id changed : Act κ _).Minds base (base.Confines id names) s :=
  .withComponent fun _ _ _ _ _ => composes.ite (composes.each _ fun _ => push orderly firm _ _) (.pure _)

omit orderly in
theorem reflect (here : base.Governs id c.node) (p : Property) (v : Value) :
    (Act.reflect c.node p v : Act κ _).Minds base (base.Confines id names) s := by
  refine .edit (fun d => ?_) fun t _ _ => .edit t here fun y apart => ?_
  · split <;> simp
  · split
    · exact (Document.node?_modify _ _ _ _).trans (if_neg apart.symm)
    · exact (Document.node?_modify _ _ _ _).trans (if_neg apart.symm)

theorem tellOfChange [IsEmpty κ] (declared : base.Declares id p) (old new : Value) :
    (Act.tellOfChange id p old new : Act κ _).Minds base (base.Confines id names) s := by
  have changing (f : Component κ → Bool) (t : Scene κ) :
      (Act.modify id fun c => { c with changing := f c }).Minds base (base.Confines id names) t :=
    .modify (F := [.changing]) (fun c => .put c .changing _ (by decide)) (by decide) fun u _ =>
      .modify u .refl fun _ name _ => by
        rw [Scene.held?, Scene.slot?, Scene.component?_modify, if_pos rfl, Option.bind_map]
        rfl
  refine .withComponent fun t c _ _ _ => .bind (changing (fun _ => true) t) fun _ => ?_
  extract_lets restored watched observed
  have restoring (r) : (restored r).Minds base (base.Confines id names) t := changing _ t
  have watching (r) : (watched r).Minds base (base.Confines id names) t := by
    unfold watched
    split
    · next w _ => exact isEmptyElim w.callback
    · exact restoring ()
  have observing (r) : (observed r).Minds base (base.Confines id names) t := by
    unfold observed
    rw [(orderly.uncalled_of_declared declared).2]
    exact watching ()
  split
  · next k _ => exact isEmptyElim k
  · exact observing ()

theorem announce (firm : base.Firm) (declared : base.Declares id p) (here : base.componentAt? c.node = some id)
    (marked : base.Marked s id p.name) (old new : Value) :
    (Act.announce c.node p old new : Act κ _).Minds base (base.Confines id []) s := by
  refine .sceneBind fun t continues since =>
    composes.ite (.ask_idle (fun u continues' since' => ?_) fun _ _ same => same) (.pure _)
  refine ⟨rfl, fun whose i target b bound field tells => ?_⟩
  obtain ⟨d, before, still⟩ := continues'.course.bound?_of (by decide) bound
  have told := (continues'.course.changeEvent? (by decide) still).symm.trans tells
  obtain rfl := orderly.target_eq firm declared here before field told
  exact ((marked.later orderly firm continues since).later orderly firm continues' since') whose i c.node b bound here

theorem writeBackProperty (name : String) :
    (Act.writeBackProperty id name : Act κ _).Minds base (base.Confines id names) s := by
  refine .withComponent fun t c continues _ found => ?_
  obtain ⟨d, before, alike⟩ := continues.component_of found
  have link : c.link = d.link := alike.view .link (by decide)
  have unlinked := (orderly.proper id d before).unlinked
  rw [link]
  split
  · next context feeds listeners bound =>
    rw [bound] at unlinked
    cases unlinked
  · exact .pure _

theorem spread [IsEmpty κ] (firm : base.Firm) (declared : base.Declares id p)
    (here : base.componentAt? c.node = some id) (governs : base.Governs id c.node)
    (marked : base.Marked s id p.name) (slot : Slot) (old v : Value) (origin : Origin) :
    (Act.spread id p c slot old v origin).Minds base (base.Confines id []) s :=
  composes.spread (reflect governs p v) (tellOfChange orderly declared old v)
    (announce orderly firm declared here marked old v) (pushBound orderly firm _) (writeBackProperty orderly _) slot

end Act.Minds
end Spreading

namespace Scene
variable {base s t u : Scene κ} {id whose : ComponentId} {name : String} {v : Value} {p : Property}

theorem Declares.unique {q : Property} (declared : s.Declares id p) (declared' : s.Declares id q)
    (same : q.name = p.name) : q = p := by
  obtain ⟨c, found, own⟩ := declared
  obtain ⟨c', found', own'⟩ := declared'
  cases found.symm.trans found'
  rw [same] at own'
  exact Option.some.inj (own'.symm.trans own)

theorem Ignores.of_keeps (declared : s.Declares id p)
    (keeps : ∀ old busy, s.held? id p.name = some (old, busy) → p.Keeps old v) : s.Ignores id p.name v := by
  intro q declared' same old busy held
  rw [declared.unique declared' same]
  exact keeps old busy held

theorem Alike.setBusy (s : Scene κ) (id : ComponentId) (name : String) (busy : Bool) :
    s.Alike [.values] (s.setBusy id name busy) := .modify s id fun c => .slotValues c name fun _ => rfl

theorem Continues.setBusy (continues : base.Continues s) (id : ComponentId) (name : String) (busy : Bool) :
    base.Continues (s.setBusy id name busy) :=
  continues.still ((Alike.setBusy s id name busy).mono (by decide)) rfl rfl

/-- Whether anything comes of a write that is made has nothing to do with those that are under way. -/
theorem ignores_setBusy {busy : Bool} : (s.setBusy id name busy).Ignores id name v ↔ s.Ignores id name v := by
  have same := Alike.setBusy s id name busy
  have held (old : Value) : (∃ b, (s.setBusy id name busy).held? id name = some (old, b)) ↔
      ∃ b, s.held? id name = some (old, b) := by
    rw [Scene.setBusy, held?_modifySlot, held?]
    cases s.slot? id name <;> simp
  constructor
  · intro ignores p declared named old b there
    obtain ⟨b', there⟩ := (held old).mpr ⟨b, there⟩
    exact ignores p ((same.declares (by decide)).mp declared) named old b' there
  · intro ignores p declared named old b there
    obtain ⟨b', there⟩ := (held old).mp ⟨b, there⟩
    exact ignores p ((same.declares (by decide)).mpr declared) named old b' there

def Attempted (base : Scene κ) (id : ComponentId) (p : Property) (v : Value) (s t : Scene κ) : Prop :=
  s.Logs t ∧ s.Ignores id p.name v ∨
    base.Continues t ∧ base.Confines id [p.name] s t ∧ ¬s.Ignores id p.name v ∧
      ∃ busy, t.held? id p.name = some (v, busy)

end Scene

section Writing
variable [IsEmpty κ] {base : Scene κ} {id whose : ComponentId} {name : String} {v old : Value} {p : Property}
  {q : Point κ σ} (orderly : base.Orderly) (firm : base.Firm) (feeds : base.Feeds whose id)
  (continues : base.Continues q.scene)
include orderly firm feeds continues

theorem Act.wp_commit_fed (declared : base.Declares id p) (marked : base.Marked q.scene id p.name) :
    (Act.commit id p old v .code : Act κ _).wp (Feeding σ base) (fun _ r =>
      (r.scene = q.scene ∧ q.scene.held? id p.name = none) ∨
        (base.Continues r.scene ∧ base.Confines id [p.name] q.scene r.scene ∧
          ∃ u busy, q.scene.held? id p.name = some (u, busy) ∧ r.scene.held? id p.name = some (v, busy))) q := by
  refine wp_withComponent (fun c found => ?_) fun missing => .inl ⟨rfl, ?_⟩
  · split
    · next bare =>
      refine .inl ⟨rfl, ?_⟩
      rw [Scene.held?, Scene.slot?, found]
      exact congrArg (Option.map _) bare
    · next slot held =>
      have later := continues.still ((Scene.Alike.modify q.scene id fun c =>
        .slotValues c p.name (f := fun slot => { slot with value := v }) fun _ => rfl).mono (by decide)) rfl rfl
      have put : base.Confines id [p.name] q.scene (q.scene.modify id fun c => c.modifySlot p.name fun slot =>
        { slot with value := v }) := .modifySlot q.scene _ (by simp)
      have spread := Minds.spread orderly firm declared (continues.componentAt?_node feeds found)
        (continues.governs found) (marked.later orderly firm later put) slot old v .code
      refine (wp_bind _ _).mpr ⟨trivial, fun _ => (wp_bind _ _).mpr (wp_mono _ ?_ (spread σ _ later (Std.Refl.refl _)))⟩
      rintro _ r ⟨continues, confines⟩
      refine .inr ⟨continues, IsTrans.trans _ _ _ put (confines.mono (by simp)), slot.value, slot.busy, ?_, ?_⟩
      · rw [Scene.held?, Scene.slot?, found, Option.bind_some, held]
        rfl
      · rw [confines.held p.name (by simp), Scene.held?_modifySlot, Scene.slot?, found, Option.bind_some, held]
        rfl
  · rw [Scene.held?, Scene.slot?, missing]
    rfl

theorem Act.wp_attempt_fed (declared : base.Declares id p) (marked : base.Marked q.scene id p.name) :
    (Act.attempt id p v .code : Act κ _).wp (Feeding σ base)
      (fun _ r => base.Attempted id p v q.scene r.scene) q := by
  have here : q.scene.Declares id p := continues.declares.mpr declared
  have refused (fault : Fault) (ignores : q.scene.Ignores id p.name v) :
      (Act.refuse id fault).wp (Feeding σ base) (fun _ r => base.Attempted id p v q.scene r.scene) q :=
    wp_mono _ (fun _ _ logs => .inl ⟨logs, ignores⟩) (wp_of_logging (.refuse id fault) continues)
  unfold Act.attempt
  rw [wp_ite]
  split
  · next barred => exact .inl ⟨.refl _, .of_keeps here fun _ _ _ => .inl barred.1⟩
  · next open_ =>
    split
    · next fault wrong => exact refused fault (.of_keeps here fun _ _ _ => .inr (.inl ⟨fault, wrong⟩))
    · next allowed =>
      simp only [wp_bind, wp_scene]
      unfold Act.validated
      rw [(orderly.uncalled_of_declared declared).1]
      have known {old busy} (held : q.scene.held? id p.name = some (old, busy)) :
          q.scene.property id p.name = old := Scene.property_of_held? held
      rw [wp_pure, wp_ite]
      split
      · next same =>
        refine .inl ⟨.refl _, .of_keeps here fun old busy held => .inr (.inr (.inl ?_))⟩
        rwa [known held] at same
      · next fresh =>
        split
        · next fault wrong => exact refused fault (.of_keeps here fun _ _ _ => .inr (.inr (.inr ⟨fault, wrong⟩)))
        · next fits =>
          refine wp_mono _ ?_ (wp_commit_fed orderly firm feeds continues declared marked)
          rintro _ r (⟨same, missing⟩ | ⟨continues', confines, old, busy, before, held⟩)
          · rw [same]
            exact .inl ⟨.refl _, .of_keeps here fun old busy held => by cases missing.symm.trans held⟩
          · refine .inr ⟨continues', confines, fun ignores => ?_, busy, held⟩
            rw [known before] at fresh
            rcases ignores p here rfl old busy before with barred | ⟨fault, wrong⟩ | same | ⟨fault, wrong⟩
            · exact open_ ⟨barred, by decide⟩
            · cases wrong.symm.trans allowed
            · exact fresh same
            · cases wrong.symm.trans fits

/-- A component that is fed receives what is written to it. -/
theorem Act.wp_write_fed (typed : base.Typed) (marked : base.Marked q.scene id name) :
    (Act.write id name v .code : Act κ _).wp (Feeding σ base)
      (fun _ r => base.Receives id name v q.scene r.scene) q := by
  refine wp_withComponent (fun c found => ?_) fun missing => ?_
  · split
    · next p slot own held =>
      obtain rfl : p.name = name := Schema.name_of_get? own
      have here : q.scene.Declares id p := ⟨c, found, own⟩
      have slot_eq : q.scene.slot? id p.name = some slot := by rw [Scene.slot?, found]; exact held
      rw [wp_ite]
      split
      · next busy =>
        refine .of_logs continues (.refl _) fun free => ?_
        have idle := free slot.value slot.busy (by rw [Scene.held?, slot_eq]; rfl)
        cases busy.symm.trans idle
      · next idle =>
        have marking (t : Scene κ) (flag : Bool) : base.Confines id [p.name] t (t.setBusy id p.name flag) :=
          .modifySlot t _ (by simp)
        have marked := marked.later orderly firm (continues.setBusy id p.name true) (marking q.scene true)
        have attempt := wp_attempt_fed (q := q.change (q.scene.setBusy id p.name true)) (v := v) orderly firm feeds
          (continues.setBusy id p.name true) (continues.declares.mp here) marked
        simp only [wp_bind, wp_modify]
        refine ⟨trivial, fun _ => wp_mono _ (fun result t attempted => ⟨trivial, fun _ => ?_⟩) attempt⟩
        change base.Receives id p.name v q.scene (t.scene.setBusy id p.name false)
        rcases attempted with ⟨logs, ignores⟩ | ⟨continues', confines, taken, busy, there⟩
        · have back : (q.scene.setBusy id p.name true).setBusy id p.name false = q.scene := by
            refine Scene.setBusy_setBusy (fun d found => ?_) fun other there => ?_
            · obtain ⟨e, before, alike⟩ := continues.component_of found
              have names : Keyed.names d.slots = Keyed.names e.slots := alike.view .names (by decide)
              rw [names]
              exact (typed.fits id e before).distinct
            · cases slot_eq.symm.trans there
              exact Bool.eq_false_iff.mpr idle
          have logs := logs.modify id fun c => c.modifySlot p.name fun slot => { slot with busy := false }
          change ((q.scene.setBusy id p.name true).setBusy id p.name false).Logs
            (t.scene.setBusy id p.name false) at logs
          rw [back] at logs
          exact .of_logs continues logs fun _ _ => Scene.ignores_setBusy.mp ignores
        · refine ⟨continues'.setBusy id p.name false, ?_, fun _ same => ?_, fun ignores => ?_⟩
          · exact IsTrans.trans _ _ _ (marking q.scene true) (IsTrans.trans _ _ _ confines (marking t.scene false))
          · refine Scene.ignores_setBusy.mpr (.of_keeps (continues'.declares.mpr (continues.declares.mp here)) ?_)
            intro old busy' held
            cases there.symm.trans held
            exact .inr (.inr (.inl same))
          · exact absurd (Scene.ignores_setBusy.mpr ignores) taken
    · next none =>
      refine .of_logs continues (.refl _) fun _ _ p declared named old busy held => ?_
      obtain ⟨d, there, own⟩ := declared
      cases found.symm.trans there
      obtain ⟨slot, here, -⟩ := Scene.slot?_of_held? held
      rw [Scene.slot?, found] at here
      exact (none p slot (named ▸ own) here).elim
  · refine .of_logs continues (.refl _) fun _ _ p declared _ _ _ _ => ?_
    obtain ⟨c, found, -⟩ := declared
    cases missing.symm.trans found

end Writing

section Delivering
variable [IsEmpty κ] {base s : Scene κ} {x : NodeId} {e : Event}

theorem Act.Minds.hear {k : Listener κ} (heeds : s.Heeds x e.kind k) (marked : ∀ id i target b,
      s.bound? id i target = some (x, b) → target ≠ textTarget → s.changeEvent? x b = some e.kind → b.updating = true)
    (arrived : Event) : (Act.hear k arrived).Minds base Eq s := by
  cases k with
  | consumer k => exact isEmptyElim k
  | handler id method => exact heeds.elim
  | writeBack id i target =>
    obtain ⟨field, ⟨y, b⟩, bound, rfl, tells⟩ := heeds
    have updating := marked id i target b bound field tells
    obtain ⟨c, found, held⟩ := s.binding?_of_bound? bound
    refine .sceneBind fun t _ same => ?_
    obtain rfl := same
    rw [found, Option.bind_some, held]
    dsimp only
    rw [updating]
    exact .pure _
  | contextHandler context path =>
    refine .sceneBind fun t _ _ => ?_
    split
    · exact .bind (.ask_idle (fun _ _ _ => trivial) fun _ _ same => same) fun _ => .pure _
    · exact .pure _

/-- Where the bindings are marked of whose targets an event tells, nothing is written back. -/
theorem Act.Minds.deliver (counts : base.Counts s (.deliver x e)) :
    (Act.deliver x e : Act κ _).Minds base Eq s := by
  obtain ⟨confines, marked⟩ := counts
  unfold Act.deliver
  extract_lets arrived
  have quiet : ¬arrived.bubbles = true := by simpa [arrived] using confines
  refine .sceneBind fun t continues same => ?_
  obtain rfl := same
  refine .bind (.eachOf _ fun id inside => .sceneBind fun u _ same => ?_) fun _ => .sceneBind fun u _ same => ?_
  · obtain rfl := same
    split
    · next k there =>
      rw [Document.listeners_eq] at inside
      obtain ⟨l, listed, rfl⟩ := List.mem_map.mp inside
      obtain ⟨listed, kind⟩ := List.mem_filter.mp listed
      have heeds := continues.tuned x l listed k there
      rw [beq_iff_eq.mp kind] at heeds
      exact .hear heeds marked arrived
    · exact .pure _
  · rw [if_neg quiet]
    exact .pure _

end Delivering

theorem Feeding.wp_call {base : Scene κ} {p : Point κ σ} {c : Call κ} {m : Act κ c.Answer} (releases : m.Releases)
    (yields : base.Continues p.scene → base.Counts p.scene c →
      m.wp (Feeding σ base) (fun _ q => base.Yields p.scene q.scene c) p) :
    m.wp (Feeding σ base) ((Feeding σ base).after c p) p := by
  by_cases here : base.Continues p.scene ∧ base.Counts p.scene c
  · refine Act.wp_mono _ ?_ (Act.wp_and _ (Act.wp_of_releases releases) (yields here.1 here.2))
    rintro a q ⟨raises, yields⟩
    exact ⟨raises, fun _ _ => yields⟩
  · refine Act.wp_mono _ (fun a q raises => ⟨raises, ?_⟩) (Act.wp_of_releases releases)
    exact fun continues counts => absurd ⟨continues, counts⟩ here

theorem Feeding.meets [IsEmpty κ] (env : Environment κ σ) {base : Scene κ} (orderly : base.Orderly) (firm : base.Firm)
    (typed : base.Typed) : env.Meets (Feeding σ base) := by
  intro c p _
  cases c with
  | write id name v origin =>
    refine wp_call (c := .write id name v origin) (.write id name v origin) fun continues counts => ?_
    obtain ⟨rfl, ⟨whose, feeds⟩, marked⟩ := counts
    exact Act.wp_write_fed orderly firm feeds continues typed marked
  | connect id => exact wp_call (c := .connect id) (.connect id) fun _ => False.elim
  | release id => exact wp_call (c := .release id) (.release id) fun _ => False.elim
  | service x id arguments => exact wp_call (c := .service x id arguments) (.service x id arguments) fun _ => False.elim
  | deliver x e =>
    refine wp_call (c := .deliver x e) (.deliver x e) fun continues counts => ?_
    exact Act.wp_mono _ (fun _ _ kept => kept.2.symm) (Act.Minds.deliver counts σ p continues rfl)
  | callback k o => exact isEmptyElim k
  | apply f arguments => exact ⟨fun _ raised => .inr raised, fun _ _ => rfl⟩

end LiveTree
