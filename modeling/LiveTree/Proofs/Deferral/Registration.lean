import LiveTree.Proofs.Composition
import LiveTree.Proofs.Contract.Regime
import LiveTree.Proofs.Upgrade

/-! Callbacks that wait for a tag to be registered. They are kept by tag; a tag that is registered
has none left, and for any other there are as many as were given for it. -/
namespace LiveTree
variable {κ σ : Type} [DecidableEq κ] (k : κ)

def Scene.waitingFor (s : Scene κ) (key : String) : Nat := ((s.waiting.get? key).getD []).count k

def Scene.enqueue (s : Scene κ) (key : String) (l : κ) : Scene κ :=
  { s with waiting := s.waiting.insert key ((s.waiting.get? key).getD [] ++ [l]) }

def Step.commits (key : String) : Step κ σ → Bool
  | .request (.whenRegistered tag l) _ => l = k && tag.toLower = key
  | _ => false

def Step.awaits (s : Scene κ) : Step κ σ → Bool
  | .request (.whenRegistered tag l) _ => l = k && s.isRegistered tag
  | _ => false

def Step.tells : Step κ σ → Bool
  | .answer (.callback l .registered) _ _ _ => l = k
  | _ => false

namespace History

def committed (key : String) (h : History κ σ) : Nat := h.countP (Step.commits k key)

def awaited (s : Scene κ) (h : History κ σ) : Nat := h.countP (Step.awaits k s)

def told (h : History κ σ) : Nat := h.countP (Step.tells k)

variable (h : History κ σ) (x : Step κ σ)

theorem committed_append (key : String) : committed k key (h ++ [x]) =
    committed k key h + if x.commits k key then 1 else 0 := by
  rw [committed, List.countP_append, List.countP_singleton, committed]

theorem awaited_append (s : Scene κ) : awaited k s (h ++ [x]) =
    awaited k s h + if x.awaits k s then 1 else 0 := by
  rw [awaited, List.countP_append, List.countP_singleton, awaited]

theorem told_append : told k (h ++ [x]) = told k h + if x.tells k then 1 else 0 := by
  rw [told, List.countP_append, List.countP_singleton, told]

theorem awaited_congr {s t : Scene κ} (same : ∀ tag, t.isRegistered tag = s.isRegistered tag) :
    awaited k t h = awaited k s h := by
  refine List.countP_congr fun x _ => ?_
  unfold Step.awaits
  split
  · rw [same]
  · rfl

/-- When a tag is registered, what was given for it counts as well. -/
theorem awaited_define {s t : Scene κ} {d : Definition κ} {key : String}
    (types : t.definitions = s.definitions.insert key d) (fresh : s.definitions.get? key = none) :
    awaited k t h = awaited k s h + committed k key h := by
  have registered (tag : String) :
      t.isRegistered tag = (s.isRegistered tag || decide (tag.toLower = key)) := by
    rw [Scene.isRegistered, Scene.definition?, types, Scene.isRegistered, Scene.definition?]
    by_cases same : tag.toLower = key
    · simp [same, Keyed.get?_insert_self]
    · simp [same, Keyed.get?_insert_of_ne _ _ same]
  have apart (tag : String) (same : tag.toLower = key) : s.isRegistered tag = false := by
    rw [Scene.isRegistered, Scene.definition?, same, fresh]
    rfl
  induction h with
  | nil => rfl
  | cons x rest ih =>
    simp only [awaited, committed, List.countP_cons] at ih ⊢
    rw [ih]
    have one : (if x.awaits k t then 1 else 0) =
        (if x.awaits k s then 1 else 0) + if x.commits k key then 1 else 0 := by
      unfold Step.awaits Step.commits
      split
      · next tag l _ =>
        by_cases same : tag.toLower = key
        · simp [registered, same, apart tag same]
        · simp [registered, same]
      · rfl
    omega

end History

def Point.overdue (p : Point κ σ) : Int := p.past.awaited k p.scene - p.past.told k

structure Enlisted (p : Point κ σ) : Prop where
  tagged : p.scene.Tagged
  waiting : ∀ key, p.scene.waitingFor k key =
    if (p.scene.definitions.get? key).isSome then 0 else p.past.committed k key

def History.Answers (h : History κ σ) (s : Scene κ) : Prop :=
  ∃ tag t, .request (.whenRegistered tag k) t ∈ h ∧ s.isRegistered tag = true

structure Promised (n : Int) (p q : Point κ σ) : Prop where
  past : p.past <+: q.past
  registered : ∀ tag, p.scene.isRegistered tag = true → q.scene.isRegistered tag = true
  overdue : q.overdue k = p.overdue k + n

theorem Promised.refl (p : Point κ σ) : Promised k 0 p p :=
  ⟨List.prefix_refl _, fun _ known => known, (Int.add_zero _).symm⟩

variable {k} in
theorem Promised.trans {n m l : Int} {p q r : Point κ σ} (first : Promised k n p q)
    (second : Promised k m q r) (sum : l = n + m := by omega) : Promised k l p r where
  past := first.past.trans second.past
  registered tag known := second.registered tag (first.registered tag known)
  overdue := by rw [second.overdue, first.overdue, sum, Int.add_assoc]

variable {k} in
theorem Promised.answers {n : Int} {p q : Point κ σ} (promised : Promised k n p q)
    (answers : p.past.Answers k p.scene) : q.past.Answers k q.scene := by
  obtain ⟨tag, t, member, known⟩ := answers
  exact ⟨tag, t, promised.past.subset member, promised.registered tag known⟩

def Registering (κ σ : Type) [DecidableEq κ] (k : κ) : Regime κ σ where
  given _ _ := True
  safe past x := match x with
    | .answer c before _ _ => c = .callback k .registered → past.Answers k before.scene
    | _ => True
  allows c p := c = .callback k .registered → p.past.Answers k p.scene
  holds := Enlisted k
  leads := Promised k 0
  refl := Promised.refl k
  trans first second := first.trans second

namespace Registering
variable {k} {p q : Point κ σ} {t : Scene κ} {F : List Field}

theorem overdue_change (known : ∀ tag, t.isRegistered tag = p.scene.isRegistered tag) :
    (p.change t).overdue k = p.overdue k := by
  have told : (p.change t).past.told k = p.past.told k := History.told_append k p.past _
  have awaited : (p.change t).past.awaited k t = p.past.awaited k p.scene :=
    (History.awaited_append k p.past _ t).trans (History.awaited_congr k p.past known)
  rw [Point.overdue, told, Point.scene_change, awaited, Point.overdue]

/-- A change that concerns neither the tags that are registered nor what waits for them. -/
theorem takes_change (enlisted : Enlisted k p) (tagged : t.Tagged)
    (types : ∀ key, (t.definitions.get? key).isSome = (p.scene.definitions.get? key).isSome)
    (waiting : ∀ key, t.waitingFor k key = p.scene.waitingFor k key) :
    (Registering κ σ k).Takes p.past (.change p.scene t) p (p.change t) := by
  have given (key) : (p.change t).past.committed k key = p.past.committed k key :=
    History.committed_append k p.past _ key
  have known (tag : String) : t.isRegistered tag = p.scene.isRegistered tag := types tag.toLower
  refine ⟨trivial, fun _ => ⟨⟨tagged, fun key => ?_⟩, List.prefix_append _ _, ?_, ?_⟩⟩
  · rw [given, Point.scene_change, types, ← enlisted.waiting, waiting]
  · intro tag before
    exact (known tag).trans before
  · rw [overdue_change known, Int.add_zero]

/-- Calls other than that of the callback are not counted, whatever was done to answer them. -/
theorem takes_answer {c : Call κ} (other : c ≠ .callback k .registered) {a : c.Answer}
    (later : Enlisted k q) (promised : Promised k 0 p q) :
    (Registering κ σ k).Takes q.past (.answer c p.world a q.world) p (q.answered c p.world a) := by
  have uncounted : (Step.answer c p.world a q.world).tells k = false := by
    unfold Step.tells
    split
    · next l _ _ _ same =>
      cases same
      grind
    · rfl
  have told : (q.answered c p.world a).past.told k = q.past.told k := by
    rw [Point.answered, History.told_append, uncounted]
    rfl
  have awaited : (q.answered c p.world a).past.awaited k q.scene = q.past.awaited k q.scene :=
    History.awaited_append k q.past _ q.scene
  refine ⟨fun same => absurd same other, fun _ => ⟨⟨later.tagged, fun key => ?_⟩, ?_, ?_, ?_⟩⟩
  · exact (later.waiting key).trans
      (by rw [Point.answered, History.committed_append]; rfl)
  · exact promised.past.trans (List.prefix_append _ _)
  · exact promised.registered
  · rw [← promised.overdue, Point.overdue, told, Point.scene_answered, awaited, Point.overdue]

theorem watches : (Registering κ σ k).Watches [.definitions, .waiting] .registered where
  change F p t out enlisted alike := by
    have types : t.definitions = p.scene.definitions := alike.view .definitions (out _ (by simp))
    have waiting : t.waiting = p.scene.waiting := alike.view .waiting (out _ (by simp))
    refine takes_change enlisted ?_ (fun key => by rw [types]) fun key => ?_
    · rw [Scene.Tagged, types]
      exact enlisted.tagged
    · rw [Scene.waitingFor, waiting, Scene.waitingFor]
  call c p kind enlisted := by
    have other : c ≠ .callback k .registered := by
      rintro rfl
      exact kind rfl
    exact ⟨fun same => absurd same other, fun _ _ later promised => takes_answer other later promised⟩

open Act

theorem registered {l : κ} (apart : l ≠ k) :
    (Act.callback l .registered).Obeys (Registering κ σ k) := by
  have uncounted : (.callback l .registered : Call κ) ≠ .callback k .registered := by
    intro same
    cases same
    exact apart rfl
  intro p enlisted
  refine ⟨⟨enlisted, fun same => absurd same uncounted⟩, ?_⟩
  intro a q after
  exact takes_answer uncounted after.1 after.2

/-- A run of the callback settles one of those that are overdue. -/
theorem wp_tell (enlisted : Enlisted k p) (answers : p.past.Answers k p.scene) :
    (Act.callback k .registered).wp (Registering κ σ k).contract
      (fun _ q => Enlisted k q ∧ Promised k (-1) p q) p := by
  refine ⟨⟨enlisted, fun _ => answers⟩, ?_⟩
  rintro a q ⟨later, promised⟩
  have told : (q.answered (.callback k .registered) p.world a).past.told k = q.past.told k + 1 := by
    rw [Point.answered, History.told_append, Step.tells]
    simp
  have awaited : (q.answered (.callback k .registered) p.world a).past.awaited k q.scene =
      q.past.awaited k q.scene := History.awaited_append k q.past _ q.scene
  refine ⟨fun _ => ?_, fun _ => ⟨⟨later.tagged, fun key => ?_⟩, ?_, promised.registered, ?_⟩⟩
  · obtain ⟨tag, t, member, known⟩ := answers
    exact ⟨tag, t, promised.past.subset member, known⟩
  · exact (later.waiting key).trans (by rw [Point.answered, History.committed_append]; rfl)
  · exact promised.past.trans (List.prefix_append _ _)
  · have overdue := promised.overdue
    rw [Point.overdue] at overdue
    rw [Point.overdue, told, Point.scene_answered, awaited]
    omega

/-- Of the callbacks that waited each is told as often as it was there. -/
theorem wp_tellEach (callbacks : List κ) (enlisted : Enlisted k p)
    (known : k ∈ callbacks → p.past.Answers k p.scene) :
    (each callbacks fun l => do let _ ← Act.callback l .registered).wp (Registering κ σ k).contract
      (fun _ q => Enlisted k q ∧ Promised k (-(callbacks.count k : Int)) p q) p := by
  induction callbacks generalizing p with
  | nil => exact ⟨enlisted, .refl k p⟩
  | cons l rest ih =>
    refine (wp_actBind _ _).mpr ?_
    by_cases same : l = k
    · subst same
      have answers := known List.mem_cons_self
      refine (wp_bind _ _).mpr (wp_mono _ ?_ (wp_tell enlisted answers))
      rintro _ q ⟨later, promised⟩
      refine (wp_pure _).mpr (wp_mono _ ?_ (ih later fun _ => promised.answers answers))
      rintro _ r ⟨last, more⟩
      refine ⟨last, promised.trans more ?_⟩
      rw [List.count_cons_self]
      omega
    · have told : (do let _ ← Act.callback l .registered : Act κ Unit).Obeys (Registering κ σ k) :=
        .bind (registered same) fun _ => .pure ()
      refine wp_mono _ ?_ (told p enlisted)
      rintro _ q ⟨later, promised⟩
      refine wp_mono _ ?_ (ih later fun more => promised.answers (known (List.mem_cons_of_mem l more)))
      rintro _ r ⟨last, more⟩
      refine ⟨last, promised.trans more ?_⟩
      rw [List.count_cons_of_ne same]
      omega

omit [DecidableEq κ] in
theorem exists_of_committed {h : History κ σ} [DecidableEq κ] {key : String}
    (some : 0 < h.committed k key) :
    ∃ tag s, .request (.whenRegistered tag k) s ∈ h ∧ tag.toLower = key := by
  obtain ⟨x, member, here⟩ := List.countP_pos_iff.mp some
  unfold Step.commits at here
  split at here
  · next tag l s =>
    obtain ⟨rfl, lower⟩ := by simpa using here
    exact ⟨tag, s, member, lower⟩
  · cases here

/-- When a type is registered, those who wait for its tag have to be told. -/
theorem promised_define (enlisted : Enlisted k p) (d : Definition κ) :
    let t : Scene κ := { p.scene with
      definitions := p.scene.definitions.insert d.tag d
      waiting := p.scene.waiting.erase d.tag }
    Enlisted k (p.change t) ∧ Promised k (p.scene.waitingFor k d.tag) p (p.change t) := by
  intro t
  have given (key) : (p.change t).past.committed k key = p.past.committed k key :=
    History.committed_append k p.past _ key
  have told : (p.change t).past.told k = p.past.told k := History.told_append k p.past _
  have awaited : (p.change t).past.awaited k t = p.past.awaited k t :=
    History.awaited_append k p.past _ t
  refine ⟨⟨enlisted.tagged.insert rfl, fun key => ?_⟩, List.prefix_append _ _, ?_, ?_⟩
  · rw [given, Point.scene_change, Scene.waitingFor, Keyed.get?_erase]
    by_cases same : key = d.tag
    · rw [if_pos same, same, Keyed.get?_insert_self]
      rfl
    · rw [if_neg same, Keyed.get?_insert_of_ne _ _ same]
      exact enlisted.waiting key
  · intro tag known
    exact p.scene.isRegistered_insert d.tag d tag known
  · rw [Point.overdue, told, Point.scene_change, awaited, enlisted.waiting, Point.overdue]
    cases known : p.scene.definitions.get? d.tag with
    | none =>
      rw [History.awaited_define k p.past (t := t) rfl known]
      simp
      omega
    | some e =>
      have same (tag : String) : t.isRegistered tag = p.scene.isRegistered tag := by
        rw [Scene.isRegistered, Scene.definition?]
        by_cases here : tag.toLower = d.tag
        · rw [here, Keyed.get?_insert_self, Scene.isRegistered, Scene.definition?, here, known]
          rfl
        · rw [Keyed.get?_insert_of_ne _ _ here, Scene.isRegistered, Scene.definition?]
      rw [History.awaited_congr k p.past same]
      simp

theorem register (d : Definition κ) : (Act.register d).Obeys (Registering κ σ k) := by
  intro p enlisted
  refine (wp_bind _ _).mpr (wp_scene.mpr ?_)
  rw [wp_ite]
  split
  · exact ⟨enlisted, .refl k p⟩
  extract_lets e
  have noted : (each e.schema.problems (note none) : Act κ Unit).Touches [.journal] [] :=
    .each _ fun _ => .note_none _
  have alone := noted.wp_alone (K := (Registering κ σ k).contract) (p := p) fun _ _ _ _ _ => trivial
  refine (wp_bind _ _).mpr (wp_mono _ ?_ (wp_and _ alone (Obeys.of_touches watches noted (by decide) p enlisted)))
  rintro _ q ⟨alike, still, since⟩
  -- Nobody was called so far, so that those who wait are the ones that were read at first.
  have waiting : q.scene.waiting = p.scene.waiting := alike.view .waiting (by decide)
  have before : ((p.scene.waiting.get? e.tag).getD []).count k = q.scene.waitingFor k e.tag := by
    rw [Scene.waitingFor, waiting]
  obtain ⟨defined, promised⟩ := promised_define still e
  refine (wp_bind _ _).mpr ⟨trivial, fun _ => (wp_bind _ _).mpr (wp_mono _ ?_ (wp_tellEach _ defined ?_))⟩
  · rintro _ r ⟨told, settled⟩
    have connecting (nodes : List NodeId) : (do
        each (← upgrade e nodes) connect
        return true : Act κ Bool).Obeys (Registering κ σ k) := by
      refine .bind (.of_touches watches (.upgrade e nodes) (by decide)) fun ids => ?_
      exact .bind (.of_touches watches (.each _ fun id => .connect id) (by decide)) fun _ => .pure _
    refine (wp_bind _ _).mpr (wp_scene.mpr ((connecting _).after told ?_))
    have first : Promised k (q.scene.waitingFor k e.tag) p (q.change _) := since.trans promised
    exact first.trans settled (by omega)
  · intro waits
    have some : 0 < q.scene.waitingFor k e.tag := by
      rw [← before]
      exact List.count_pos_iff.mpr waits
    rw [still.waiting] at some
    split at some
    · exact absurd some (Nat.lt_irrefl 0)
    · obtain ⟨tag, t, member, lower⟩ := exists_of_committed some
      refine ⟨tag, t, List.mem_append_left _ member, ?_⟩
      rw [Point.scene_change, Scene.isRegistered, Scene.definition?, lower, Keyed.get?_insert_self]
      rfl

theorem addCapability (tag : String) (c : Capability κ) :
    (Act.addCapability tag c).Obeys (Registering κ σ k) := by
  intro p enlisted
  refine (wp_bind _ _).mpr (wp_scene.mpr ?_)
  split
  · exact ⟨enlisted, .refl k p⟩
  next d added =>
  obtain ⟨old, found, extended⟩ := Option.bind_eq_some_iff.mp added
  have own : d.tag = tag.toLower :=
    (Definition.tag_add? extended).trans (enlisted.tagged _ old found)
  have types (key : String) : ((p.scene.definitions.insert d.tag d).get? key).isSome =
      (p.scene.definitions.get? key).isSome := by
    by_cases same : key = d.tag
    · rw [same, Keyed.get?_insert_self, own, ← Scene.definition?, found]
      rfl
    · rw [Keyed.get?_insert_of_ne _ _ same]
  have adopting (ids : List ComponentId) : (do
      each ids fun id => modify id (·.adopt d c)
      return true : Act κ Bool).Obeys (Registering κ σ k) := by
    have touches : (each ids fun id => modify id (·.adopt d c) : Act κ Unit).Touches
        [.definition, .values, .names, .notify, .capabilities, .parts] [] :=
      .each _ fun _ => .modify fun i => .adopt i d c
    exact .bind (.of_touches watches touches (by decide)) fun _ => .pure _
  have defined := takes_change enlisted (t := { p.scene with
    definitions := p.scene.definitions.insert d.tag d }) (enlisted.tagged.insert rfl) types
    fun _ => rfl
  refine (wp_bind _ _).mpr (defined.imp fun kept => ?_)
  exact (adopting _).after kept.1 kept.2

theorem overdue_request (p : Point κ σ) (r : Request κ) : (p.request r).overdue k = p.overdue k +
    if (Step.request r p.scene : Step κ σ).awaits k p.scene then 1 else 0 := by
  have awaited := History.awaited_append k p.past (.request r p.scene) p.scene
  have told : (p.request r).past.told k = p.past.told k := History.told_append k p.past _
  rw [Point.overdue, told, Point.scene_request, Point.request, awaited, Point.overdue]
  push_cast
  split <;> omega

/-- A request that does not give the callback changes nothing by being made. -/
theorem enlisted_request (enlisted : Enlisted k p) {r : Request κ}
    (other : ∀ tag, r ≠ .whenRegistered tag k) :
    Enlisted k (p.request r) ∧ Promised k 0 p (p.request r) := by
  have uncommitted (key) : (Step.request r p.scene : Step κ σ).commits k key = false := by
    unfold Step.commits
    split
    · next tag l _ same =>
      cases same
      have apart : l ≠ k := fun here => other tag (here ▸ rfl)
      simp [apart]
    · rfl
  have unawaited : (Step.request r p.scene : Step κ σ).awaits k p.scene = false := by
    unfold Step.awaits
    split
    · next tag l _ same =>
      cases same
      have apart : l ≠ k := fun here => other tag (here ▸ rfl)
      simp [apart]
    · rfl
  refine ⟨⟨enlisted.tagged, fun key => ?_⟩, List.prefix_append _ _, fun _ known => known, ?_⟩
  · rw [Point.request, History.committed_append, uncommitted]
    exact enlisted.waiting key
  · rw [overdue_request, unawaited]
    rfl

/-- A callback is put after those that wait for the same tag. -/
theorem waitingFor_enqueue (s : Scene κ) (key : String) (l : κ) (other : String) :
    (s.enqueue key l).waitingFor k other =
      s.waitingFor k other + if l = k ∧ key = other then 1 else 0 := by
  unfold Scene.waitingFor Scene.enqueue
  by_cases same : other = key
  · subst same
    rw [Keyed.get?_insert_self, Option.getD_some, List.count_append, List.count_singleton]
    simp
  · rw [Keyed.get?_insert_of_ne _ _ same]
    simp [Ne.symm same]

theorem whenRegistered (tag : String) {l : κ} (apart : l ≠ k) :
    (Act.whenRegistered tag l).Obeys (Registering κ σ k) := by
  intro p enlisted
  refine (wp_bind _ _).mpr (wp_scene.mpr ?_)
  rw [wp_ite]
  split
  · exact Obeys.bind (registered apart) (fun _ => .pure ()) p enlisted
  · refine takes_change enlisted enlisted.tagged (fun _ => rfl) fun key => ?_
    refine (waitingFor_enqueue p.scene tag.toLower l key).trans ?_
    rw [if_neg fun both => apart both.1, Nat.add_zero]

/-- What is given for a registered tag is overdue until it has run. -/
theorem promised_request (enlisted : Enlisted k p) {tag : String}
    (known : p.scene.isRegistered tag = true) :
    Enlisted k (p.request (.whenRegistered tag k)) ∧
      Promised k 1 p (p.request (.whenRegistered tag k)) := by
  have overdue := overdue_request (k := k) p (.whenRegistered tag k)
  simp only [Step.awaits, decide_true, Bool.true_and, if_pos known] at overdue
  refine ⟨⟨enlisted.tagged, fun key => (enlisted.waiting key).trans ?_⟩, List.prefix_append _ _,
    fun _ known => known, overdue⟩
  rw [Point.scene_request, Point.request, History.committed_append]
  by_cases same : tag.toLower = key
  · subst same
    rw [Scene.isRegistered, Scene.definition?] at known
    rw [if_pos known, if_pos known]
  · simp [Step.commits, same]

/-- What is given for another tag is put with what waits for it. -/
theorem promised_enqueue (enlisted : Enlisted k p) {tag : String}
    (unknown : p.scene.isRegistered tag = false) :
    let q := (p.request (.whenRegistered tag k)).change (p.scene.enqueue tag.toLower k)
    Enlisted k q ∧ Promised k 0 p q := by
  intro q
  have overdue := overdue_request (k := k) p (.whenRegistered tag k)
  have committed (key : String) : q.past.committed k key =
      p.past.committed k key + if tag.toLower = key then 1 else 0 := by
    refine (History.committed_append k (p.request (.whenRegistered tag k)).past _ key).trans ?_
    refine (History.committed_append k p.past (.request (.whenRegistered tag k) p.scene) key).trans ?_
    simp [Step.commits]
  simp only [Step.awaits, unknown, Bool.and_false] at overdue
  refine ⟨⟨enlisted.tagged, fun key => ?_⟩, ?_, fun _ known => known, ?_⟩
  · refine (waitingFor_enqueue p.scene tag.toLower k key).trans ?_
    rw [enlisted.waiting, committed]
    change _ = if (p.scene.definitions.get? key).isSome = true then 0 else _
    by_cases same : tag.toLower = key
    · subst same
      rw [Scene.isRegistered, Scene.definition?] at unknown
      simp [unknown]
    · simp [same]
  · exact (List.prefix_append _ _).trans (List.prefix_append _ _)
  · refine Eq.trans ?_ overdue
    exact overdue_change (p := p.request (.whenRegistered tag k))
      (t := p.scene.enqueue tag.toLower k) fun _ => rfl

/-- A callback that is given for a tag either runs at once or is put with those that wait. -/
theorem wp_whenRegistered (enlisted : Enlisted k p) (tag : String) :
    (Act.whenRegistered tag k).wp (Registering κ σ k).contract
      (fun _ q => Enlisted k q ∧ Promised k 0 p q) (p.request (.whenRegistered tag k)) := by
  refine (wp_bind _ _).mpr (wp_scene.mpr ?_)
  rw [wp_ite, Point.scene_request]
  split
  · next known =>
    obtain ⟨asked, promised⟩ := promised_request enlisted known
    have answers : (p.request (.whenRegistered tag k)).past.Answers k p.scene :=
      ⟨tag, p.scene, by simp [Point.request], known⟩
    refine (wp_bind _ _).mpr (wp_mono _ ?_ (wp_tell asked answers))
    rintro _ q ⟨later, more⟩
    exact ⟨later, promised.trans more⟩
  · next unknown =>
    exact ⟨trivial, fun _ => promised_enqueue enlisted (Bool.not_eq_true _ ▸ unknown)⟩

theorem request (r : Request κ) (p : Point κ σ) (enlisted : Enlisted k p) :
    (Registering κ σ k).contract.Takes p.past (.request r p.scene)
      (r.act.wp (Registering κ σ k).contract
        (fun _ q => Enlisted k q ∧ Promised k 0 p q) (p.request r)) := by
  refine ⟨trivial, fun _ => ?_⟩
  by_cases gives : ∃ tag, r = .whenRegistered tag k
  · obtain ⟨tag, rfl⟩ := gives
    exact wp_whenRegistered enlisted tag
  · obtain ⟨asked, promised⟩ := enlisted_request enlisted fun tag same => gives ⟨tag, same⟩
    refine Obeys.after (G := Registering κ σ k) ?_ asked promised
    cases r with
    | register d => exact register d
    | addCapability tag c => exact addCapability tag c
    | whenRegistered tag l => exact whenRegistered tag fun same => gives ⟨tag, same ▸ rfl⟩
    | _ =>
      refine .of_touches watches (.request _) ?_
      dsimp only [Touches.requested, Touches.calling]
      decide

theorem call (c : Call κ) : c.Obeys (Registering κ σ k) := by
  cases c with
  | write id property v origin => exact .of_touches watches (.write _ _ _ _) (by decide)
  | connect id => exact .of_touches watches (.connect _) (by decide)
  | release id => exact .of_touches watches (.release _) (by decide)
  | service s id arguments => exact .of_touches watches (.service _ _ _) (by decide)
  | deliver x e => exact .of_touches watches (.deliver _ _) (by decide)
  | callback k o => trivial
  | apply f arguments => trivial

theorem keep (p : Point κ σ) (store : σ) (enlisted : Enlisted k p) :
    Enlisted k (p.keep store) ∧ Promised k 0 p (p.keep store) :=
  ⟨⟨enlisted.tagged, enlisted.waiting⟩,
    List.prefix_refl _, fun _ known => known, (Int.add_zero _).symm⟩

theorem enlisted_ofConfig (config : Config) (journal : Option Journal) (store : σ) :
    Enlisted k (⟨[], .ofConfig config journal, store⟩ : Point κ σ) where
  tagged := nofun
  waiting _ := rfl

end Registering
end LiveTree
