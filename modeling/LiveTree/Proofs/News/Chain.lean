import LiveTree.Proofs.News.Announcement

/-! The changes that are told of follow on one another. From where one takes up the history of a run
the first change starts from the value that the property has there, each further one from the value
that the one before it ended with, and the last one ends with the value that the property has. While
a write is under way the value may be ahead of what was told. -/
namespace LiveTree
variable {κ σ α β : Type}

def Linked : Value → List (Value × Value) → Value → Prop
  | x, [], y => x = y
  | x, n :: rest, y => x = n.1 ∧ Linked n.2 rest y

theorem Linked.append {x y z : Value} {ns ms : List (Value × Value)} (first : Linked x ns y)
    (second : Linked y ms z) : Linked x (ns ++ ms) z := by
  induction ns generalizing x with
  | nil =>
    cases first
    exact second
  | cons n rest ih => exact ⟨first.1, ih first.2⟩

def Step.scene : Step κ σ → Scene κ
  | .change _ after => after
  | .request _ s => s
  | .answer _ _ _ after => after.scene

namespace History

def scene (h : History κ σ) (s : Scene κ) : Scene κ := (h.getLast?.map Step.scene).getD s

/-- Whether a write to a slot is under way: the slot is busy, or it was freed by the last step and
the write is still to be answered. -/
def Writing (h : History κ σ) (s : Scene κ) (id : ComponentId) (name : String) : Prop :=
  (h.scene s).Busy id name ∨
    ∃ before after, h.getLast? = some (.change before after) ∧ before.Busy id name

theorem scene_snoc (h : History κ σ) (x : Step κ σ) (s : Scene κ) :
    History.scene (h ++ [x]) s = x.scene := by
  simp [scene]

theorem writing_of_change {h : History κ σ} {s before after : Scene κ} {id : ComponentId}
    {name : String} (busy : before.Busy id name) :
    History.Writing (h ++ [.change before after]) s id name :=
  .inr ⟨before, after, by simp, busy⟩

end History

namespace Chaining
variable {front : History κ σ} {s₀ : Scene κ} {id : ComponentId} {name : String}

/-- Since a front the changes that were told of lead up to a value. They start from what the
property had there, unless a write was under way. -/
def Chained (front : History κ σ) (s₀ : Scene κ) (id : ComponentId) (name : String)
    (h : History κ σ) (y : Value) : Prop :=
  ∀ later, h = front ++ later → ∃ x, Linked x (later.news id name) y ∧
    (¬front.Writing s₀ id name → (front.scene s₀).property id name = x)

theorem Chained.snoc {h : History κ σ} {x : Step κ σ} {y z : Value}
    (before : Chained front s₀ id name h y) (linked : Linked y (x.news id name) z)
    (fresh : front = h ++ [x] → ¬front.Writing s₀ id name →
      (front.scene s₀).property id name = z) : Chained front s₀ id name (h ++ [x]) z := by
  intro later same
  rcases List.eq_nil_or_concat later with rfl | ⟨rest, last, rfl⟩
  · exact ⟨z, rfl, fresh (by simpa using same.symm)⟩
  · rw [List.concat_eq_append, ← List.append_assoc] at same
    obtain ⟨here, last⟩ := List.append_inj' same rfl
    obtain ⟨v, first, start⟩ := before rest here
    cases last
    refine ⟨v, ?_, start⟩
    rw [List.concat_eq_append, History.news, List.flatMap_append]
    refine first.append ?_
    simpa using linked

structure Between (front : History κ σ) (s₀ : Scene κ) (id : ComponentId) (name : String)
    (p : Point κ σ) : Prop where
  scene : p.past.scene s₀ = p.scene
  free : ¬p.scene.Busy id name
  held : front <+: p.past → ∃ x, p.scene.held? id name = some x
  chained : Chained front s₀ id name p.past (p.scene.property id name)

structure Amidst (front : History κ σ) (s₀ : Scene κ) (id : ComponentId) (name : String) (y : Value)
    (p : Point κ σ) : Prop where
  scene : p.past.scene s₀ = p.scene
  busy : p.scene.Busy id name
  chained : Chained front s₀ id name p.past y

def UpToDate (front : History κ σ) (s₀ : Scene κ) (id : ComponentId) (name : String)
    (h : History κ σ) : Prop :=
  ∃ y, Chained front s₀ id name h y ∧
    (¬h.Writing s₀ id name → (h.scene s₀).property id name = y)

def Met (front : History κ σ) (s₀ : Scene κ) (id : ComponentId) (name : String) (p : Point κ σ) :
    Prop :=
  Between front s₀ id name p ∨ ∃ y, Amidst front s₀ id name y p

structure Kept (front : History κ σ) (s₀ : Scene κ) (id : ComponentId) (name : String)
    (p q : Point κ σ) : Prop where
  between : Between front s₀ id name p → Between front s₀ id name q
  amidst : ∀ y, Amidst front s₀ id name y p →
    Amidst front s₀ id name y q ∧ q.scene.held? id name = p.scene.held? id name

variable {p q r : Point κ σ} {x : Step κ σ} {y : Value}

theorem Amidst.writing (amidst : Amidst front s₀ id name y p) : p.past.Writing s₀ id name :=
  .inl (by rw [amidst.scene]; exact amidst.busy)

theorem Met.upToDate (met : Met front s₀ id name p) : UpToDate front s₀ id name p.past := by
  rcases met with between | ⟨y, amidst⟩
  · exact ⟨_, between.chained, fun _ => by rw [between.scene]⟩
  · exact ⟨y, amidst.chained, fun idle => absurd amidst.writing idle⟩

/-- A step that tells nothing and finds the slot busy. -/
theorem Amidst.step (chained : Chained front s₀ id name p.past y) (past : q.past = p.past ++ [x])
    (led : x.scene = q.scene) (silent : x.news id name = []) (busy : q.scene.Busy id name) :
    Amidst front s₀ id name y q := by
  have scene : q.past.scene s₀ = q.scene := by rw [past, History.scene_snoc, led]
  refine ⟨scene, busy, ?_⟩
  rw [past]
  refine chained.snoc (by rw [silent]; rfl) fun here idle => absurd (.inl ?_) idle
  rw [here, ← past, scene]
  exact busy

/-- A step that tells nothing and leaves the slot alone. -/
theorem Between.step (there : ∃ x, (front.scene s₀).held? id name = some x)
    (between : Between front s₀ id name p) (past : q.past = p.past ++ [x]) (led : x.scene = q.scene)
    (silent : x.news id name = []) (holds : p.scene.Holds id name q.scene) :
    Between front s₀ id name q := by
  have scene : q.past.scene s₀ = q.scene := by rw [past, History.scene_snoc, led]
  refine ⟨scene, fun busy => between.free (holds.free busy), fun begun => ?_, ?_⟩
  · rcases List.prefix_concat_iff.mp (past ▸ begun) with here | before
    · rwa [here, ← past, scene] at there
    · exact (between.held before).imp fun x held => holds.held x held
  · have chained : Chained front s₀ id name p.past (q.scene.property id name) := by
      intro later same
      obtain ⟨⟨v, busy⟩, held⟩ := between.held ⟨later, same.symm⟩
      rw [Scene.property_of_held? (holds.held _ held), ← Scene.property_of_held? held]
      exact between.chained later same
    rw [past]
    exact chained.snoc (by rw [silent]; rfl) fun here _ => by rw [here, ← past, scene]

namespace Kept

theorem refl (p : Point κ σ) : Kept front s₀ id name p p := ⟨fun here => here, fun _ here => ⟨here, rfl⟩⟩

theorem trans (first : Kept front s₀ id name p q) (second : Kept front s₀ id name q r) :
    Kept front s₀ id name p r where
  between here := second.between (first.between here)
  amidst y here := by
    obtain ⟨next, same⟩ := first.amidst y here
    obtain ⟨last, same'⟩ := second.amidst y next
    exact ⟨last, same'.trans same⟩

theorem met (kept : Kept front s₀ id name p q) (met : Met front s₀ id name p) :
    Met front s₀ id name q :=
  met.imp kept.between fun ⟨y, here⟩ => ⟨y, (kept.amidst y here).1⟩

theorem step (there : ∃ x, (front.scene s₀).held? id name = some x) (past : q.past = p.past ++ [x])
    (led : x.scene = q.scene) (silent : x.news id name = [])
    (holds : p.scene.Holds id name q.scene) : Kept front s₀ id name p q where
  between here := here.step there past led silent holds
  amidst y here := by
    have same := holds.same here.busy
    exact ⟨.step here.chained past led silent (here.busy.of_held? same), same⟩

/-- What consumers keep for themselves does not matter. -/
theorem keep (kept : Kept front s₀ id name p q) (store : σ) :
    Kept front s₀ id name p (q.keep store) where
  between here := by
    obtain ⟨scene, free, held, chained⟩ := kept.between here
    exact ⟨scene, free, held, chained⟩
  amidst y here := by
    obtain ⟨⟨scene, busy, chained⟩, same⟩ := kept.amidst y here
    exact ⟨⟨scene, busy, chained⟩, same⟩

end Kept
end Chaining

def Chaining (front : History κ σ) (s₀ : Scene κ) (id : ComponentId) (name : String) :
    Contract κ σ where
  given _ _ := True
  safe past x := Chaining.UpToDate front s₀ id name (past ++ [x])
  before _ p := Chaining.Met front s₀ id name p
  after c p a q := Chaining.Kept front s₀ id name p (q.answered c p.world a)

namespace Chaining
variable {front : History κ σ} {s₀ : Scene κ} {id : ComponentId} {name : String} {p q : Point κ σ}

/-- Nothing is told of other calls than writes to the slot. -/
theorem news_of_other {c : Call κ} {a : c.Answer} {before after : World κ σ}
    (other : ∀ v origin, c ≠ .write id name v origin) :
    (Step.answer c before a after).news id name = [] := by
  cases c with
  | write id' key v origin =>
    cases a with
    | error fault => rfl
    | ok changed =>
      cases changed with
      | false => rfl
      | true =>
        refine if_neg fun same => ?_
        obtain ⟨rfl, rfl⟩ := same
        exact other v origin rfl
  | _ => rfl

theorem wp_holds (there : ∃ x, (front.scene s₀).held? id name = some x) {m : Act κ α}
    (holds : m.Holds id name) (met : Met front s₀ id name p) :
    m.wp (Chaining front s₀ id name) (fun _ q => Kept front s₀ id name p q) p := by
  refine Act.wp_of_within (I := fun q => Kept front s₀ id name p q) ?_ ?_ (.refl p) (holds p.scene)
  · intro q t kept holds
    have next := kept.trans (.step (q := q.change t) there rfl rfl rfl holds)
    exact ⟨(next.met met).upToDate, fun _ => next⟩
  · intro c q kept _
    refine ⟨kept.met met, fun a r after => ?_⟩
    have next := kept.trans after
    exact ⟨(next.met met).upToDate, fun _ => next⟩

section Writing
variable {prop : Property} {c : Component κ} {v old : Value} {origin : Origin} {slot : Slot}

/-- How the attempt at a write ends: with the slot holding what it held, unless the answer is yes. -/
theorem wp_attempt (there : ∃ x, (front.scene s₀).held? id prop.name = some x)
    (amidst : Amidst front s₀ id prop.name old p)
    (held : p.scene.held? id prop.name = some (old, true)) :
    (Act.attempt id prop v origin).wp (Chaining front s₀ id prop.name) (fun a q =>
      Amidst front s₀ id prop.name old q ∧ ∃ x, q.scene.held? id prop.name = some (x, true) ∧
        (a ≠ .ok true → x = old)) p := by
  refine Act.wp_attempt (R := fun q => Amidst front s₀ id prop.name old q ∧
    q.scene.held? id prop.name = some (old, true)) (fun r kept => kept.2) ?_ ?_ ?_ ⟨amidst, held⟩
  · intro α F C m touches fields _ r kept
    have holds : m.Holds id prop.name := .of_touches touches
      ⟨fun inside => by simpa using fields inside, fun inside => by simpa using fields inside⟩
    refine Act.wp_mono m (fun _ s since => ?_) (wp_holds there holds (.inr ⟨old, kept.1⟩))
    obtain ⟨next, same⟩ := since.amidst old kept.1
    exact ⟨next, same.trans kept.2⟩
  · exact fun a r kept _ => ⟨kept.1, old, kept.2, fun _ => rfl⟩
  · intro x r kept
    refine Act.wp_commit kept.2 fun d slot _ t _ put => ?_
    have next : Amidst front s₀ id prop.name old (r.change t) :=
      .step kept.1.chained rfl rfl rfl ((Scene.busy_iff_of_held? put).mpr rfl)
    have met : Met front s₀ id prop.name (r.change t) := .inr ⟨old, next⟩
    refine ⟨met.upToDate, fun _ => ?_⟩
    have holds : (Act.spread id prop d slot old x origin).Holds id prop.name :=
      .of_touches (.spread _ _ _ _ _ _ _) (by decide)
    refine Act.wp_mono _ (fun _ s since => ?_) (wp_holds there holds met)
    obtain ⟨last, same⟩ := since.amidst old next
    exact ⟨last, x, same.trans put, fun failed => absurd rfl failed⟩

/-- A write from one value of its property to another is told of as such. -/
theorem wp_write (there : ∃ x, (front.scene s₀).held? id prop.name = some x)
    (between : Between front s₀ id prop.name p)
    (found : p.scene.component? id = some c) (declared : c.schema.get? prop.name = some prop)
    (held : Keyed.get? c.slots prop.name = some slot) (idle : slot.busy = false) :
    (Act.write id prop.name v origin).wp (Chaining front s₀ id prop.name)
      ((Chaining front s₀ id prop.name).after (.write id prop.name v origin) p) p := by
  have value : p.scene.property id prop.name = slot.value := Scene.property_of_held? (by
    rw [Scene.held?, Scene.slot?, found, Option.bind_some, held, Option.map_some])
  refine Act.wp_write found declared held idle fun t _ marked => ?_
  have begun : Amidst front s₀ id prop.name slot.value (p.change t) :=
    .step (value ▸ between.chained) rfl rfl rfl ((Scene.busy_iff_of_held? marked).mpr rfl)
  refine ⟨Met.upToDate (.inr ⟨_, begun⟩), fun _ => Act.wp_mono _ ?_ (wp_attempt there begun marked)⟩
  rintro a q ⟨amidst, x, held, failed⟩
  generalize freed : (q.scene.modify id fun c => c.modifySlot prop.name fun slot =>
    { slot with busy := false }) = t
  have held : t.held? id prop.name = some (x, false) := by rw [← freed, Scene.freed held]
  have writing : History.Writing (q.past ++ [.change q.scene t]) s₀ id prop.name :=
    History.writing_of_change amidst.busy
  have chained : Chained front s₀ id prop.name (q.past ++ [.change q.scene t]) slot.value :=
    amidst.chained.snoc rfl fun here idle => absurd (here ▸ writing) idle
  refine ⟨⟨_, chained, fun idle => absurd writing idle⟩, fun _ => ⟨fun _ => ?_, ?_⟩⟩
  · have linked : Linked slot.value ((Step.answer (.write id prop.name v origin) p.world a
        (q.change t).world).news id prop.name) (t.property id prop.name) := by
      have now : t.property id prop.name = x := Scene.property_of_held? held
      cases a with
      | error fault => exact (failed (by simp)).symm.trans now.symm
      | ok changed =>
        cases changed with
        | false => exact (failed (by simp)).symm.trans now.symm
        | true =>
          simp only [Step.news, and_self, ↓reduceIte]
          exact ⟨value.symm, rfl⟩
    have scene := History.scene_snoc (q.past ++ [.change q.scene t])
      (Step.answer (.write id prop.name v origin) p.world a (q.change t).world) s₀
    refine ⟨scene, fun busy => ?_, fun _ => ⟨_, held⟩, chained.snoc linked fun here _ => ?_⟩
    · cases (Scene.busy_iff_of_held? held).mp busy
    · rw [here, scene]
      rfl
  · exact fun y other => absurd other.busy between.free

end Writing

theorem wp_script (there : ∃ x, (front.scene s₀).held? id name = some x) (m : Script κ σ α)
    (met : Met front s₀ id name p) :
    m.wp (Chaining front s₀ id name) (fun _ q => Kept front s₀ id name p q) p := by
  refine Script.wp_of_requests (I := fun q => Kept front s₀ id name p q)
    (fun q store kept => kept.keep store) (fun r q kept => ?_) m (.refl p)
  have next := kept.trans (.step (q := q.request r) there rfl rfl rfl (.refl _))
  refine ⟨(next.met met).upToDate, fun _ => ?_⟩
  exact Act.wp_mono _ (fun a s last => next.trans last) (wp_holds there (.request r) (next.met met))

theorem meets (there : ∃ x, (front.scene s₀).held? id name = some x) (env : Environment κ σ) :
    env.Meets (Chaining front s₀ id name) := by
  intro call p met
  -- All calls but writes to the slot leave it alone, and nothing is told of them.
  have other {m : Act κ call.Answer} (holds : m.Holds id name)
      (quiet : ∀ v origin, call ≠ .write id name v origin) :
      m.wp (Chaining front s₀ id name) ((Chaining front s₀ id name).after call p) p := by
    refine Act.wp_mono m (fun a q kept => kept.trans ?_) (wp_holds there holds met)
    exact .step there rfl rfl (news_of_other quiet) (.refl _)
  -- Nor is anything told of a write to the slot that is answered with no at once.
  have no (v : Value) (origin : Origin) :
      (Chaining front s₀ id name).after (.write id name v origin) p (.ok false) p :=
    .step there rfl rfl rfl (.refl _)
  cases call with
  | write id' key v origin =>
    by_cases same : id' = id ∧ key = name
    · obtain ⟨rfl, rfl⟩ := same
      rcases met with between | ⟨y, amidst⟩
      · refine Act.wp_write_or (no v origin) fun c prop slot found declared held idle => ?_
        obtain rfl : prop.name = key := Schema.name_of_get? declared
        exact wp_write there between found declared held idle
      · exact Guarded.wp_write_busy amidst.busy v origin (no v origin)
    · refine other (.write same v origin) fun _ _ eq => ?_
      cases eq
      exact same ⟨rfl, rfl⟩
  | connect id' => exact other (.connect id') nofun
  | release id' => exact other (.of_touches (.release id') (by decide)) nofun
  | service s id' arguments => exact other (.of_touches (.service s id' arguments) (by decide)) nofun
  | deliver x e => exact other (.of_touches (.deliver x e) (by decide)) nofun
  | callback k o =>
    refine Script.wp_mono _ (fun a q kept => kept.trans ?_) (wp_script there _ met)
    exact .step there rfl rfl rfl (.refl _)
  | apply f arguments =>
    exact ((Kept.refl p).keep _).trans (.step there rfl rfl rfl (.refl _))

end Chaining
end LiveTree
