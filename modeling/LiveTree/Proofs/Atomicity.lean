import LiveTree.Proofs.Footprint.Life

/-! Writes are atomic. While a write is under way its slot is busy, and what consumer code does
meanwhile, as deep in the tree as it may be, neither changes the slot nor frees it. -/
namespace LiveTree
variable {κ σ : Type}

namespace Scene

def slot? (s : Scene κ) (id : ComponentId) (name : String) : Option Slot :=
  (s.component? id).bind fun c => Keyed.get? c.slots name

def held? (s : Scene κ) (id : ComponentId) (name : String) : Option (Value × Bool) :=
  (s.slot? id name).map fun slot => (slot.value, slot.busy)

def Busy (s : Scene κ) (id : ComponentId) (name : String) : Prop :=
  ∃ slot, s.slot? id name = some slot ∧ slot.busy = true

theorem slot?_modifySlot (s : Scene κ) (id other : ComponentId) (name key : String)
    (f : Slot → Slot) : (s.modify id fun c => c.modifySlot name f).slot? other key =
      if id = other ∧ key = name then (s.slot? other key).map f else s.slot? other key := by
  unfold slot?
  rw [component?_modify]
  by_cases here : id = other
  · cases found : s.component? other with
    | none => simp
    | some c =>
      rw [if_pos here]
      simp only [Option.map_some, Option.bind_some, Component.modifySlot, Keyed.get?_modify, here,
        true_and]
  · rw [if_neg here, if_neg fun both => here both.1]

theorem property_eq (s : Scene κ) (id : ComponentId) (name : String) :
    s.property id name = ((s.slot? id name).map Slot.value).getD .undefined := by
  unfold property slot? Component.property Slots.value?
  cases s.component? id <;> rfl

theorem property_modifySlot (s : Scene κ) {id other : ComponentId} {name key : String} {f : Slot → Slot}
    (keeps : id = other → key = name → ∀ slot, (f slot).value = slot.value) :
    (s.modify id fun c => c.modifySlot name f).property other key = s.property other key := by
  rw [property_eq, property_eq, slot?_modifySlot]
  split
  · next same =>
    rw [Option.map_map, show Slot.value ∘ f = Slot.value from funext (keeps same.1 same.2)]
  · rfl

theorem held?_modifySlot (s : Scene κ) (id : ComponentId) (name : String) (f : Slot → Slot) :
    (s.modify id fun c => c.modifySlot name f).held? id name =
      (s.slot? id name).map fun slot => ((f slot).value, (f slot).busy) := by
  rw [held?, slot?_modifySlot, if_pos ⟨rfl, rfl⟩, Option.map_map]
  rfl

theorem slot?_of_held? {s : Scene κ} {id : ComponentId} {name : String} {v : Value} {busy : Bool}
    (held : s.held? id name = some (v, busy)) :
    ∃ slot, s.slot? id name = some slot ∧ slot.value = v ∧ slot.busy = busy := by
  obtain ⟨slot, found, same⟩ := Option.map_eq_some_iff.mp held
  cases same
  exact ⟨slot, found, rfl, rfl⟩

theorem property_of_held? {s : Scene κ} {id : ComponentId} {name : String} {v : Value}
    {busy : Bool} (held : s.held? id name = some (v, busy)) : s.property id name = v := by
  obtain ⟨slot, found, rfl, -⟩ := slot?_of_held? held
  rw [property_eq, found]
  rfl

theorem Busy.of_held? {s t : Scene κ} {id : ComponentId} {name : String} (busy : s.Busy id name)
    (same : t.held? id name = s.held? id name) : t.Busy id name := by
  obtain ⟨slot, found, held⟩ := busy
  unfold held? at same
  rw [found, Option.map_some, Option.map_eq_some_iff] at same
  obtain ⟨slot', found', same⟩ := same
  exact ⟨slot', found', (Prod.mk.inj same).2.trans held⟩

end Scene

def Leaves (id : ComponentId) (name : String) (s t : Scene κ) : Prop :=
  s.Busy id name → t.held? id name = s.held? id name

theorem Leaves.of_alike {F : List Field} {s t : Scene κ} {id : ComponentId} {name : String}
    (alike : s.Alike F t) (out : .values ∉ F) : Leaves id name s t := by
  rintro ⟨slot, found, -⟩
  obtain ⟨c, there, declared⟩ := Option.bind_eq_some_iff.mp found
  obtain ⟨d, there', same⟩ := alike.component id c there
  simp only [Scene.held?, Scene.slot?, there, there', Option.bind_some]
  exact Component.held_of_view (same.view .values out)

theorem Leaves.of_other {s : Scene κ} {id other : ComponentId} {name key : String}
    (apart : ¬(other = id ∧ key = name)) (f : Slot → Slot) :
    Leaves id name s (s.modify other fun c => c.modifySlot key f) := by
  intro _
  rw [Scene.held?, Scene.slot?_modifySlot, if_neg fun both => apart ⟨both.1, both.2.symm⟩, Scene.held?]

theorem Leaves.of_adopt (s : Scene κ) (other id : ComponentId) (name : String)
    (d : Definition κ) (added : Capability κ) :
    Leaves id name s (s.modify other fun c => c.adopt d added) := by
  rintro ⟨slot, found, -⟩
  obtain ⟨c, there, declared⟩ := Option.bind_eq_some_iff.mp found
  simp only [Scene.held?, Scene.slot?, Scene.component?_modify, there, Option.bind_some]
  split
  · simp only [Option.map_some, Option.bind_some, Component.adopt, Slots.get?_fill, declared,
      Option.some_or]
  · simp only [Option.bind_some, declared]

def Act.Spares {α : Type} (id : ComponentId) (name : String) (m : Act κ α) : Prop :=
  ∀ s, m.Within (Leaves id name) (fun _ => True) s

namespace Act.Spares
variable {α β : Type} {id : ComponentId} {name : String}

theorem of_touches {F : List Field} {C : List Call.Kind} {m : Act κ α} (touches : m.Touches F C)
    (out : .values ∉ F) : m.Spares id name := fun s =>
  (touches s).mono (fun _ _ alike => .of_alike alike out) fun _ _ => trivial

theorem bind {m : Act κ β} {f : β → Act κ α} (first : m.Spares id name)
    (second : ∀ b, (f b).Spares id name) : (m >>= f).Spares id name :=
  fun s => (first s).bind fun b t => second b t

theorem pure (a : α) : (Pure.pure a : Act κ α).Spares id name := fun _ => trivial

theorem commit {other : ComponentId} {p : Property} (apart : ¬(other = id ∧ p.name = name))
    (old v : Value) (origin : Origin) : (Act.commit other p old v origin : Act κ _).Spares id name := by
  intro s
  unfold Act.commit Act.withComponent
  simp only [Within]
  split
  · split
    · trivial
    · refine ⟨.of_other apart _, ?_⟩
      exact bind (of_touches (.spread _ _ _ _ _ _ _) (by decide)) (fun _ => pure _) _
  · trivial

theorem attempt {other : ComponentId} {p : Property} (apart : ¬(other = id ∧ p.name = name))
    (v : Value) (origin : Origin) : (Act.attempt other p v origin : Act κ _).Spares id name := by
  unfold Act.attempt
  split
  · exact pure _
  · split
    · exact of_touches (.refuse _ _) (by decide)
    · refine bind (of_touches .scene (F := []) (C := []) (by decide)) fun s => ?_
      refine bind (of_touches (.validated _ _ _ _) (by decide)) fun v => ?_
      split
      · exact pure _
      · split
        · exact of_touches (.refuse _ _) (by decide)
        · exact commit apart _ _ _

theorem write {other : ComponentId} {key : String} (apart : ¬(other = id ∧ key = name)) (v : Value)
    (origin : Origin) : (Act.write other key v origin : Act κ _).Spares id name := by
  intro s
  unfold Act.write Act.withComponent
  simp only [Within]
  split
  · split
    · next p _ declared _ =>
      split
      · trivial
      · refine ⟨.of_other apart _, ?_⟩
        have apart' : ¬(other = id ∧ p.name = name) := by rwa [Schema.name_of_get? declared]
        refine bind (attempt apart' _ _) (fun r => bind (fun s => ?_) fun _ => pure _) _
        exact ⟨.of_other apart _, trivial⟩
    · trivial
  · trivial

theorem each {f : β → Act κ Unit} (items : List β) (body : ∀ b, (f b).Spares id name) :
    (Act.each items f).Spares id name := by
  induction items with
  | nil => exact pure ()
  | cons b rest ih => exact bind (body b) fun _ => ih

theorem addCapability (tag : String) (c : Capability κ) :
    (Act.addCapability tag c).Spares id name := by
  refine bind (of_touches .scene (F := []) (C := []) (by decide)) fun s => ?_
  split
  · exact pure _
  · refine bind (of_touches (.update (F := [.definitions]) (C := []) fun s => .define s _ _) (by decide)) fun _ => ?_
    exact bind (each _ fun other s => ⟨.of_adopt _ _ _ _ _ _, trivial⟩) fun _ => pure _

theorem request (r : Request κ) : r.act.Spares id name := by
  by_cases adds : ∃ tag c, r = .addCapability tag c
  · obtain ⟨tag, c, rfl⟩ := adds
    exact addCapability tag c
  · refine of_touches (.request r) ?_
    cases r with
    | addCapability tag c => exact absurd ⟨tag, c, rfl⟩ adds
    | _ =>
      dsimp only [Touches.requested]
      decide

end Act.Spares

def Call.Discarded (id : ComponentId) (name : String) :
    (c : Call κ) → World κ σ → c.Answer → World κ σ → Prop
  | .write other key _ _, before, a, after => other = id ∧ key = name → a = .ok false ∧ after = before
  | _, _, _, _ => True

def Guarded (κ σ : Type) (id : ComponentId) (name : String) : Contract κ σ where
  given _ _ := True
  safe _ x := match x with
    | .answer c before a after => c.Discarded id name before a after
    | _ => True
  before _ p := p.scene.Busy id name
  after c p a q := q.scene.held? id name = p.scene.held? id name ∧
    c.Discarded id name p.world a q.world

namespace Guarded
variable {id : ComponentId} {name : String} {p : Point κ σ}

def Since (id : ComponentId) (name : String) (p q : Point κ σ) : Prop :=
  q.scene.Busy id name ∧ q.scene.held? id name = p.scene.held? id name

theorem wp_of_spares {α : Type} {m : Act κ α} {q : Point κ σ} (spares : m.Spares id name)
    (since : Since id name p q) :
    m.wp (Guarded κ σ id name) (fun _ r => Since id name p r) q := by
  refine Act.wp_of_within (fun r t held leaves => ?_) (fun c r held _ => ?_) since (spares q.scene)
  · have same := leaves held.1
    exact ⟨trivial, fun _ => ⟨held.1.of_held? same, same.trans held.2⟩⟩
  · refine ⟨held.1, fun a t after => ⟨after.2, fun _ => ?_⟩⟩
    exact ⟨held.1.of_held? after.1, after.1.trans held.2⟩

theorem wp_of_act {α : Type} {m : Act κ α} {Q : α → Point κ σ → Prop} (spares : m.Spares id name)
    (busy : p.scene.Busy id name)
    (kept : ∀ a q, q.scene.held? id name = p.scene.held? id name → Q a q) :
    m.wp (Guarded κ σ id name) Q p :=
  Act.wp_mono m (fun a q since => kept a q since.2) (wp_of_spares spares ⟨busy, rfl⟩)

/-- A write to a busy slot is over before it begins. -/
theorem wp_write_busy (busy : p.scene.Busy id name) (v : Value) (origin : Origin)
    {Q : Except Fault Bool → Point κ σ → Prop} {K : Contract κ σ} (done : Q (.ok false) p) :
    (Act.write id name v origin).wp K Q p := by
  obtain ⟨slot, found, held⟩ := busy
  obtain ⟨c, there, declared⟩ := Option.bind_eq_some_iff.mp found
  refine Act.wp_withComponent (fun d here => ?_) fun _ => done
  cases there.symm.trans here
  cases c.schema.get? name with
  | none => exact done
  | some p =>
    simp only [declared, held, ↓reduceIte]
    exact done

theorem meets (env : Environment κ σ) (id : ComponentId) (name : String) :
    env.Meets (Guarded κ σ id name) := by
  intro c p busy
  cases c with
  | write other key v origin =>
    by_cases same : other = id ∧ key = name
    · obtain ⟨rfl, rfl⟩ := same
      exact wp_write_busy busy v origin ⟨rfl, fun _ => ⟨rfl, rfl⟩⟩
    · exact wp_of_act (.write same v origin) busy fun a q kept => ⟨kept, fun both => absurd both same⟩
  | connect other => exact wp_of_act (.of_touches (.connect other) (by decide)) busy fun a q kept => ⟨kept, trivial⟩
  | release other => exact wp_of_act (.of_touches (.release other) (by decide)) busy fun a q kept => ⟨kept, trivial⟩
  | service s other arguments =>
    exact wp_of_act (.of_touches (.service s other arguments) (by decide)) busy fun a q kept => ⟨kept, trivial⟩
  | deliver x e => exact wp_of_act (.of_touches (.deliver x e) (by decide)) busy fun a q kept => ⟨kept, trivial⟩
  | callback k o =>
    refine Script.wp_mono _ (fun a q since => ⟨since.2, trivial⟩) <|
      Script.wp_of_requests (I := Since id name p) (fun q store since => since) ?_ _ ⟨busy, rfl⟩
    exact fun r q since => ⟨trivial, fun _ => wp_of_spares (.request r) since⟩
  | apply f arguments => exact ⟨rfl, trivial⟩

end Guarded

def Environment.Validates (env : Environment κ σ) (fuel : Nat) (w : World κ σ) (id : ComponentId)
    (p : Property) (old v x : Value) : Prop :=
  match p.validator with
  | none => x = v
  | some method => ∃ result w',
    (Act.invoke id method [old, v]).run (env.answer fuel) w = some (result, w') ∧
      x = match result with
        | .ok r => if r.isUndefined then v else r
        | .error _ => v

/-- How a write ends that found its slot idle: with a new value that was validated, fits, and is
not the old one, or with the old value. -/
def Environment.Outcome (env : Environment κ σ) (fuel : Nat) (w : World κ σ) (id : ComponentId)
    (p : Property) (old v : Value) (busy : Bool) (r : Except Fault Bool) (s : Scene κ) : Prop :=
  match r with
  | .ok true => ∃ x, env.Validates fuel w id p old v x ∧ s.held? id p.name = some (x, busy) ∧
      p.kind.accepts p.nullable x = true ∧ old.same x = false
  | _ => s.held? id p.name = some (old, busy)

theorem Scene.freed {s : Scene κ} {id : ComponentId} {name : String} {x : Value}
    (held : s.held? id name = some (x, true)) : (s.modify id fun c => c.modifySlot name fun slot =>
      { slot with busy := false }).held? id name = some (x, false) := by
  obtain ⟨slot, found, rfl, -⟩ := slot?_of_held? held
  rw [held?_modifySlot, found, Option.map_some]

theorem Environment.Outcome.freed {env : Environment κ σ} {fuel : Nat} {w : World κ σ}
    {id : ComponentId} {p : Property} {old v : Value} {r : Except Fault Bool} {s : Scene κ}
    (ended : env.Outcome fuel w id p old v true r s) :
    env.Outcome fuel w id p old v false r
      (s.modify id fun c => c.modifySlot p.name fun slot => { slot with busy := false }) := by
  unfold Outcome at ended ⊢
  split at ended
  · obtain ⟨x, validated, held, fits, fresh⟩ := ended
    exact ⟨x, validated, Scene.freed held, fits, fresh⟩
  · exact Scene.freed ended

section Outermost
variable {env : Environment κ σ} {fuel : Nat} {id : ComponentId} {p : Property} {old v : Value}
  {q : Point κ σ}

abbrev During (env : Environment κ σ) (fuel : Nat) (id : ComponentId) (name : String) :
    Contract κ σ := (Guarded κ σ id name).answering (env.answer fuel)

theorem wp_spared {α : Type} {m : Act κ α} {Q : α → Point κ σ → Prop} {x : Value}
    (spares : m.Spares id p.name) (held : q.scene.held? id p.name = some (x, true))
    (kept : ∀ a r, r.scene.held? id p.name = some (x, true) →
      m.run (env.answer fuel) q.world = some (a, r.world) → Q a r) :
    m.wp (During env fuel id p.name) Q q := by
  obtain ⟨slot, found, -, busy⟩ := Scene.slot?_of_held? held
  refine Act.wp_mono m (fun a r ended => kept a r ended.1 ended.2) (Act.wp_answering m ?_)
  exact Guarded.wp_of_act spares ⟨slot, found, busy⟩ fun a r same => same.trans held

theorem wp_refuse (fault : Fault) (w : World κ σ)
    (held : q.scene.held? id p.name = some (old, true)) :
    (Act.refuse id fault).wp (During env fuel id p.name)
      (fun r s => env.Outcome fuel w id p old v true r s.scene) q := by
  refine (Act.wp_bind _ _).mpr (wp_spared (.of_touches (.report _ _) (by decide)) held fun a r same _ => ?_)
  cases a <;> exact same

theorem wp_validated {Q : Value → Point κ σ → Prop}
    (held : q.scene.held? id p.name = some (old, true))
    (then_ : ∀ x r, r.scene.held? id p.name = some (old, true) →
      env.Validates fuel q.world id p old v x → Q x r) :
    (Act.validated id p old v).wp (During env fuel id p.name) Q q := by
  unfold Act.validated
  unfold Environment.Validates at then_
  cases validator : p.validator with
  | none =>
    simp only [validator] at then_
    exact then_ v q held rfl
  | some method =>
    simp only [validator] at then_
    refine (Act.wp_bind _ _).mpr (wp_spared (.of_touches (.invoke _ _ _) (by decide)) held fun a r same ran => ?_)
    cases a with
    | ok result => exact then_ _ r same ⟨_, _, ran, rfl⟩
    | error failure =>
      refine (Act.wp_bind _ _).mpr ?_
      refine wp_spared (.of_touches (.noteFailure _ _ _) (by decide)) same fun _ t same' _ => ?_
      exact then_ v t same' ⟨_, _, ran, rfl⟩

theorem wp_commit {x : Value} (origin : Origin) (held : q.scene.held? id p.name = some (old, true)) :
    (Act.commit id p old x origin).wp (During env fuel id p.name)
      (fun r s => r = .ok true ∧ s.scene.held? id p.name = some (x, true)) q := by
  obtain ⟨slot, found, -, busy⟩ := Scene.slot?_of_held? held
  obtain ⟨c, there, declared⟩ := Option.bind_eq_some_iff.mp found
  refine Act.wp_withComponent (fun d here => ?_) fun out => by rw [there] at out; cases out
  cases there.symm.trans here
  simp only [declared, Act.wp_bind, Act.wp_modify]
  refine ⟨trivial, fun _ => ?_⟩
  refine wp_spared (x := x) (.of_touches (.spread _ _ _ _ _ _ _) (by decide)) ?_ fun _ r same _ => ⟨rfl, same⟩
  rw [Point.scene_change, Scene.held?_modifySlot, found, Option.map_some, busy]

theorem wp_attempt (origin : Origin) (held : q.scene.held? id p.name = some (old, true)) :
    (Act.attempt id p v origin).wp (During env fuel id p.name)
      (fun r s => env.Outcome fuel q.world id p old v true r s.scene) q := by
  unfold Act.attempt
  split
  · exact held
  · split
    · exact wp_refuse _ _ held
    · simp only [Act.wp_bind, Act.wp_scene, Scene.property_of_held? held]
      refine wp_validated held fun x r same validated => ?_
      rw [Act.wp_ite]
      split
      · exact same
      · next fresh =>
        unfold Property.checkKind
        by_cases fits : p.kind.accepts p.nullable x = true
        · rw [if_pos fits]
          refine Act.wp_mono _ (fun a t ended => ?_) (wp_commit origin same)
          rw [ended.1]
          exact ⟨x, validated, ended.2, fits, Bool.eq_false_iff.mpr fresh⟩
        · rw [if_neg fits]
          exact wp_refuse _ _ same

/-- A write to an idle slot makes it busy, goes through the checks and frees it. -/
theorem wp_write {Q : Except Fault Bool → Point κ σ → Prop} {c : Component κ} {slot : Slot}
    {origin : Origin} (there : q.scene.component? id = some c)
    (declared : c.schema.get? p.name = some p) (held : Keyed.get? c.slots p.name = some slot)
    (idle : slot.busy = false) (then_ : ∀ r : Point κ σ,
      r.world = ⟨q.scene.modify id fun c =>
        c.modifySlot p.name fun slot => { slot with busy := true }, q.world.store⟩ →
      r.scene.held? id p.name = some (slot.value, true) →
      (Act.attempt id p v origin).wp (During env fuel id p.name) (fun a s => Q a <| s.change <|
        s.scene.modify id fun c => c.modifySlot p.name fun slot => { slot with busy := false }) r) :
    (Act.write id p.name v origin).wp (During env fuel id p.name) Q q := by
  refine Act.wp_withComponent (fun d here => ?_) fun out => nomatch out.symm.trans there
  cases there.symm.trans here
  simp only [declared, held, idle, Bool.false_eq_true, ↓reduceIte, Act.wp_bind, Act.wp_modify]
  refine ⟨trivial, fun _ => ?_⟩
  have busy : (q.scene.modify id fun c => c.modifySlot p.name fun slot =>
      { slot with busy := true }).held? id p.name = some (slot.value, true) := by
    rw [Scene.held?_modifySlot, Scene.slot?, there, Option.bind_some, held, Option.map_some]
  exact Act.wp_mono _ (fun a s ended => ⟨trivial, fun _ => ended⟩) (then_ (q.change _) rfl busy)

end Outermost

section Outermost
variable {env : Environment κ σ} {fuel : Nat} {w : World κ σ} {id : ComponentId} {name : String} {v : Value}
  {origin : Origin}

theorem write_fulfils {c : Component κ} {p : Property} {slot : Slot} (there : w.scene.component? id = some c)
    (declared : c.schema.get? name = some p) (held : Keyed.get? c.slots name = some slot) (idle : slot.busy = false) :
    (Guarded κ σ id name).Fulfils ⟨[], w⟩ (env.trace (fuel + 1) (.write id name v origin) w) fun r q =>
      env.Outcome fuel ⟨w.scene.modify id fun c => c.modifySlot name fun slot => { slot with busy := true }, w.store⟩
        id p slot.value v false r q.scene := by
  obtain rfl : p.name = name := Schema.name_of_get? declared
  refine Environment.call_fulfils (Guarded.meets env id p.name) fuel (.write id p.name v origin) (p := ⟨[], w⟩) ?_
  refine wp_write there declared held idle fun q same busy => ?_
  refine Act.wp_mono _ (fun r s ended => ?_) (wp_attempt origin busy)
  rw [same] at ended
  exact ended.freed

/-- A write that comes up in the course of one to the same slot is discarded. -/
theorem discarded_of_write (idle : ¬w.scene.Busy id name) {u : Value} {origin' : Origin} {before after : World κ σ}
    {a : Except Fault Bool} (inside : .answer (.write id name u origin') before a after ∈
      (env.trace fuel (.write id name v origin) w).steps) : a = .ok false ∧ after = before := by
  cases fuel with
  | zero => cases inside
  | succ fuel =>
    suffices fulfils : (Guarded κ σ id name).Fulfils ⟨[], w⟩ (env.trace (fuel + 1) (.write id name v origin) w)
        fun _ _ => True by
      obtain ⟨front, back, split⟩ := List.append_of_mem inside
      have safe := (fulfils (Along.iff_splits.mpr fun _ _ _ _ => trivial)).1
      exact Along.iff_splits.mp safe front _ back split ⟨rfl, rfl⟩
    by_cases writes : ∃ c p slot, w.scene.component? id = some c ∧ c.schema.get? name = some p ∧
        Keyed.get? c.slots name = some slot
    · obtain ⟨c, p, slot, there, declared, held⟩ := writes
      have free : slot.busy = false := Bool.eq_false_iff.mpr fun busy =>
        idle ⟨slot, Option.bind_eq_some_iff.mpr ⟨c, there, held⟩, busy⟩
      exact fun fine => ⟨(write_fulfils there declared held free fine).1, fun _ _ _ => trivial⟩
    · refine Environment.call_fulfils (Guarded.meets env id name) fuel (.write id name v origin) (p := ⟨[], w⟩) ?_
      refine Act.wp_withComponent (fun c there => ?_) fun _ => trivial
      split
      · next p slot declared held => exact absurd ⟨c, p, slot, there, declared, held⟩ writes
      · trivial

end Outermost

/-- A write that finds its slot idle ends with the value it validated, which fits and is not the
old one, or with the old value. All writes to the slot that come up meanwhile are discarded. -/
theorem write_atomic (env : Environment κ σ) (fuel : Nat) (w : World κ σ) (id : ComponentId)
    (name : String) (v : Value) (origin : Origin) {c : Component κ} {p : Property} {slot : Slot}
    (there : w.scene.component? id = some c) (declared : c.schema.get? name = some p)
    (held : Keyed.get? c.slots name = some slot) (idle : slot.busy = false) :
    let marked := w.scene.modify id fun c =>
      c.modifySlot name fun slot => { slot with busy := true }
    let t := env.trace (fuel + 1) (.write id name v origin) w
    (∀ r w', t.result = some (r, w') →
      env.Outcome fuel ⟨marked, w.store⟩ id p slot.value v false r w'.scene) ∧
    ∀ v' origin' before a after, .answer (.write id name v' origin') before a after ∈ t.steps →
      a = .ok false ∧ after = before := by
  intro marked t
  have fulfils : (Guarded κ σ id name).Fulfils ⟨[], w⟩ t _ := write_fulfils there declared held idle
  obtain ⟨safe, ends⟩ := fulfils (Along.iff_splits.mpr fun _ _ _ _ => trivial)
  refine ⟨fun r w' ended => ends r w' ended, fun v' origin' before a after member => ?_⟩
  obtain ⟨front, back, split⟩ := List.append_of_mem member
  exact Along.iff_splits.mp safe front _ back split ⟨rfl, rfl⟩

def echoing : Environment Unit Unit where
  script _ o := match o with
    | .change id name _ _ => do
      let _ ← Script.request (.set id name (.string "again") true)
      return .ok .undefined
    | _ => return .ok .undefined
  apply _ _ store := (.undefined, store)

def echo : World Unit Unit where
  scene := { components := ⟨#[{ Component.new (Declaration.define {
    tag := "x-echo"
    properties := [.ofKind "said" .string]
    hooks := { changed := some () } }) ⟨1⟩ none with stage := .attached }]⟩ }
  store := ()

theorem write_atomic_echo : ∃ r w',
    (echoing.trace 9 (.write ⟨0⟩ "said" (.string "once") .code) echo).result = some (r, w') ∧
      r = .ok true ∧ w'.scene.held? ⟨0⟩ "said" = some (.string "once", false) := by
  have ends : ((echoing.trace 9 (.write ⟨0⟩ "said" (.string "once") .code) echo).result.map fun r =>
      match r.1 with | .ok b => b | .error _ => false) = some true := by decide +kernel
  obtain ⟨⟨r, w'⟩, ended, told⟩ := Option.map_eq_some_iff.mp ends
  cases r with
  | error fault => cases told
  | ok b =>
    cases told
    obtain ⟨x, validated, held, -⟩ :=
      (write_atomic echoing 8 echo ⟨0⟩ "said" (.string "once") .code rfl rfl rfl rfl).1 _ w' ended
    cases validated
    exact ⟨_, w', ended, rfl, held⟩

end LiveTree
