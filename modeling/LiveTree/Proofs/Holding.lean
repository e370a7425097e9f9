import LiveTree.Proofs.Atomicity
import LiveTree.Proofs.Footprint.Closed
import LiveTree.Proofs.Guards.Raised

/-! Slots are held. A slot changes by writes to it and in no other way: whatever else is done to the
tree, and also if components are made or get further properties, what is in a slot stays there, and
none becomes busy. -/
namespace LiveTree
variable {κ α β : Type} {id : ComponentId} {name : String}

theorem Scene.busy_iff_of_held? {s : Scene κ} {v : Value} {busy : Bool}
    (held : s.held? id name = some (v, busy)) : s.Busy id name ↔ busy = true := by
  obtain ⟨slot, found, -, rfl⟩ := slot?_of_held? held
  simp only [Busy, found, Option.some.injEq, exists_eq_left']

structure Scene.Holds (id : ComponentId) (name : String) (s t : Scene κ) : Prop where
  held : ∀ x, s.held? id name = some x → t.held? id name = some x
  free : t.Busy id name → s.Busy id name

namespace Scene.Holds
variable {s t : Scene κ}

theorem of_same (same : t.held? id name = s.held? id name) : s.Holds id name t :=
  ⟨fun _ held => same.trans held, fun busy => busy.of_held? same.symm⟩

theorem refl (s : Scene κ) : s.Holds id name s := of_same rfl

theorem same (holds : s.Holds id name t) (busy : s.Busy id name) :
    t.held? id name = s.held? id name := by
  obtain ⟨slot, found, -⟩ := busy
  have held : s.held? id name = some (slot.value, slot.busy) := by rw [held?, found, Option.map_some]
  rw [holds.held _ held, held]

theorem of_alike {F : List Field} (alike : s.Alike F t) (out : .components ∉ F ∧ .values ∉ F) :
    s.Holds id name t := by
  refine of_same ?_
  have view (s : Scene κ) : s.held? id name =
      ((s.component? id).map fun c => c.view .values name).bind fun held => held := by
    rw [held?, slot?]
    cases s.component? id <;> rfl
  rw [view, view, alike.map_component? out.1 (fun c => c.view .values name)]
  exact fun c d same => congrFun (same.view .values out.2) name

theorem of_components (same : t.components = s.components) : s.Holds id name t :=
  of_same (by rw [held?, slot?, component?, same, held?, slot?, component?])

theorem other {id' : ComponentId} {key : String} (apart : ¬(id' = id ∧ key = name))
    (f : Slot → Slot) : s.Holds id name (s.modify id' fun c => c.modifySlot key f) := by
  refine of_same ?_
  rw [held?, slot?_modifySlot, if_neg fun both => apart ⟨both.1, both.2.symm⟩, held?]

/-- The slots of a new component are free. -/
theorem push (s : Scene κ) (d : Definition κ) (x : NodeId) (owner : Option ComponentId) :
    s.Holds id name { s with components := s.components.push (.new d x owner) } := by
  constructor
  · intro held there
    obtain ⟨slot, found, rfl⟩ := Option.map_eq_some_iff.mp there
    obtain ⟨c, here, declared⟩ := Option.bind_eq_some_iff.mp found
    obtain ⟨e, later, same⟩ := (Alike.push s (.new d x owner)).component id c here
    rw [held?, slot?, later, Option.bind_some]
    have values : e.view .values = c.view .values := same.view .values (by decide)
    rw [Component.held_of_view values, declared, Option.map_some]
  · rintro ⟨slot, found, busy⟩
    obtain ⟨c, there, declared⟩ := Option.bind_eq_some_iff.mp found
    rw [component?, Arena.get?_push] at there
    split at there
    · cases there
      have free := Component.marked_new d x owner (.slot name)
      rw [Component.marked, declared, Option.any_some, busy] at free
      cases free
    · exact ⟨slot, Option.bind_eq_some_iff.mpr ⟨c, there, declared⟩, busy⟩

/-- A component that gets further slots gets free ones. -/
theorem adopt (s : Scene κ) (other : ComponentId) (d : Definition κ) (added : Capability κ) :
    s.Holds id name (s.modify other fun c => c.adopt d added) := by
  have filled (c : Component κ) : Keyed.get? (c.adopt d added).slots name =
    Keyed.get? (c.slots.fill d.schema) name := rfl
  constructor
  · intro held there
    obtain ⟨slot, found, rfl⟩ := Option.map_eq_some_iff.mp there
    obtain ⟨c, here, declared⟩ := Option.bind_eq_some_iff.mp found
    rw [held?, slot?, component?_modify, here]
    split
    · rw [Option.map_some, Option.bind_some, filled, Slots.get?_fill, declared, Option.some_or,
        Option.map_some]
    · rw [Option.bind_some, declared, Option.map_some]
  · rintro ⟨slot, found, busy⟩
    obtain ⟨c, there, declared⟩ := Option.bind_eq_some_iff.mp found
    rw [component?_modify] at there
    split at there
    · obtain ⟨e, here, rfl⟩ := Option.map_eq_some_iff.mp there
      rcases Slots.eq_of_get?_fill d.schema declared with before | free
      · exact ⟨slot, Option.bind_eq_some_iff.mpr ⟨e, here, before⟩, busy⟩
      · cases free.symm.trans busy
    · exact ⟨slot, Option.bind_eq_some_iff.mpr ⟨c, there, declared⟩, busy⟩

end Scene.Holds

def Act.Holds (id : ComponentId) (name : String) (m : Act κ α) : Prop :=
  ∀ s, m.Within (Scene.Holds id name) (fun _ => True) s

namespace Act.Holds

theorem of_touches {F : List Field} {C : List Call.Kind} {m : Act κ α} (touches : m.Touches F C)
    (out : .components ∉ F ∧ .values ∉ F) : m.Holds id name := fun s =>
  (touches s).mono (fun _ _ alike => .of_alike alike out) fun _ _ => trivial

theorem update {f : Scene κ → Scene κ} (holds : ∀ s : Scene κ, s.Holds id name (f s)) :
    (Act.update f).Holds id name := fun s => ⟨holds s, trivial⟩

theorem bind {m : Act κ β} {f : β → Act κ α} (first : m.Holds id name)
    (second : ∀ b, (f b).Holds id name) : (m >>= f).Holds id name := fun s =>
  (first s).bind fun b t => second b t

theorem closed : Closed fun {_} (m : Act κ _) => m.Holds id name where
  of_touches touches out := of_touches touches ⟨out _ (by decide), out _ (by decide)⟩
  bind := bind

theorem edit (f : Document → Document) : (Act.edit f : Act κ Unit).Holds id name :=
  update fun _ => .of_components rfl

theorem instantiate (x : NodeId) (d : Definition κ) (owner : Option ComponentId) :
    (Act.instantiate x d owner).Holds id name := by
  refine closed.composes.sceneBind fun s => bind (update fun t => .push t d x owner) fun _ => ?_
  refine bind (of_touches (.setStage _ _) (by decide)) fun _ => ?_
  refine bind (of_touches (.tellParts _ _) (by decide)) fun _ => ?_
  exact bind (of_touches (.runHook _ _ _) (by decide)) fun _ => closed.composes.pure _

theorem createElement (tag : String) : (Act.createElement tag : Act κ _).Holds id name :=
  closed.composes.createElement (fun _ => edit _) instantiate tag

theorem configure (other : ComponentId) : (Act.configure other : Act κ _).Holds id name :=
  of_touches (.configure other) (by decide)

theorem connect (other : ComponentId) : (Act.connect other : Act κ _).Holds id name :=
  closed.connect createElement configure other

theorem register (d : Definition κ) : (Act.register d).Holds id name :=
  closed.composes.register connect d (fun _ => of_touches (.note _ _) (by decide))
    (fun _ => update fun _ => .of_components rfl) (fun k => of_touches (.registered k) (by decide))
    fun x _ owner => instantiate x _ owner

theorem addCapability (tag : String) (c : Capability κ) :
    (Act.addCapability tag c).Holds id name := by
  refine closed.composes.sceneBind fun s => ?_
  split
  · exact closed.composes.pure _
  · refine bind (update fun _ => .of_components rfl) fun _ => ?_
    exact bind (closed.composes.each _ fun other => update fun t => .adopt t other _ _) fun _ =>
      closed.composes.pure _

/-- A write to another slot. -/
theorem write {other : ComponentId} {key : String} (apart : ¬(other = id ∧ key = name)) (v : Value)
    (origin : Origin) : (Act.write other key v origin : Act κ _).Holds id name := by
  have put (key : String) (apart : ¬(other = id ∧ key = name)) (f : Slot → Slot) :
      (Act.modify other fun c : Component κ => c.modifySlot key f).Holds id name :=
    update fun _ => .other apart f
  refine closed.composes.withComponent fun c => ?_
  split
  · next p _ declared _ =>
    obtain rfl : p.name = key := Schema.name_of_get? declared
    refine closed.composes.ite (closed.composes.pure _) (bind (put _ apart _) fun _ => ?_)
    refine bind ?_ fun _ => bind (put _ apart _) fun _ => closed.composes.pure _
    refine closed.composes.attempt (fun _ => of_touches (.refuse _ _) (by decide))
      (fun _ => of_touches (.validated _ _ _ _) (by decide)) fun _ _ => ?_
    exact closed.composes.commit (put _ apart _) fun _ _ =>
      of_touches (.spread _ _ _ _ _ _ _) (by decide)
  · exact closed.composes.pure _

theorem request (r : Request κ) : r.act.Holds id name := by
  cases r with
  | register d => exact register d
  | addCapability tag c => exact addCapability tag c
  | createElement tag => exact createElement tag
  | appendChild parent child => exact closed.appendChild createElement configure parent child
  | finishLoading =>
    exact closed.finishLoading createElement configure (of_touches .resolveWaiting (by decide))
  | _ =>
    refine of_touches (.request _) ?_
    dsimp only [Touches.requested]
    decide

end Act.Holds

namespace Act
variable {σ : Type} {K : Contract κ σ} {Q : Except Fault Bool → Point κ σ → Prop} {q : Point κ σ}
  {p : Property} {v old : Value} {origin : Origin}

/-- A commit puts the value into the slot and takes the change further. -/
theorem wp_commit (held : q.scene.held? id p.name = some (old, true))
    (put : ∀ c slot, q.scene.component? id = some c → ∀ t,
      t = (q.scene.modify id fun c => c.modifySlot p.name fun slot => { slot with value := v }) →
      t.held? id p.name = some (v, true) → K.Takes q.past (.change q.scene t)
        ((Act.spread id p c slot old v origin).wp K (fun _ r => Q (.ok true) r) (q.change t))) :
    (Act.commit id p old v origin).wp K Q q := by
  obtain ⟨slot, found, -, busy⟩ := Scene.slot?_of_held? held
  obtain ⟨c, there, declared⟩ := Option.bind_eq_some_iff.mp found
  refine wp_withComponent (fun d here => ?_) fun out => nomatch out.symm.trans there
  cases there.symm.trans here
  simp only [declared, wp_bind, wp_modify]
  refine put c slot there _ rfl ?_
  rw [Scene.held?_modifySlot, found, Option.map_some, busy]

/-- An attempt fails, or it commits a value. Until then there are only the checks, whose own changes
and calls have to keep to `R`. -/
theorem wp_attempt {R : Point κ σ → Prop}
    (held : ∀ r, R r → r.scene.held? id p.name = some (old, true))
    (checks : ∀ {α : Type} {F : List Field} {C : List Call.Kind} {m : Act κ α}, m.Touches F C →
      F ⊆ [.journal] → .deliver ∉ C → ∀ r, R r → m.wp K (fun _ s => R s) r)
    (failed : ∀ a r, R r → a ≠ .ok true → Q a r)
    (commit : ∀ x r, R r → (Act.commit id p old x origin).wp K Q r) (start : R q) :
    (Act.attempt id p v origin).wp K Q q := by
  have refuse (fault : Fault) (r : Point κ σ) (kept : R r) : (Act.refuse id fault).wp K Q r := by
    refine (wp_bind _ _).mpr (wp_mono _ (fun a s kept => failed _ s kept ?_)
      (checks (.report _ _) (by simp) (by decide) r kept))
    cases a <;> exact nofun
  unfold Act.attempt
  split
  · exact failed _ q start nofun
  split
  · exact refuse _ q start
  simp only [wp_bind, wp_scene, Scene.property_of_held? (held q start)]
  refine wp_mono _ (fun x r kept => ?_) (checks (.validated _ _ _ _) (by simp) (by decide) q start)
  rw [wp_ite]
  split
  · exact failed _ r kept nofun
  split
  · exact refuse _ r kept
  · exact commit x r kept

/-- A write to an idle slot makes it busy, goes through the checks and frees it. -/
theorem wp_write {c : Component κ} {slot : Slot} (there : q.scene.component? id = some c)
    (declared : c.schema.get? p.name = some p) (held : Keyed.get? c.slots p.name = some slot)
    (idle : slot.busy = false)
    (marked : ∀ t, t = (q.scene.modify id fun c => c.modifySlot p.name fun slot =>
        { slot with busy := true }) → t.held? id p.name = some (slot.value, true) →
      K.Takes q.past (.change q.scene t) ((Act.attempt id p v origin).wp K (fun a r =>
        K.Takes r.past (.change r.scene (r.scene.modify id fun c => c.modifySlot p.name fun slot =>
            { slot with busy := false }))
          (Q a (r.change (r.scene.modify id fun c => c.modifySlot p.name fun slot =>
            { slot with busy := false })))) (q.change t))) :
    (Act.write id p.name v origin).wp K Q q := by
  refine wp_withComponent (fun d here => ?_) fun out => nomatch out.symm.trans there
  cases there.symm.trans here
  simp only [declared, held, idle, Bool.false_eq_true, ↓reduceIte, wp_bind, wp_modify]
  refine marked _ rfl ?_
  rw [Scene.held?_modifySlot, Scene.slot?, there, Option.bind_some, held, Option.map_some]

/-- A write that does not find an idle slot is answered with no at once. -/
theorem wp_write_or (no : Q (.ok false) q)
    (yes : ∀ c p slot, q.scene.component? id = some c → c.schema.get? name = some p →
      Keyed.get? c.slots name = some slot → slot.busy = false →
      (Act.write id name v origin).wp K Q q) : (Act.write id name v origin).wp K Q q := by
  cases there : q.scene.component? id with
  | none => exact wp_withComponent (fun c here => nomatch there.symm.trans here) fun _ => no
  | some c =>
    cases declared : c.schema.get? name with
    | none =>
      refine wp_withComponent (fun d here => ?_) fun _ => no
      cases there.symm.trans here
      rw [declared]
      exact no
    | some p =>
      cases held : Keyed.get? c.slots name with
      | none =>
        refine wp_withComponent (fun d here => ?_) fun _ => no
        cases there.symm.trans here
        rw [declared, held]
        exact no
      | some slot =>
        cases busy : slot.busy with
        | false => exact yes c p slot there declared held busy
        | true =>
          refine Guarded.wp_write_busy ⟨slot, ?_, busy⟩ v origin no
          rw [Scene.slot?, there, Option.bind_some, held]

end Act
end LiveTree
