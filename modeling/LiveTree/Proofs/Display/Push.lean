import LiveTree.Proofs.Display.Course

/-! What a write sets off passes by the spots that show other properties: it leaves them where they are, and what
they show. No consumer code runs in between. -/
namespace LiveTree
variable {κ : Type}

def Call.Local : Call κ → Prop
  | .write .. | .apply .. => True
  | .service x _ _ => x.rebinds = false
  | .deliver _ e => e.bubbles = false
  | .callback .. | .connect _ | .release _ => False

abbrev Act.Bypasses (o : Spot) (s : Scene κ) {α : Type} (m : Act κ α) : Prop := m.Upholds o.In o.Kept Call.Local s

namespace Act.Bypasses
variable {α : Type} {o : Spot} {s : Scene κ} {id : ComponentId} {p : Property} {name : String}

theorem update {f : Scene κ → Scene κ} (alike : ∀ t : Scene κ, t.Alike Field.coursing (f t))
    (heard : ∀ (t : Scene κ) l x, (f t).listeners.get? l = some (some x) →
      t.listeners.get? l = some (some x) ∨ x.isWriteBack)
    (kept : ∀ t, o.In t → o.shown? (f t) = o.shown? t ∧
      (f t).property o.id o.property = t.property o.id o.property) : (Act.update f).Bypasses o s :=
  Upholds.update fun t here _ => ⟨here.later (alike t) (heard t), alike t, (kept t here).1, (kept t here).2⟩

theorem of_touches {F : List Field} {C : List Call.Kind} {m : Act κ α} (touches : m.Touches F C)
    (out : (∀ f ∈ F, f ∈ Field.coursing) ∧ .document ∉ F ∧ .listeners ∉ F ∧ .values ∉ F)
    (calls : ∀ x ∈ C, x = .write ∨ x = .apply) : m.Bypasses o s := by
  refine .of_within (fun t u here alike => ?_) (fun c kind => ?_) touches
  · obtain ⟨within, document, listeners, values⟩ := out
    have course := alike.mono within
    have known : .components ∉ F := fun inside => absurd (within _ inside) (by decide)
    have documents : u.document = t.document := alike.view .document document
    have tables : u.listeners = t.listeners := alike.view .listeners listeners
    refine ⟨here.later course fun l x found => .inl (tables ▸ found), course, ?_, alike.property known values _ _⟩
    rw [Spot.shown?, documents, Spot.shown?]
  · cases c with
    | write id name v origin => trivial
    | apply f arguments => trivial
    | callback k x => cases x <;> exact nomatch calls _ kind
    | _ => exact nomatch calls _ kind

theorem edit {f : Document → Document} (reworks : ∀ d : Document, d.Reworks (f d))
    (keeps : ∀ t : Scene κ, o.In t →
      (f t.document).display? o.node o.target = t.document.display? o.node o.target) :
    (Act.edit f : Act κ Unit).Bypasses o s :=
  update (fun t => (Scene.Alike.edit t (reworks t.document)).mono (by decide)) (fun _ _ _ found => .inl found)
    fun t here => ⟨keeps t here, rfl⟩

theorem modifySlot {f : Slot → Slot} (notify : ∀ slot, (f slot).notify = slot.notify)
    (keeps : id = o.id → name = o.property → ∀ slot, (f slot).value = slot.value) :
    (Act.modify id fun c : Component κ => c.modifySlot name f).Bypasses o s :=
  update (fun t => (Scene.Alike.modify t id fun c => .slotValues c name notify).mono (by decide))
    (fun _ _ _ found => .inl found)
    fun t _ => ⟨rfl, t.property_modifySlot fun same key => keeps same key.symm⟩

theorem noteFailure (id : ComponentId) (name : String) (failure : Failure) :
    (Act.noteFailure id name failure : Act κ _).Bypasses o s :=
  of_touches (.noteFailure _ _ _) (by decide) (by decide)

theorem modifyBinding (id : ComponentId) (site : Nat) (target : String) {f : Binding → Binding}
    (keeps : ∀ b, (f b).still = b.still) : (Act.modifyBinding id site target f : Act κ _).Bypasses o s :=
  of_touches (.modifyBinding _ _ _ keeps) (by decide) (by decide)

theorem listenBack (x : NodeId) (event : String) (id : ComponentId) (site : Nat) (target : String) :
    (Act.listen x event (.writeBack id site target)).Bypasses o s := by
  -- The number of the listener is that of the scene that was looked at.
  intro σ p here since
  have course := (Scene.Alike.enrol p.scene (by simp) (by simp)
    (.listen p.scene x event (.writeBack id site target))).mono (G := Field.coursing) (by decide)
  have later := here.later course fun l y found => by
    rw [Arena.get?_push] at found
    split at found
    · cases found
      exact .inr trivial
    · exact .inl found
  have kept := IsTrans.trans _ _ _ since ⟨course, Document.display?_modify fun _ _ => rfl, rfl⟩
  exact Upholding.takes_change here later ⟨later, kept⟩

theorem installWriteBack (id : ComponentId) (site : Nat) (x : NodeId) (b : Binding) :
    (Act.installWriteBack id site x b : Act κ _).Bypasses o s :=
  Upholds.installWriteBack (fun _ _ => of_touches (.modifyNotify _ _) (by decide) (by decide))
    (fun _ _ => listenBack _ _ _ _ _) fun _ _ => modifyBinding _ _ _ fun _ => rfl

/-- A value goes to another node, or to a target with another attribute. -/
theorem assign {x : NodeId} {b : Binding} (apart : x ≠ o.node ∨ attributeOf b.target ≠ attributeOf o.target)
    (v : Value) : (Act.assign x b v : Act κ _).Bypasses o s := by
  refine .sceneBind fun t _ _ => .ite (fun text => ?_) fun _ => ?_
  · refine edit (fun d => by simp) fun u here => Document.display?_setText _ here.there ?_
    refine apart.imp_right fun other same => other ?_
    rw [text, same]
  · split
    · exact .bind (.ask _ trivial) fun _ => .pure _
    · exact .ite (fun _ => edit (fun d => by simp) fun u _ => Document.display?_show _ _ apart) fun _ => .pure _

theorem announce (x : NodeId) (p : Property) (old new : Value) :
    (Act.announce x p old new : Act κ _).Bypasses o s :=
  .sceneBind fun _ _ _ => .ite (fun _ => .ask _ rfl) fun _ => .pure _

theorem reflect {x : NodeId} (apart : x ≠ o.node) (p : Property) (v : Value) :
    (Act.reflect x p v : Act κ _).Bypasses o s := by
  unfold Act.reflect
  cases Codec.write p.kind p.nullable v with
  | none => exact edit (fun d => by simp) fun t _ => Document.display?_modify fun same => absurd same apart
  | some text => exact edit (fun d => by simp) fun t _ => Document.display?_modify fun same => absurd same apart

theorem writeBackProperty (id : ComponentId) (name : String) :
    (Act.writeBackProperty id name : Act κ _).Bypasses o s :=
  of_touches (.writeBackProperty _ _) (by decide) (by decide)

section Methods
variable [IsEmpty κ]

theorem invoke {method : String} (fixes : s.Fixes id method) (arguments : List Value) :
    (Act.invoke id method arguments : Act κ _).Bypasses o s := by
  refine .sceneBind fun t _ since => ?_
  split
  · next k _ => exact isEmptyElim k
  · next x found =>
    obtain ⟨c, there, named⟩ := Option.bind_eq_some_iff.mp found
    exact .ask (.service x id arguments) (since.course.fixes (by decide) fixes c there x named)
  · exact .pure _

theorem notify {method : String} (fixes : s.Fixes id method) (arguments : List Value) :
    (Act.notify id method arguments : Act κ _).Bypasses o s :=
  Upholds.notify (invoke fixes arguments) fun _ => noteFailure _ _ _

theorem push {site : Nat} {target : String} (other : ¬(id = o.id ∧ site = o.site ∧ target = o.target)) :
    (Act.push id site target : Act κ _).Bypasses o s := by
  refine Upholds.push (fun t x b _ _ _ => installWriteBack _ _ _ _) (fun _ {f} keeps => modifyBinding _ _ _ keeps)
    (fun t x b here _ bound => ?_) fun t x b v here _ bound => ?_
  · obtain ⟨c, there, held⟩ := t.binding?_of_bound? bound
    refine Upholds.evaluate fun u method arguments values _ since reads => ?_
    exact invoke (since.course.fixes (by decide) (here.steady _ _ (.computed there held reads))) values
  · refine assign ?_ v
    rw [here.firm.target_eq bound]
    exact here.elsewhere bound other

/-- The bindings of another property or of another component. -/
theorem pushBound (other : ¬(id = o.id ∧ name = o.property)) :
    (Act.pushBound id (some name) : Act κ _).Bypasses o s := by
  refine .withComponent fun t c here _ found => .ite (fun _ => .eachOf _ fun ⟨i, b⟩ inside => push ?_) fun _ => .pure _
  rintro ⟨rfl, rfl, same⟩
  obtain ⟨listed, reads⟩ := List.mem_filter.mp inside
  cases own : c.bindings with
  | none => rw [own] at listed; cases listed
  | some tree =>
    rw [own] at listed
    obtain ⟨x, bound⟩ := here.firm.bound?_of_mem found own listed
    rw [same] at bound
    have reads : name ∈ b.dependencies := List.contains_iff_mem.mp reads
    rw [o.dependencies_of_still (here.still_of_bound? bound).2, List.mem_singleton] at reads
    exact other ⟨rfl, reads⟩

theorem validated (declared : s.Declares id p) (steady : s.Steady) (old v : Value) :
    (Act.validated id p old v : Act κ _).Bypasses o s :=
  Upholds.validated (fun _ named => invoke (steady _ _ (.validator declared named)) _) fun _ _ => noteFailure _ _ _

theorem tellOfChange (declared : s.Declares id p) (old new : Value) :
    (Act.tellOfChange id p old new : Act κ _).Bypasses o s := by
  refine Upholds.tellOfChange (fun t f => ?_) (fun _ _ k _ _ _ _ => isEmptyElim k)
    (fun t _ here since named => ?_) fun _ _ x _ _ _ _ => isEmptyElim x.callback
  · exact of_touches (F := [.changing]) (C := []) (.modify fun c => .put c .changing _ (by decide)) (by decide)
      (by decide)
  · have declared := (since.course.declares (by decide)).mp declared
    exact notify (here.steady _ _ (.observer declared named)) _

theorem commit (declared : s.Declares id p) (other : ¬(id = o.id ∧ p.name = o.property)) (old v : Value)
    (origin : Origin) : (Act.commit id p old v origin : Act κ _).Bypasses o s := by
  refine .withComponent fun t c here since found => ?_
  split
  · exact .pure _
  · have declared := (since.course.declares (by decide)).mp declared
    refine .bind (modifySlot (fun _ => rfl) fun same key => absurd ⟨same, key⟩ other) fun _ => .bind ?_ fun _ => .pure _
    exact Upholds.composes.spread (reflect (here.node_ne found) _ _) (tellOfChange declared _ _) (announce _ _ _ _)
      (pushBound other) (writeBackProperty _ _) _

theorem attempt (declared : s.Declares id p) (steady : s.Steady) (other : ¬(id = o.id ∧ p.name = o.property))
    (v : Value) (origin : Origin) : (Act.attempt id p v origin : Act κ _).Bypasses o s :=
  Upholds.composes.attempt (fun _ => of_touches (.refuse _ _) (by decide) (by decide))
    (fun _ => validated declared steady _ _) fun _ _ => commit declared other _ _ _

/-- A write to another slot. -/
theorem write (other : ¬(id = o.id ∧ name = o.property)) (v : Value) (origin : Origin) :
    (Act.write id name v origin : Act κ _).Bypasses o s := by
  refine .withComponent fun t c here _ found => ?_
  split
  · next p slot declared held =>
    have named : p.name = name := Schema.name_of_get? declared
    have marked (busy : Bool) : (Act.modify id fun c : Component κ => c.modifySlot name fun slot =>
        { slot with busy := busy }).Bypasses o t := modifySlot (fun _ => rfl) fun _ _ _ => rfl
    refine .ite (fun _ => .pure _) fun _ => .bind (marked true) fun _ => .bind ?_ fun _ =>
      .bind (marked false) fun _ => .pure _
    exact attempt ⟨c, found, by rw [named]; exact declared⟩ here.steady (by rw [named]; exact other) v origin
  · exact .pure _

theorem hear {l : Listener κ} {i : Nat} (found : s.listeners.get? i = some (some l)) (steady : s.Steady)
    (e : Event) : (Act.hear l e).Bypasses o s := by
  unfold Act.hear
  split
  · next k => exact isEmptyElim k
  · exact notify (steady _ _ (.handler found)) _
  · exact of_touches (.writeBack _ _ _ _) (by decide) (by decide)
  · refine .sceneBind fun t _ _ => ?_
    split
    · exact .bind (.ask _ trivial) fun _ => .pure _
    · exact .pure _

theorem deliver (x : NodeId) {e : Event} (stays : e.bubbles = false) :
    (Act.deliver x e : Act κ _).Bypasses o s :=
  Upholds.deliver stays fun _ _ _ e here _ found => hear found here.steady e

end Methods

theorem service {x : Service} (fixed : x.rebinds = false) (id : ComponentId) (arguments : List Value) :
    (Act.service x id arguments : Act κ _).Bypasses o s := by
  unfold Act.service
  extract_lets text
  split
  · exact .bind (of_touches (.log _ _ _) (by decide) (by decide)) fun _ => .pure _
  · exact .bind (of_touches (.localize _ _ _) (by decide) (by decide)) fun _ => .pure _
  · split
    · exact of_touches (.addMessages _ _ _) (by decide) (by decide)
    · exact .pure _
  · cases fixed
  · cases fixed

end Act.Bypasses
end LiveTree
