import LiveTree.Proofs.Display.Landing
import LiveTree.Proofs.Display.Life
import LiveTree.Proofs.Readiness

/-! What a committed write shows. The targets that are bound to the written property show the value that it has
now; the other ones show what they showed, unless the write has set off writes of the properties that they read. -/
namespace LiveTree
variable {κ σ : Type}

theorem Environment.answer_of_set {env : Environment κ σ} {fuel : Nat} {id : ComponentId} {name : String} {v : Value}
    {notify : Bool} {w w' : World κ σ} {r : Except Fault Bool}
    (played : env.play fuel (.request (.set id name v notify)) w = some (r, w')) :
    env.answer fuel (.write id name v (if notify then .code else .quiet)) w = some (r, w') := by
  rw [play, Script.request, Script.run, Request.act, Act.ask, Act.run] at played
  split at played
  · next r w' ran =>
    cases played
    split at ran
    · next answered =>
      cases ran
      exact answered
    · cases ran
  · cases played

structure Scene.Showing (s : Scene κ) (id : ComponentId) : Prop where
  done : ∃ c ∈ s.component? id, c.completed = true ∧ c.owner = none
  distinct : ∀ c ∈ s.component? id, ∀ t ∈ c.bindings, ∀ x ∈ t.bindings, ∀ y ∈ t.bindings, x.1 = y.1 →
    attributeOf x.2.target = attributeOf y.2.target → x.2.target = y.2.target

instance (s : Scene κ) (id : ComponentId) : Decidable (s.Showing id) :=
  decidable_of_iff (_ ∧ _) ⟨fun both => ⟨both.1, both.2⟩, fun showing => ⟨showing.done, showing.distinct⟩⟩

instance (s : Scene κ) (x : NodeId) (target : String) : Decidable (s.Plain x target) :=
  inferInstanceAs (Decidable (_ ∧ _))

theorem Scene.Busy.raised {s : Scene κ} {id : ComponentId} {name : String} (busy : s.Busy id name) :
    s.raised (.component id (.slot name)) = true := by
  obtain ⟨slot, found, busy⟩ := busy
  obtain ⟨c, there, held⟩ := Option.bind_eq_some_iff.mp found
  rw [Scene.raised, there, Option.any_some, Component.marked, held]
  exact busy

section
variable [IsEmpty κ] {env : Environment κ σ} {w w' : World κ σ} {o : Spot} {fuel : Nat} {name : String} {v : Value}

theorem Scene.Showing.inside (showing : w.scene.Showing o.id) (reached : env.Reachable w)
    (steady : w.scene.Steady) (bound : w.scene.bound? o.id o.site o.target = some (o.node, o.binding))
    (plain : w.scene.Plain o.node o.target) : o.In w.scene := by
  have firm := (Scene.founded_of_reachable reached).firm
  refine ⟨firm, steady, showing.done, by rw [bound]; rfl, plain, fun target x b other same => ?_⟩
  obtain ⟨c, t, found, own, -, held⟩ := w.scene.component_of_bound? bound
  obtain ⟨d, u, found', own', -, held'⟩ := w.scene.component_of_bound? other
  cases found.symm.trans found'
  cases own.symm.trans own'
  have distinct := showing.distinct c found t own _ (BindingTree.mem_bindings held') _ (BindingTree.mem_bindings held)
  rw [← firm.target_eq other, ← firm.target_eq bound] at same ⊢
  exact distinct rfl same

/-- After a committed write of its property the spot shows what it reads of the new value. -/
theorem Spot.shows_of_write (inside : o.In w.scene) (idle : ∀ g, w.scene.raised g = false) {origin : Origin}
    (written : env.answer fuel (.write o.id o.property v origin) w = some (.ok true, w')) :
    ∃ u, o.Shows u (o.landed (o.shown? w.scene) u) w'.scene := by
  cases fuel with
  | zero => cases written
  | succ fuel =>
    have shows : o.Shows (w.scene.property o.id o.property) (o.shown? w.scene) w.scene := ⟨inside, rfl, idle _, rfl⟩
    have fulfils := Act.fulfils (Environment.meets (Watching.meets env o) fuel) _
      (Watching.wp_land_write (p := ⟨[], w⟩) shows v origin)
    have ended := (env.result_trace (fuel + 1) (.write o.id o.property v origin) w).trans written
    refine (fulfils (Along.iff_splits.mpr fun front x back same commits => ?_)).2 _ w' ended rfl
    -- The slot is idle before the write, so all other writes of it are discarded.
    cases x with
    | answer c before a after =>
      cases c with
      | write id name u origin' =>
        obtain ⟨rfl, rfl, done⟩ := commits
        have busy : ¬w.scene.Busy o.id o.property := fun busy => nomatch (idle _).symm.trans busy.raised
        have nested : .answer (.write o.id o.property u origin') before a after ∈
            (env.trace (fuel + 1) (.write o.id o.property v origin) w).steps := by
          rw [Environment.trace, same]
          simp
        cases done.symm.trans (discarded_of_write busy nested).1
      | _ => exact commits
    | _ => exact commits

/-- Where nothing writes the property of the spot, the spot shows what it showed. -/
theorem Spot.shown_of_record (inside : o.In w.scene) {id : ComponentId} {notify : Bool} {r : Except Fault Bool}
    (played : env.play fuel (.request (.set id name v notify)) w = some (r, w'))
    (spared : ∀ x ∈ (env.record fuel (.request (.set id name v notify)) w).steps, ¬x.Commits o.id o.property) :
    o.shown? w'.scene = o.shown? w.scene := by
  have pre : (Script.request (.set id name v notify)).wp (Watching σ o)
      (fun _ q => o.shown? q.scene = o.shown? w.scene) ⟨[], w⟩ := by
    refine ⟨trivial, fun _ => ⟨trivial, fun a q ended => ⟨trivial, fun uncommitted => ?_⟩⟩⟩
    exact ((ended.2 trivial inside).resolve_left uncommitted).2.shown
  have ended := (env.result_record fuel (.request (.set id name v notify)) w).trans played
  refine (Environment.record_fulfils (Watching.meets env o) fuel _ pre ?_).2 _ w' ended
  exact Along.iff_splits.mpr fun front x back same => spared x (by rw [same]; simp)

end

/-- A committed write is pushed to exactly what depends on it. No consumer code is called, nothing that is called
adds or removes bindings, and the written component is completed and has no owner. Then at each plain node where it
binds a target the target shows after the write what the binding makes of the value that it reads now, if the
binding reads the written property and that value is not undefined. In all other cases the target shows what it
showed before, unless the write has set off a write of the property that the binding reads. -/
theorem write_shows [IsEmpty κ] (env : Environment κ σ) {w w' : World κ σ} (reached : env.Reachable w)
    (steady : w.scene.Steady) {fuel : Nat} {name : String} {v : Value} {notify : Bool} (o : Spot)
    (showing : w.scene.Showing o.id)
    (written : env.play fuel (.request (.set o.id name v notify)) w = some (.ok true, w'))
    (bound : w.scene.bound? o.id o.site o.target = some (o.node, o.binding))
    (plain : w.scene.Plain o.node o.target) :
    (o.binding.dependsOn name = true → o.shown? w'.scene =
      if (o.value w'.scene).isUndefined then o.shown? w.scene
      else some (o.binding.display (o.binding.render (o.value w'.scene)))) ∧
    (o.binding.dependsOn name = false →
      (∀ x ∈ (env.record fuel (.request (.set o.id name v notify)) w).steps, ¬x.Commits o.id o.property) →
      o.shown? w'.scene = o.shown? w.scene) := by
  have inside := showing.inside reached steady bound plain
  refine ⟨fun reads => ?_, fun _ => Spot.shown_of_record inside written⟩
  obtain rfl : name = o.property := by
    rw [Binding.dependsOn, o.dependencies_of_still rfl] at reads
    simpa using reads
  obtain ⟨u, shows⟩ := Spot.shows_of_write inside (w.scene.idle_iff.mp reached.idle) (Environment.answer_of_set written)
  obtain ⟨c, found, -⟩ := shows.inside.done
  rw [o.value_eq found, shows.property]
  exact shows.shown

def Scene.spot? (s : Scene κ) (id : ComponentId) (site : Nat) (target : String) : Option Spot :=
  (s.bound? id site target).bind fun y =>
    match reads : y.2.source with
    | .property path negate => some ⟨id, site, target, y.1, y.2, path, negate, reads⟩
    | _ => none

theorem Scene.bound?_of_spot? {s : Scene κ} {id : ComponentId} {site : Nat} {target : String} {o : Spot}
    (here : s.spot? id site target = some o) :
    o.id = id ∧ s.bound? o.id o.site o.target = some (o.node, o.binding) := by
  obtain ⟨y, bound, here⟩ := Option.bind_eq_some_iff.mp here
  split at here
  · cases here
    exact ⟨rfl, bound⟩
  · cases here

def greeting : Script Empty Unit Unit := do
  let _ ← Script.request (.register (Declaration.define {
    tag := "x-card"
    properties := [.ofKind "name" .string, .ofKind "mood" .string]
    template := some "<p>Dear [[name]]</p><i title='[[mood]]'></i>" }))
  let x ← Script.request (.createElement "x-card")
  Script.request (.appendChild Document.root x)
  let _ ← Script.request (.set ⟨0⟩ "mood" (.string "merry") true)

def introducing : Script Empty Unit (Except Fault Bool) := .request (.set ⟨0⟩ "name" (.string "Ada") true)

theorem write_shows_greeting : ∃ w w' o o',
    silent.play 40 greeting ⟨.ofConfig {} none, ()⟩ = some ((), w) ∧
      silent.play 40 introducing w = some (.ok true, w') ∧
      w.scene.spot? ⟨0⟩ 2 textTarget = some o ∧ w.scene.spot? ⟨0⟩ 3 "title" = some o' ∧
      o.shown? w'.scene = some (.text (.text "Dear Ada")) ∧ o'.shown? w'.scene = o'.shown? w.scene := by
  have played : ∃ r ∈ silent.play 40 greeting ⟨.ofConfig {} none, ()⟩, r.2.scene.called = [] ∧
      r.2.scene.Showing ⟨0⟩ ∧ ∃ q ∈ silent.play 40 introducing r.2, q.1.toOption = some true ∧
      (∃ o ∈ r.2.scene.spot? ⟨0⟩ 2 textTarget, r.2.scene.Plain o.node o.target ∧
        o.binding.dependsOn "name" = true ∧ (o.value q.2.scene).isUndefined = false ∧
        o.binding.target = textTarget ∧ (o.binding.render (o.value q.2.scene)).display = "Dear Ada") ∧
      ∃ o ∈ r.2.scene.spot? ⟨0⟩ 3 "title", r.2.scene.Plain o.node o.target ∧
        o.binding.dependsOn "name" = false ∧
        ∀ x ∈ (silent.record 40 introducing r.2).steps, ¬x.Commits o.id o.property := by decide +kernel
  obtain ⟨⟨⟨⟩, w⟩, greeted, still, showing, ⟨a, w'⟩, named, done, ⟨o, here, plain, reads, known, text, display⟩,
    o', here', plain', spared, uncommitted⟩ := played
  have reached : silent.Reachable w := (Environment.Reachable.start {} none ()).play greeting greeted
  have steady : w.scene.Steady := Scene.steady_of_called (by simp [still])
  obtain ⟨own, bound⟩ := Scene.bound?_of_spot? here
  obtain ⟨own', bound'⟩ := Scene.bound?_of_spot? here'
  have written : silent.play 40 (.request (.set ⟨0⟩ "name" (.string "Ada") true)) w = some (.ok true, w') := by
    cases a <;> cases done
    exact named
  refine ⟨w, w', o, o', greeted, written, here, here', ?_, ?_⟩
  · rw [← own] at showing written
    rw [(write_shows silent reached steady o showing written bound plain).1 reads, known, Binding.display, if_pos text,
      display]
    rfl
  · rw [← own'] at showing written
    refine (write_shows silent reached steady o' showing written bound' plain').2 spared ?_
    rw [own']
    rwa [own'] at uncommitted

def Document.seen? (d : Document) (x : NodeId) (target : String) : Option String :=
  if target = textTarget then some (d.text x) else d.attribute? x (attributeOf target)

/-- After the script a target of the first component is bound that does not read the property `a`. A write of that
property changes what is to be seen of it. -/
def Script.Strays (m : Script Empty Unit Unit) (site : Nat) (target : String) (v : Value) : Prop :=
  ∃ r ∈ silent.play 40 m ⟨.ofConfig {} none, ()⟩, r.2.scene.Showing ⟨0⟩ ∧
    ∃ o ∈ r.2.scene.spot? ⟨0⟩ site target, o.binding.dependsOn "a" = false ∧
    ∃ q ∈ silent.play 40 (.request (.set ⟨0⟩ "a" v true)) r.2, q.1.toOption = some true ∧
      q.2.scene.document.seen? o.node o.target ≠ r.2.scene.document.seen? o.node o.target

def chaining : Script Empty Unit Unit := do
  let _ ← Script.request (.register (Declaration.define {
    tag := "x-a"
    properties := [.ofKind "a" .string, .ofKind "b" .string]
    template := some "[[b]]" }))
  let x ← Script.request (.createElement "x-a")
  Script.request (.appendChild Document.root x)
  let _ ← Script.request (.addBinding ⟨0⟩ "a" "b" "root")
  let _ ← Script.request (.set ⟨0⟩ "b" (.string "kept") true)

def covering : Script Empty Unit Unit := do
  let _ ← Script.request (.register (Declaration.define {
    tag := "x-a"
    properties := [.ofKind "a" .string, .ofKind "b" .string]
    template := some "<p>[[a]]</p>" }))
  let x ← Script.request (.createElement "x-a")
  Script.request (.appendChild Document.root x)
  let _ ← Script.request (.addBinding ⟨0⟩ "b" "textContent" "root")

def rebinding : Script Empty Unit Unit := do
  let _ ← Script.request (.register (Declaration.define {
    tag := "x-a"
    properties := [{ Property.ofKind "a" .string with observer := some "addPropertyBinding" }, .ofKind "b" .string]
    template := some "<p id='' title='[[b]]'></p>" }))
  let x ← Script.request (.createElement "x-a")
  Script.request (.appendChild Document.root x)
  let _ ← Script.request (.set ⟨0⟩ "a" (.string "a") true)
  let _ ← Script.request (.set ⟨0⟩ "b" (.string "kept") true)

/-- Targets may change that do not read the written property: where the write sets off another one, where the target
is the text of an element, and where a method that adds bindings is called. -/
theorem unread_strays : chaining.Strays 1 textTarget (.string "x") ∧ covering.Strays 1 textTarget (.string "x") ∧
    rebinding.Strays 1 "title" (.string "title") := by
  unfold Script.Strays
  decide +kernel

end LiveTree
