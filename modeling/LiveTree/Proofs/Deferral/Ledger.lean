import LiveTree.Proofs.Composition
import LiveTree.Proofs.Contract.Regime
import LiveTree.Proofs.Readiness.Acts

/-! Callbacks that wait for a component to be completed. A history tells how often one was given and
how often it has been invoked, a scene tells how often it is still queued; the difference is what is
due at a point in the midst of operations. No call changes what is due, and every call that
completes a component leaves nothing in its queue. -/
namespace LiveTree
variable {κ σ α : Type}

def Definition.Spares (k : κ) (d : Definition κ) : Prop := ∀ pick ∈ Hooks.fields, pick d.hooks ≠ some k

theorem Definition.Spares.of_core {k : κ} {d e : Definition κ} (same : e.core = d.core)
    (spares : d.Spares k) : e.Spares k := by
  intro pick listed
  change pick e.core.hooks ≠ some k
  rw [same]
  exact spares pick listed

namespace Scene

structure Spares (k : κ) (s : Scene κ) : Prop where
  types : ∀ key d, s.definitions.get? key = some d → d.Spares k
  components : ∀ id c, s.component? id = some c → c.definition.Spares k

variable [DecidableEq κ]

def queued (s : Scene κ) (id : ComponentId) (k : κ) : Nat :=
  (((s.component? id).map Component.whenReady).getD []).count k

def Cleared (s : Scene κ) (id : ComponentId) (k : κ) : Prop :=
  s.isCompleted id = true → s.queued id k = 0

variable {F : List Field} {s t : Scene κ} {k : κ}

omit [DecidableEq κ] in
theorem Alike.spares (alike : s.Alike F t)
    (out : ∀ f ∈ [Field.components, .definitions, .definition], f ∉ F) (spares : s.Spares k) :
    t.Spares k := by
  have types : t.definitions = s.definitions := alike.view .definitions (out _ (by simp))
  refine ⟨?_, ?_⟩
  · rw [types]
    exact spares.types
  · intro id d there
    obtain ⟨c, found, same⟩ := alike.component_of (out _ (by simp)) there
    rw [show d.definition = c.definition from same.view .definition (out _ (by simp))]
    exact spares.components id c found

omit [DecidableEq κ] in
theorem Spares.modify (spares : s.Spares k) {id : ComponentId} {f : Component κ → Component κ}
    (definition : ∀ c, s.component? id = some c → (f c).definition.Spares k) :
    (s.modify id f).Spares k := by
  refine ⟨spares.types, fun other d found => ?_⟩
  rw [component?_modify] at found
  split at found
  · next same =>
    obtain ⟨c, there, rfl⟩ := Option.map_eq_some_iff.mp found
    exact definition c (same ▸ there)
  · exact spares.components other d found

theorem Alike.queued (alike : s.Alike F t) (out : ∀ f ∈ [Field.whenReady, .components], f ∉ F)
    (id : ComponentId) : t.queued id k = s.queued id k :=
  congrArg (·.getD [] |>.count k) <| alike.map_component? (out _ (by simp)) Component.whenReady
    (fun _ _ same => same.view .whenReady (out _ (by simp))) id

end Scene

section Ledger
variable [DecidableEq κ] (id : ComponentId) (k : κ)

def Step.entrusts : Step κ σ → Bool
  | .request (.whenReady other l) s => other = id && l = k && (s.component? other).isSome
  | _ => false

def Step.invokes : Step κ σ → Bool
  | .answer (.callback l (.hook other)) _ _ _ => other = id && l = k
  | _ => false

namespace History

def entrusted (h : History κ σ) : Nat := h.countP (Step.entrusts id k)

def invoked (h : History κ σ) : Nat := h.countP (Step.invokes id k)

variable (h : History κ σ) (x : Step κ σ)

theorem entrusted_append : entrusted id k (h ++ [x]) =
    entrusted id k h + if x.entrusts id k then 1 else 0 := by
  rw [entrusted, List.countP_append, List.countP_singleton, entrusted]

theorem invoked_append : invoked id k (h ++ [x]) =
    invoked id k h + if x.invokes id k then 1 else 0 := by
  rw [invoked, List.countP_append, List.countP_singleton, invoked]

end History

def Point.due (p : Point κ σ) : Int :=
  p.past.entrusted id k - p.past.invoked id k - p.scene.queued id k

structure Accounted (p : Point κ σ) : Prop where
  spares : p.scene.Spares k
  early : p.scene.isCompleted id = false → p.due id k = 0
  late : 0 < p.past.invoked id k → p.scene.isCompleted id = true

structure Owing (n : Int) (p q : Point κ σ) : Prop where
  due : q.due id k = p.due id k + n
  cleared : p.scene.Cleared id k → q.scene.Cleared id k
  completed : p.scene.isCompleted id = true → q.scene.isCompleted id = true

theorem Owing.refl (p : Point κ σ) : Owing id k 0 p p :=
  ⟨(Int.add_zero _).symm, fun cleared => cleared, fun done => done⟩

variable {id k} in
theorem Owing.trans {n m l : Int} {p q r : Point κ σ} (first : Owing id k n p q)
    (second : Owing id k m q r) (sum : l = n + m := by omega) : Owing id k l p r where
  due := by rw [second.due, first.due, sum, Int.add_assoc]
  cleared cleared := second.cleared (first.cleared cleared)
  completed done := second.completed (first.completed done)

/-- The regime under which a callback is invoked as often as it was given, and not before the
component is completed, if no type has it for a hook. -/
def Deferring (κ σ : Type) [DecidableEq κ] (id : ComponentId) (k : κ) : Regime κ σ where
  given _ x := match x with
    | .request (.register d) _ => d.Spares k
    | _ => True
  safe past x := match x with
    | .answer c before _ after =>
      (c = .callback k (.hook id) → before.scene.isCompleted id = true) ∧
        (before.scene.isCompleted id = false → after.scene.isCompleted id = true →
          past.invoked id k = past.entrusted id k)
    | _ => True
  allows c p := c = .callback k (.hook id) → p.scene.isCompleted id = true
  holds := Accounted id k
  leads := Owing id k 0
  refl := Owing.refl id k
  trans first second := first.trans second

end Ledger

namespace Deferring
variable [DecidableEq κ] {id : ComponentId} {k : κ} {p q : Point κ σ} {t : Scene κ} {F : List Field}

theorem due_change (id : ComponentId) (k : κ) (p : Point κ σ) (t : Scene κ) :
    (p.change t).due id k = p.due id k + p.scene.queued id k - t.queued id k := by
  have given : (p.change t).past.entrusted id k = p.past.entrusted id k :=
    History.entrusted_append id k p.past _
  have done : (p.change t).past.invoked id k = p.past.invoked id k :=
    History.invoked_append id k p.past _
  rw [Point.due, given, done, Point.scene_change, Point.due]
  omega

/-- A change that concerns neither the queue nor the completion of the component. -/
theorem takes_change (accounted : Accounted id k p) (spares : t.Spares k)
    (completed : t.isCompleted id = p.scene.isCompleted id)
    (queued : t.queued id k = p.scene.queued id k) :
    (Deferring κ σ id k).Takes p.past (.change p.scene t) p (p.change t) := by
  have done : (p.change t).past.invoked id k = p.past.invoked id k :=
    History.invoked_append id k p.past _
  have due : (p.change t).due id k = p.due id k := by
    rw [due_change, queued]
    omega
  refine ⟨trivial, fun _ => ⟨⟨spares, ?_, ?_⟩, ?_, ?_, ?_⟩⟩
  · intro early
    rw [due]
    exact accounted.early (completed.symm.trans early)
  · intro late
    rw [done] at late
    exact completed.trans (accounted.late late)
  · rw [due, Int.add_zero]
  · intro cleared finished
    rw [Point.scene_change, queued]
    exact cleared (completed.symm.trans finished)
  · intro finished
    exact completed.trans finished

theorem takes_alike (accounted : Accounted id k p) (spares : t.Spares k)
    (alike : p.scene.Alike F t) (out : ∀ f ∈ [Field.whenReady, .completed, .components], f ∉ F) :
    (Deferring κ σ id k).Takes p.past (.change p.scene t) p (p.change t) :=
  takes_change accounted spares (alike.isCompleted (fun f inside => out f (by grind)) id)
    (alike.queued (fun f inside => out f (by grind)) id)

/-- Calls other than that of the callback are not counted, whatever was done to answer them. -/
theorem takes_answer {c : Call κ} (other : c ≠ .callback k (.hook id)) (accounted : Accounted id k p)
    {a : c.Answer} (later : Accounted id k q) (owing : Owing id k 0 p q) :
    (Deferring κ σ id k).Takes q.past (.answer c p.world a q.world) p (q.answered c p.world a) := by
  have uncounted : (Step.answer c p.world a q.world).invokes id k = false := by
    unfold Step.invokes
    split
    · next l whose _ _ _ same =>
      cases same
      grind
    · rfl
  have done : (q.answered c p.world a).past.invoked id k = q.past.invoked id k := by
    rw [Point.answered, History.invoked_append, uncounted]
    rfl
  have given : (q.answered c p.world a).past.entrusted id k = q.past.entrusted id k :=
    History.entrusted_append id k q.past _
  have due : (q.answered c p.world a).due id k = q.due id k := by
    rw [Point.due, given, done, Point.scene_answered, Point.due]
  refine ⟨⟨fun same => absurd same other, ?_⟩, fun _ => ⟨⟨later.spares, ?_, ?_⟩, ?_, ?_, ?_⟩⟩
  · intro before after
    have none_due := (owing.due.trans (Int.add_zero _)).trans (accounted.early before)
    have cleared : q.scene.Cleared id k :=
      owing.cleared fun finished => absurd finished (Bool.eq_false_iff.mp before)
    have empty := cleared after
    rw [Point.due, empty] at none_due
    omega
  · rw [due]
    exact later.early
  · rw [done]
    exact later.late
  · rw [due]
    exact owing.due
  · exact owing.cleared
  · exact owing.completed

theorem watches : (Deferring κ σ id k).Watches
    [.whenReady, .completed, .components, .definitions, .definition] .hook where
  change F p t out accounted alike := by
    have spares := alike.spares (fun f inside => out f (by grind)) accounted.spares
    exact takes_alike accounted spares alike fun f inside => out f (by grind)
  call c p kind accounted := by
    have other : c ≠ .callback k (.hook id) := by
      rintro rfl
      exact kind rfl
    exact ⟨fun same => absurd same other,
      fun _ _ later owing => takes_answer other accounted later owing⟩

end Deferring
end LiveTree
