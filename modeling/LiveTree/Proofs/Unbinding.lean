import LiveTree.Proofs.Contract.Parts
import LiveTree.Proofs.Footprint
import LiveTree.Proofs.Listening.Bindings

/-! Bindings that are taken away from outside. The one at the site of a stable id goes if it answers to
the text that is given with it: no text asks for any binding, brackets for the expression inside them,
and any other text for itself. Brackets that hold no expression ask for any binding as well, as if
there were no text. If nothing answers, nothing is changed; otherwise that one binding is gone, with the
listener that wrote its target back, and the component notes anew what its bindings read. -/
namespace LiveTree
variable {κ σ : Type}

inductive Binding.Answers (b : Binding) (text : String) : Prop
  | any (empty : text = "")
  | bracketed {token : Token} (start : Token.hasStart text = true) (read : Token.read? text = some token)
    (same : token.expression = b.expression)
  | plain (start : Token.hasStart text = false)
    (same : String.ofList (Text.trim text.toList) = b.expression)

structure Token.Unread (text : String) : Prop where
  start : hasStart text = true
  failed : read? text = none

/-- The bindings that are asked for are those that answer, and all of them if the brackets hold no
expression. -/
theorem Act.all_wantedExpression? (text : String) (b : Binding) :
    (wantedExpression? text).all (· == b.expression) = true ↔ b.Answers text ∨ Token.Unread text := by
  by_cases empty : text = ""
  · rw [wantedExpression?, if_pos (by simpa using empty)]
    simpa using Or.inl (.any empty)
  · rw [wantedExpression?, if_neg (by simpa using empty)]
    cases start : Token.hasStart text with
    | false =>
      simp only [Bool.false_eq_true, if_false, Option.all_some, beq_iff_eq]
      constructor
      · exact fun same => .inl (.plain start same)
      · rintro ((none | ⟨other, -, -⟩ | ⟨-, same⟩) | ⟨other, -⟩)
        · exact absurd none empty
        · cases start.symm.trans other
        · exact same
        · cases start.symm.trans other
    | true =>
      rw [if_pos rfl]
      cases read : Token.read? text with
      | none => simpa using Or.inr ⟨start, read⟩
      | some token =>
        simp only [Option.map_some, Option.all_some, beq_iff_eq]
        constructor
        · exact fun same => .inl (.bracketed start read same)
        · rintro ((none | ⟨-, there, same⟩ | ⟨other, -⟩) | ⟨-, failed⟩)
          · exact absurd none empty
          · cases read.symm.trans there
            exact same
          · cases start.symm.trans other
          · cases read.symm.trans failed

namespace Component

def unbind (c : Component κ) (site : Nat) (target : String) : Component κ :=
  (c.modifyBindings fun t => t.erase site target).rebound

end Component

namespace BindingTree

theorem node_erase (t : BindingTree) (site i : Nat) (target : String) :
    ((t.erase site target).site? i).map Site.node = (t.site? i).map Site.node := by
  rw [erase, site?_modifySite]
  split
  · rw [Option.map_map]
    rfl
  · rfl

end BindingTree

namespace Scene

def silence (s : Scene κ) (l : NodeId × String × ListenerId) : Scene κ :=
  { s.edit (·.removeListener l.1 l.2.1 l.2.2) with
    listeners := s.listeners.modify l.2.2.index fun _ => none }

def unbind (s : Scene κ) (id : ComponentId) (site : Nat) (b : Binding) (target : String) : Scene κ :=
  b.listener.toList.foldl silence (s.modify id (·.unbind site target))

/-- Of the components only the one that had the binding changes. -/
theorem component?_unbind (s : Scene κ) (id other : ComponentId) (site : Nat) (b : Binding)
    (target : String) : (s.unbind id site b target).component? other =
      if id = other then (s.component? other).map (·.unbind site target)
      else s.component? other := by
  rw [← component?_modify, unbind, component?, component?]
  cases b.listener <;> rfl

theorem bound?_eq (s : Scene κ) (id : ComponentId) (site : Nat) (target : String) :
    s.bound? id site target = ((s.component? id).bind Component.bindings).bind fun t =>
      ((t.site? site).map Site.node).bind fun x => (t.binding? site target).map (Prod.mk x) := by
  have pair (t : BindingTree) : ((t.site? site).bind fun y => (t.binding? site target).bind fun b =>
      some (y.node, b)) =
      ((t.site? site).map Site.node).bind fun x => (t.binding? site target).map (Prod.mk x) := by
    cases t.site? site <;> cases t.binding? site target <;> rfl
  calc s.bound? id site target
      = ((s.component? id).bind fun c => c.bindings.bind fun t => (t.site? site).bind fun y =>
          (t.binding? site target).bind fun b => some (y.node, b)) := rfl
    _ = _ := by rw [Option.bind_assoc]; simp only [pair]

/-- Of the bindings only the one that is removed is gone. -/
theorem bound?_unbind (s : Scene κ) (id other : ComponentId) (site i : Nat) (b : Binding)
    (target key : String) : (s.unbind id site b target).bound? other i key =
      if other = id ∧ i = site ∧ key = target then none else s.bound? other i key := by
  have trees : ((s.unbind id site b target).component? other).bind Component.bindings =
      (((s.component? other).bind Component.bindings).map fun t =>
        if id = other then t.erase site target else t) := by
    rw [component?_unbind]
    cases s.component? other with
    | none => simp
    | some c => by_cases here : id = other <;> simp [here, Component.unbind, Component.rebound,
        Component.modifyBindings]
  rw [bound?_eq, bound?_eq, trees]
  cases (s.component? other).bind Component.bindings with
  | none => simp
  | some t =>
    by_cases here : id = other
    · subst here
      rw [Option.map_some, Option.bind_some, if_pos rfl, t.node_erase, t.binding?_erase]
      by_cases gone : site = i ∧ key = target
      · rw [if_pos gone, if_pos ⟨rfl, gone.1.symm, gone.2⟩]
        simp
      · rw [if_neg gone, if_neg fun all => gone ⟨all.2.1.symm, all.2.2⟩]
        rfl
    · rw [if_neg fun all => here all.1.symm]
      simp [here]

end Scene

namespace Act
variable (answer : (c : Call κ) → World κ σ → Option (c.Answer × World κ σ))

theorem run_unlistenAll (ls : List (NodeId × String × ListenerId)) (w : World κ σ) :
    (unlistenAll ls).run answer w =
      some ((), { w with scene := ls.foldl Scene.silence w.scene }) := by
  induction ls generalizing w with
  | nil => rfl
  | cons l rest ih => exact ih { w with scene := w.scene.silence l }

/-- The removal of a binding that is there. -/
theorem run_removeBinding {id : ComponentId} {c : Component κ} {stableId target : String} {site : Nat}
    {b : Binding} {w : World κ σ} (found : w.scene.component? id = some c)
    (resolved : c.site? stableId = some site) (bound : c.binding? site target = some b)
    (expression : String) : (removeBinding id expression target stableId).run answer w =
      if (wantedExpression? expression).all (· == b.expression) then
        some (true, { w with scene := w.scene.unbind id site b target })
      else some (false, w) := by
  rw [removeBinding, withComponent, run, found]
  simp only [resolved, bound]
  split
  · refine (run_bind answer (uninstallWriteBack b) (fun _ => pure true)
      { w with scene := w.scene.modify id (·.unbind site target) }).trans ?_
    rw [uninstallWriteBack, run_unlistenAll]
    rfl
  · rfl

theorem run_removeBinding_missing {id : ComponentId} {stableId target : String} {w : World κ σ}
    (missing : ∀ c site b, w.scene.component? id = some c → c.site? stableId = some site →
      c.binding? site target ≠ some b) (expression : String) :
    (removeBinding id expression target stableId).run answer w = some (false, w) := by
  rw [removeBinding, withComponent, run]
  cases found : w.scene.component? id with
  | none => rfl
  | some c =>
    cases resolved : c.site? stableId with
    | none => simp only [resolved]; rfl
    | some site =>
      cases bound : c.binding? site target with
      | none => simp only [resolved, bound]; rfl
      | some b => exact absurd bound (missing c site b found resolved)

end Act

/-- The removal of a binding comes to its end and is answered with yes exactly if the stable id leads to
a site with a binding of that target that answers to the text, or any one if the text is brackets that
hold no expression. A no leaves the world as it was, and a yes takes away that one binding. -/
theorem removeBinding_exact (env : Environment κ σ) (fuel : Nat) (id : ComponentId)
    (expression target stableId : String) (w : World κ σ) : ∃ removed w',
      env.play fuel (.request (.removeBinding id expression target stableId)) w = some (removed, w') ∧
      (removed = true ↔ ∃ c site b, w.scene.component? id = some c ∧ c.site? stableId = some site ∧
        c.binding? site target = some b ∧ (b.Answers expression ∨ Token.Unread expression)) ∧
      (removed = false → w' = w) ∧
      (removed = true → ∃ c site b, w.scene.component? id = some c ∧ c.site? stableId = some site ∧
        c.binding? site target = some b ∧
        w' = { w with scene := w.scene.unbind id site b target } ∧
        ∀ other i key, w'.scene.bound? other i key =
          if other = id ∧ i = site ∧ key = target then none else w.scene.bound? other i key) := by
  have played (removed : Bool) (w' : World κ σ)
      (ran : (Act.removeBinding id expression target stableId).run (env.answer fuel) w =
        some (removed, w')) :
      env.play fuel (.request (.removeBinding id expression target stableId)) w =
        some (removed, w') := by
    rw [Environment.play, Script.request, Script.run, Request.act, ran]
    rfl
  by_cases there : ∃ c site b, w.scene.component? id = some c ∧ c.site? stableId = some site ∧
      c.binding? site target = some b
  · obtain ⟨c, site, b, found, resolved, bound⟩ := there
    have ran := Act.run_removeBinding (env.answer fuel) found resolved bound expression
    by_cases asked : (Act.wantedExpression? expression).all (· == b.expression) = true
    · rw [if_pos asked] at ran
      have answers := (Act.all_wantedExpression? expression b).mp asked
      exact ⟨true, _, played _ _ ran, ⟨fun _ => ⟨c, site, b, found, resolved, bound, answers⟩,
        fun _ => rfl⟩, fun no => Bool.noConfusion no, fun _ => ⟨c, site, b, found, resolved, bound,
        rfl, fun other i key => w.scene.bound?_unbind id other site i b target key⟩⟩
    · rw [if_neg asked] at ran
      refine ⟨false, w, played _ _ ran, ⟨fun yes => Bool.noConfusion yes, ?_⟩, fun _ => rfl,
        fun yes => Bool.noConfusion yes⟩
      rintro ⟨d, i, a, found', resolved', bound', answers⟩
      cases found.symm.trans found'
      cases resolved.symm.trans resolved'
      cases bound.symm.trans bound'
      exact absurd ((Act.all_wantedExpression? expression b).mpr answers) asked
  · refine ⟨false, w, played _ _ (Act.run_removeBinding_missing _ (fun c site b found resolved bound =>
      there ⟨c, site, b, found, resolved, bound⟩) expression),
      ⟨fun yes => Bool.noConfusion yes, ?_⟩, fun _ => rfl, fun yes => Bool.noConfusion yes⟩
    rintro ⟨c, site, b, found, resolved, bound, -⟩
    exact absurd ⟨c, site, b, found, resolved, bound⟩ there

end LiveTree
