import LiveTree.Proofs.Loading.Scenes
import LiveTree.Proofs.Ownership
import LiveTree.Proofs.Strays.Going
import LiveTree.Proofs.Strays.Memory

/-! Strays. A component is to remember which of those it owns lie outside its host node. It does so as long
as nodes are moved about in the document, taken out of it, and put into it where nothing lies above them. What
leaves its owner out of the document is not remembered, since only moves that start in the document are
looked at. -/
namespace LiveTree
variable {κ σ : Type}

namespace Scene

structure Reconciled (s : Scene κ) : Prop where
  top : s.document.parent? Document.root = none
  stage : ∀ id c, s.component? id = some c →
    c.stage = if s.document.isConnected c.node then .attached else .detached
  strays : ∀ id o, id ∈ s.strays o ↔ s.lodging? id = some (o, false)

structure Transfers (child : NodeId) (s e : Scene κ) : Prop where
  component : ∀ id, e.component? id = s.component? id
  before : s.Placed
  after : e.Placed
  plain : child ≠ Document.root
  links : ∀ x p, x ≠ child → (e.document.Link x p ↔ s.document.Link x p)

/-- It is enough to look at the components that there are. -/
instance (s : Scene κ) : Decidable s.Reconciled :=
  decidable_of_iff (s.document.parent? Document.root = none ∧
      (∀ id ∈ s.componentIds, ∀ c ∈ s.component? id,
        c.stage = if s.document.isConnected c.node then .attached else .detached) ∧
      (∀ o ∈ s.componentIds, ∀ id ∈ s.strays o, s.lodging? id = some (o, false)) ∧
      ∀ id ∈ s.componentIds, ∀ l ∈ s.lodging? id, l.2 = false → id ∈ s.strays l.1) <| by
    constructor
    · rintro ⟨top, stage, owned, known⟩
      refine ⟨top, fun id c found => ?_, fun id o => ⟨fun listed => ?_, fun astray => ?_⟩⟩
      · exact stage id (mem_componentIds_iff.mpr (Option.isSome_of_eq_some found)) c found
      · refine owned o (mem_componentIds_iff.mpr ?_) id listed
        unfold Scene.strays at listed
        cases there : s.component? o with
        | none =>
          rw [there] at listed
          cases listed
        | some d => rfl
      · obtain ⟨c, -, found, -⟩ := lodging?_eq_some.mp astray
        exact known id (mem_componentIds_iff.mpr (Option.isSome_of_eq_some found)) _ astray rfl
    · rintro ⟨top, stage, strays⟩
      refine ⟨top, fun id _ => stage id, fun o _ id => (strays id o).mp, fun id _ l lodging apart => ?_⟩
      exact (strays id l.1).mpr (lodging.trans (congrArg (fun b => some (l.1, b)) apart))

section Transfers
variable {s e t u : Scene κ} {child : NodeId} {id o : ComponentId} {c : Component κ}

theorem transfers_detach (placed : s.Placed) (plain : child ≠ Document.root) :
    s.Transfers child (s.edit fun _ => s.document.detach child) where
  component _ := rfl
  before := placed
  after := (Alike.move s (s.document.reworks_detach child)
    (s.document.texts_detach child)).placed (by decide) placed
  plain := plain
  links _ _ := Document.link_detach_of_ne

theorem transfers_appendChild (placed : s.Placed) (parent : NodeId) (plain : child ≠ Document.root) :
    s.Transfers child (s.edit (·.appendChild parent child)) where
  component _ := rfl
  before := placed
  after := (Alike.move s (s.document.reworks_appendChild parent child)
    (s.document.texts_appendChild parent child)).placed (by decide) placed
  plain := plain
  links _ _ := Document.link_appendChild_of_ne

theorem Reconciled.stage? (reconciled : s.Reconciled) (found : s.component? id = some c) :
    s.stage? id = some .attached ∨ s.stage? id = some .detached := by
  rw [Scene.stage?, found, Option.map_some, reconciled.stage id c found]
  split
  · exact .inl rfl
  · exact .inr rfl

namespace Transfers
variable (transfers : s.Transfers child e)
include transfers

theorem stage? (id : ComponentId) : e.stage? id = s.stage? id :=
  congrArg (Option.map Component.stage) (transfers.component id)

theorem strays (o : ComponentId) : e.strays o = s.strays o :=
  congrArg (fun c => (c.map Component.strays).getD []) (transfers.component o)

theorem top (before : s.document.parent? Document.root = none) : e.document.parent? Document.root = none := by
  cases above : e.document.parent? Document.root with
  | none => rfl
  | some p => cases before.symm.trans ((transfers.links _ p transfers.plain.symm).mp above)

/-- The components that were moved, told by their nodes. -/
theorem of_listed (listed : id ∈ e.componentsIn child) : ∃ c, s.component? id = some c ∧
    (c.node = child ∨ e.document.Under c.node child) := by
  obtain ⟨c, found, within⟩ := transfers.after.mem_componentsIn_iff.mp listed
  exact ⟨c, (transfers.component id).symm.trans found, within⟩

/-- A component that was not moved lies below what it lay below. -/
theorem isWithin (found : s.component? id = some c) (apart : id ∉ e.componentsIn child) (y : NodeId) :
    e.document.isWithin c.node y = s.document.isWithin c.node y :=
  Document.isWithin_of_outside transfers.links transfers.before.document transfers.after.document
    fun within => apart (transfers.after.mem_componentsIn_iff.mpr ⟨c, (transfers.component id).trans found, within⟩)

theorem lodging?_eq_some {within : Bool} : e.lodging? id = some (o, within) ↔ ∃ c d,
    s.component? id = some c ∧ c.owner = some o ∧ s.component? o = some d ∧ e.document.isWithin c.node d.node = within := by
  simp only [Scene.lodging?_eq_some, transfers.component]

theorem lodging? (apart : id ∉ e.componentsIn child) : e.lodging? id = s.lodging? id := by
  refine Option.ext fun ⟨o, within⟩ => ?_
  rw [transfers.lodging?_eq_some, Scene.lodging?_eq_some]
  refine exists_congr fun c => exists_congr fun d => and_congr_right fun found => ?_
  rw [transfers.isWithin found apart]

/-- A node that is put under a node of the document comes into it. -/
theorem isConnected {parent : NodeId} (there : s.document.isConnected parent = true)
    (under : e.document.parent? child = some parent) : e.document.isConnected child = true := by
  have sound := transfers.after.document
  have outside : ¬(parent = child ∨ e.document.Under parent child) := by
    rintro (rfl | below)
    · exact sound.not_under_self (.single under)
    · exact sound.not_under_self (below.trans (.single under))
  rw [Document.isConnected,
    ← Document.isWithin_of_outside transfers.links transfers.before.document sound outside] at there
  exact sound.isConnected_of_within there (.inr (.single under))

/-- Owners are the same after a move, whatever lies below them now. -/
theorem owner {within : Bool} (before : s.lodging? id = some (o, within)) :
    ∃ within', e.lodging? id = some (o, within') := by
  obtain ⟨c, d, found, owned, there, -⟩ := Scene.lodging?_eq_some.mp before
  exact ⟨_, transfers.lodging?_eq_some.mpr ⟨c, d, found, owned, there, rfl⟩⟩

/-- What was not moved is as it was, so that only the components in the node have to be looked at. -/
theorem reconciled (reconciled : s.Reconciled) (alike : e.Alike departing t)
    (stage : ∀ id ∈ e.componentsIn child, ∀ c, s.component? id = some c →
      t.stage? id = some (if e.document.isConnected c.node then .attached else .detached))
    (strays : ∀ id ∈ e.componentsIn child, ∀ o, id ∈ t.strays o ↔ e.lodging? id = some (o, false))
    (others : ∀ id ∉ e.componentsIn child, t.stage? id = e.stage? id ∧
      ∀ o, id ∈ t.strays o ↔ id ∈ e.strays o) : t.Reconciled := by
  have tree : t.document.tree = e.document.tree := alike.view .tree (by decide)
  refine ⟨?_, fun id d there => ?_, fun id o => ?_⟩
  · rw [Document.parent?_of_tree tree, transfers.top reconciled.top]
  · obtain ⟨c, found, same⟩ := alike.component_of (by decide) there
    rw [transfers.component] at found
    have here : t.stage? id = some d.stage := by rw [Scene.stage?, there, Option.map_some]
    rw [Document.isConnected_of_tree tree, same.node]
    by_cases listed : id ∈ e.componentsIn child
    · exact Option.some.inj (here.symm.trans (stage id listed c found))
    · have before : s.stage? id = some c.stage := congrArg (Option.map Component.stage) found
      rw [Document.isConnected, transfers.isWithin found listed, ← Document.isConnected,
        ← reconciled.stage id c found]
      have kept := (others id listed).1.trans ((transfers.stage? id).trans before)
      exact Option.some.inj (here.symm.trans kept)
  · rw [alike.lodging? (by decide)]
    by_cases listed : id ∈ e.componentsIn child
    · exact strays id listed o
    · rw [(others id listed).2 o, transfers.strays, reconciled.strays, transfers.lodging? listed]

end Transfers

theorem Reconciled.remove (reconciled : s.Reconciled) (transfers : s.Transfers child e)
    (prunes : s.document.Prunes e.document) (loose : e.document.parent? child = none)
    (left : e.Departs (e.componentsIn child) t) : t.Reconciled := by
  refine transfers.reconciled reconciled left.alike (fun id listed c found => ?_)
    (fun id listed o => ?_) fun id apart => ⟨?_, fun o => ?_⟩
  · obtain ⟨d, there, within⟩ := transfers.of_listed listed
    cases found.symm.trans there
    have top := transfers.top reconciled.top
    have apart := transfers.after.document.not_isConnected top loose transfers.plain within
    rw [left.stage, if_pos listed, apart, transfers.stage?]
    rcases reconciled.stage? found with here | here <;> rw [here] <;> rfl
  · rw [left.strays, transfers.strays, reconciled.strays]
    refine ⟨fun either => either.elim (fun astray => ?_) And.right, fun astray => .inr ⟨listed, astray⟩⟩
    -- What did not lie below its owner does not now that links have been cut.
    obtain ⟨c, d, found, owned, there, apart⟩ := Scene.lodging?_eq_some.mp astray
    refine transfers.lodging?_eq_some.mpr ⟨c, d, found, owned, there, Bool.eq_false_iff.mpr fun within => ?_⟩
    rw [transfers.after.document.isWithin_iff_under] at within
    have old := transfers.before.inside id c found
    have before := within.imp_right (prunes.under transfers.before.document old)
    rw [transfers.before.document.isWithin_iff_under.mpr before] at apart
    cases apart
  · rw [left.stage, if_neg apart]
  · rw [left.strays]
    exact ⟨fun either => either.resolve_right fun listed => apart listed.1, .inl⟩

structure Adrift (child : NodeId) (e u : Scene κ) : Prop where
  alike : e.Alike departing u
  away : ∀ id ∈ e.componentsIn child, u.stage? id = some .detached
  known : ∀ id ∈ e.componentsIn child, ∀ o, e.lodging? id = some (o, false) → id ∈ u.strays o
  owner : ∀ id ∈ e.componentsIn child, ∀ o, id ∈ u.strays o → ∃ within, e.lodging? id = some (o, within)
  others : ∀ id ∉ e.componentsIn child, u.stage? id = e.stage? id ∧ ∀ o, id ∈ u.strays o ↔ id ∈ e.strays o

/-- What was in the document has been detached. -/
theorem Reconciled.adrift (reconciled : s.Reconciled) (transfers : s.Transfers child e)
    (left : e.Departs (e.componentsIn child) u) : e.Adrift child u := by
  refine ⟨left.alike, fun id listed => ?_, fun id listed o astray => ?_, fun id listed o inside => ?_,
    fun id apart => ⟨?_, fun o => ?_⟩⟩
  · obtain ⟨c, found, -⟩ := transfers.of_listed listed
    rw [left.stage, if_pos listed, transfers.stage?]
    rcases reconciled.stage? found with here | here <;> rw [here] <;> rfl
  · exact (left.strays id o).mpr (.inr ⟨listed, astray⟩)
  · rcases (left.strays id o).mp inside with before | ⟨-, astray⟩
    · exact transfers.owner ((reconciled.strays id o).mp ((transfers.strays o) ▸ before))
    · exact ⟨false, astray⟩
  · rw [left.stage, if_neg apart]
  · rw [left.strays]
    exact ⟨fun either => either.resolve_right fun listed => apart listed.1, .inl⟩

/-- Where nothing lies above the node that is moved, no component leaves its owner. -/
theorem Reconciled.adrift_of_loose (reconciled : s.Reconciled) (transfers : s.Transfers child e)
    (loose : s.document.parent? child = none) : e.Adrift child e := by
  have link {x p : NodeId} (before : s.document.Link x p) : e.document.Link x p := by
    refine (transfers.links x p ?_).mpr before
    rintro rfl
    cases loose.symm.trans before
  refine ⟨.refl e, fun id listed => ?_, fun id listed o astray => ?_, fun id listed o inside => ?_,
    fun _ _ => ⟨rfl, fun _ => Iff.rfl⟩⟩
  · obtain ⟨c, found, within⟩ := transfers.of_listed listed
    have before := within.imp_right (transfers.after.document.under_of_moved transfers.links)
    have apart := transfers.before.document.not_isConnected reconciled.top loose transfers.plain before
    rw [transfers.stage?, Scene.stage?, found, Option.map_some, reconciled.stage id c found, apart]
    rfl
  · obtain ⟨c, d, found, owned, there, apart⟩ := transfers.lodging?_eq_some.mp astray
    rw [transfers.strays, reconciled.strays]
    refine Scene.lodging?_eq_some.mpr ⟨c, d, found, owned, there, Bool.eq_false_iff.mpr fun within => ?_⟩
    have later := (transfers.before.document.isWithin_iff_under.mp within).imp_right
      (Relation.TransGen.mono (fun _ _ => link) _ _)
    rw [transfers.after.document.isWithin_iff_under.mpr later] at apart
    cases apart
  · exact transfers.owner ((reconciled.strays id o).mp ((transfers.strays o) ▸ inside))

/-- What comes into the document is attached, and the strays that are left are those that are astray still. -/
theorem Reconciled.put (reconciled : s.Reconciled) (transfers : s.Transfers child e)
    (there : e.document.isConnected child = true) (adrift : e.Adrift child u)
    (came : u.Arrives (e.componentsIn child) t) : t.Reconciled := by
  refine transfers.reconciled reconciled (adrift.alike.trans came.alike) (fun id listed c found => ?_)
    (fun id listed o => ?_) fun id apart => ⟨?_, fun o => ?_⟩
  · obtain ⟨d, here, within⟩ := transfers.of_listed listed
    cases found.symm.trans here
    rw [came.stage, if_pos listed, adrift.away id listed,
      if_pos (transfers.after.document.isConnected_of_within there within)]
    rfl
  · rw [came.strays, adrift.alike.lodging? (by decide)]
    constructor
    · rintro ⟨inside, kept⟩
      obtain ⟨within, lodging⟩ := adrift.owner id listed o inside
      cases within with
      | false => exact lodging
      | true => exact absurd ⟨listed, adrift.away id listed, lodging⟩ kept
    · intro astray
      exact ⟨adrift.known id listed o astray, fun housed => nomatch astray.symm.trans housed.2.2⟩
  · rw [came.stage, if_neg apart, (adrift.others id apart).1]
  · rw [came.strays, (adrift.others id apart).2]
    exact ⟨And.left, fun inside => ⟨inside, fun housed => apart housed.1⟩⟩

end Transfers
end Scene

namespace Act
variable [IsEmpty κ] {R : Scene κ → Scene κ → Prop} {p : Point κ σ} {parent child : NodeId}

theorem wp_take (reconciled : p.scene.Reconciled) (placed : p.scene.Placed)
    (near : p.scene.document.isConnected child = true) : (Act.removeChild parent child).wp (Leading σ ⊤ R)
      (fun _ q => q.scene.Reconciled) p := by
  refine (wp_bind _ _).mpr (wp_scene.mpr ?_)
  split
  · exact reconciled
  next d taken =>
  obtain ⟨below, rfl⟩ : p.scene.document.parent? child = some parent ∧ p.scene.document.detach child = d := by
    simpa [Document.removeChild?] using taken
  have plain : child ≠ Document.root := by
    rintro rfl
    cases reconciled.top.symm.trans below
  refine (wp_bind _ _).mpr ⟨trivial, fun _ => ?_⟩
  rw [if_pos near]
  refine (wp_bind _ _).mpr (wp_scene.mpr ((wp_bind _ _).mpr (wp_mono _ (fun _ q left => ?_) (wp_departs _))))
  refine reconciled.remove (Scene.transfers_detach placed plain) (Document.prunes_detach _ _) ?_ left
  exact (Document.parent?_detach _ _ _).trans (if_pos rfl)

theorem wp_put (reconciled : p.scene.Reconciled) (placed : p.scene.Placed) (plain : child ≠ Document.root)
    (there : p.scene.document.isConnected parent = true)
    (near : p.scene.document.isConnected child = true ∨ p.scene.document.parent? child = none) :
    (Act.appendChild parent child).wp (Leading σ ⊤ R) (fun _ q => q.scene.Reconciled) p := by
  have transfers := Scene.transfers_appendChild placed parent plain
  generalize moved : p.scene.edit (·.appendChild parent child) = e at transfers
  refine (wp_bind _ _).mpr (wp_scene.mpr ((wp_bind _ _).mpr ⟨trivial, fun _ => ?_⟩))
  generalize next : p.change (p.scene.edit (·.appendChild parent child)) = q
  obtain rfl : q.scene = e := next ▸ moved
  refine (wp_bind _ _).mpr (wp_scene.mpr ((wp_ite _ _ _).mpr ?_))
  split
  · next under =>
    have there := transfers.isConnected there under
    extract_lets inside moved
    have later (r) {t : Point κ σ} (adrift : q.scene.Adrift child t.scene) :
        (moved r).wp (Leading σ ⊤ R) (fun _ q => q.scene.Reconciled) t := by
      have tree : t.scene.document.tree = q.scene.document.tree := adrift.alike.view .tree (by decide)
      refine (wp_bind _ _).mpr (wp_scene.mpr ((wp_ite _ _ _).mpr ?_))
      rw [Document.isConnected_of_tree tree, if_pos there]
      refine wp_mono _ (fun _ _ came => reconciled.put transfers there adrift came)
        (wp_arrives inside fun id listed created => ?_)
      rw [adrift.away id listed] at created
      cases created
    split
    · refine (wp_bind _ _).mpr (wp_mono _ (fun r _ left => ?_) (wp_departs inside))
      exact later r (reconciled.adrift transfers left)
    · next apart =>
      exact later () (reconciled.adrift_of_loose transfers (near.resolve_left apart))
  · next elsewhere =>
    have refused : ¬p.scene.document.Allows parent child := fun allowed => elsewhere <| by
      rw [← moved]
      exact (Document.parent?_appendChild allowed child).trans (if_pos rfl)
    have same : p.scene.document.appendChild parent child = p.scene.document := by
      rw [Document.appendChild, if_pos (Classical.not_not.mp refused)]
    rw [wp_pure, ← moved, Scene.edit, same]
    exact reconciled

end Act

inductive Environment.Relocates (env : Environment κ σ) (w : World κ σ) : World κ σ → Prop
  | start : env.Relocates w w
  | append {u v : World κ σ} {parent child : NodeId} {fuel : Nat} : env.Relocates w u →
    child ≠ Document.root → u.scene.document.isConnected parent = true →
    (u.scene.document.isConnected child = true ∨ u.scene.document.parent? child = none) →
    env.play fuel (.request (.appendChild parent child)) u = some ((), v) → env.Relocates w v
  | remove {u v : World κ σ} {parent child : NodeId} {fuel : Nat} {removed : Bool} : env.Relocates w u →
    u.scene.document.isConnected child = true →
    env.play fuel (.request (.removeChild parent child)) u = some (removed, v) → env.Relocates w v

section Runs
variable [IsEmpty κ] {env : Environment κ σ} {w v : World κ σ}

theorem Environment.Relocates.reconciled (moves : env.Relocates w v) (reached : env.Reachable w)
    (start : w.scene.Reconciled) : env.Reachable v ∧ v.scene.Reconciled := by
  induction moves with
  | start => exact ⟨reached, start⟩
  | append _ plain there near moved ih =>
    obtain ⟨reached, reconciled⟩ := ih
    refine ⟨reached.request _ moved, env.retains.play_reaches (Q := fun _ t => t.Reconciled) ?_ moved⟩
    exact ⟨trivial, fun _ => Act.wp_put reconciled reached.placed plain there near⟩
  | remove _ near taken ih =>
    obtain ⟨reached, reconciled⟩ := ih
    refine ⟨reached.request _ taken, env.retains.play_reaches (Q := fun _ t => t.Reconciled) ?_ taken⟩
    exact ⟨trivial, fun _ => Act.wp_take reconciled reached.placed near⟩

/-- Where no consumer code runs and a scene is reconciled, moves keep it so: a component is remembered by its
owner, and then once, exactly if it does not lie below it. -/
theorem strays_of_moves (reached : env.Reachable w) (start : w.scene.Reconciled) (moves : env.Relocates w v)
    (id o : ComponentId) :
    (v.scene.strays o).count id = if v.scene.lodging? id = some (o, false) then 1 else 0 := by
  obtain ⟨reached, reconciled⟩ := moves.reconciled reached start
  have once : (v.scene.strays o).Nodup := by
    unfold Scene.strays
    cases there : v.scene.component? o with
    | none => exact .nil
    | some d => exact (reached.remembers o d there).1
  split
  · next astray => exact List.count_eq_one_of_mem once ((reconciled.strays id o).mpr astray)
  · next housed =>
    exact List.count_eq_zero_of_not_mem fun listed => housed ((reconciled.strays id o).mp listed)

end Runs

theorem strays_of_moves_denning : ∃ w v,
    silent.play 30 denning ⟨.ofConfig {} none, ()⟩ = some (⟨1⟩, w) ∧
      silent.play 30 (.request (.appendChild Document.root ⟨2⟩)) w = some ((), v) ∧
      silent.Relocates w v ∧ w.scene.Reconciled ∧ (v.scene.strays ⟨0⟩).count ⟨1⟩ = 1 := by
  have answered : (silent.play 30 denning ⟨.ofConfig {} none, ()⟩).bind (fun r =>
      (silent.play 30 (.request (.appendChild Document.root ⟨2⟩)) r.2).map fun q =>
        decide (r.1 = ⟨1⟩ ∧ r.2.scene.Reconciled ∧ r.2.scene.document.isConnected Document.root = true ∧
          r.2.scene.document.isConnected ⟨2⟩ = true ∧ q.2.scene.lodging? ⟨1⟩ = some (⟨0⟩, false))) =
      some true := by decide +kernel
  obtain ⟨⟨den, w⟩, played, answered⟩ := Option.bind_eq_some_iff.mp answered
  obtain ⟨⟨_, v⟩, moved, same⟩ := Option.map_eq_some_iff.mp answered
  obtain ⟨rfl, reconciled, there, near, astray⟩ := of_decide_eq_true same
  have reached : silent.Reachable w := (Environment.Reachable.start _ none ()).play denning played
  have moves : silent.Relocates w v := .append .start (by decide) there (.inl near) moved
  have remembered := strays_of_moves reached reconciled moves ⟨1⟩ ⟨0⟩
  rw [if_pos astray] at remembered
  exact ⟨w, v, played, moved, moves, reconciled, remembered⟩

def roaming : Script Empty Unit (List (Bool × List ComponentId)) := do
  let den ← denning
  let s ← Script.scene
  let cat := ((s.component? ⟨1⟩).map Component.node).getD den
  let noted (s : Scene Empty) := (decide s.Reconciled, s.strays ⟨0⟩)
  Script.request (.appendChild Document.root cat)
  let out ← Script.scene
  Script.request (.appendChild den cat)
  let back ← Script.scene
  let _ ← Script.request (.removeChild Document.root den)
  let gone ← Script.scene
  Script.request (.appendChild Document.root cat)
  let left ← Script.scene
  return [noted s, noted out, noted back, noted gone, noted left]

/-- That something lies above the node that is put into the document makes the difference. -/
example : (silent.play 30 roaming ⟨.ofConfig {} none, ()⟩).map Prod.fst =
      some [(true, []), (true, [⟨1⟩]), (true, []), (true, []), (false, [])] := by
  decide +kernel

end LiveTree
