import LiveTree.Proofs.Cascade.Tame
import LiveTree.Proofs.Contract.Parts
import LiveTree.Proofs.Guards.Raised

/-! The acts of a cascade. Where code is tame, what a write sets off makes harmless calls only, and
each of them makes calls of lower rank until the next write. -/
namespace LiveTree
variable {κ σ α : Type}

/-- How many calls may lie between this one and the next write. -/
def Call.rank : Call κ → Nat
  | .deliver .. => 2
  | .callback .. | .service .. => 1
  | _ => 0

def Call.Harmless (env : Environment κ σ) : Call κ → Prop
  | .write .. | .apply .. => True
  | .callback k o => (env.script k o).Writes
  | .service x _ _ => x ≠ .addBinding
  | .deliver _ e => e.bubbles = false
  | .connect _ | .release _ => False

structure Call.Admitted (env : Environment κ σ) (r : Nat) (c : Call κ) : Prop where
  rank : c.rank ≤ r
  harmless : c.Harmless env

abbrev Act.Cascades (env : Environment κ σ) (k r : Nat) (s : Scene κ) (m : Act κ α) : Prop :=
  m.Upholds (Scene.Calm env k) Scene.Persists (Call.Admitted env r) s

namespace Act.Cascades
variable {env : Environment κ σ} {k r : Nat} {s : Scene κ} {id : ComponentId} {p : Property}

theorem of_touches {F : List Field} {C : List Call.Kind} {m : Act κ α} (touches : m.Touches F C)
    (out : ∀ f ∈ Field.reacting, f ∉ F) (calls : ∀ x ∈ C, x = .write ∨ x = .apply) :
    m.Cascades env k r s := by
  refine .of_within ?_ ?_ touches
  · intro t u calm alike
    have persists : t.Persists u := .of_alike alike out
    exact ⟨calm.later persists, persists⟩
  · intro c kind
    cases c with
    | write id name v origin => exact ⟨Nat.zero_le r, trivial⟩
    | apply f arguments => exact ⟨Nat.zero_le r, trivial⟩
    | callback k o => cases o <;> exact nomatch calls _ kind
    | _ => exact nomatch calls _ kind

theorem update {f : Scene κ → Scene κ} (change : ∀ t : Scene κ, s.Persists t → t.Persists (f t)) :
    (Act.update f).Cascades env k r s := by
  refine Upholds.update fun t calm since => ?_
  have persists := change t since
  exact ⟨calm.later persists, persists⟩

theorem listenBack (x : NodeId) (event : String) (id : ComponentId) (site : Nat) (target : String) :
    (Act.listen x event (.writeBack id site target)).Cascades env k r s := by
  refine .sceneBind fun t _ _ => .bind (update fun u _ => ?_) fun _ => .pure _
  refine (Scene.Persists.refl u).listen rfl fun l own found => ?_
  rw [Arena.get?_push] at found
  split at found
  · cases found
    exact .inr trivial
  · exact .inl found

theorem unlisten (x : NodeId) (event : String) (l : ListenerId) :
    (Act.unlisten x event l : Act κ _).Cascades env k r s := by
  refine .sceneBind fun t _ _ => .bind (update fun u _ => ?_) fun _ => .pure _
  refine (Scene.Persists.refl u).listen rfl fun l own found => ?_
  rw [Arena.get?_modify] at found
  split at found
  · obtain ⟨_, -, gone⟩ := Option.map_eq_some_iff.mp found
    cases gone
  · exact .inl found

theorem unlistenAll (ls : List (NodeId × String × ListenerId)) :
    (Act.unlistenAll ls : Act κ _).Cascades env k r s :=
  .each ls fun _ => .bind (unlisten _ _ _) fun _ => .pure _

theorem callback (up : 1 ≤ r) {x : κ} {o : Occasion} (writes : (env.script x o).Writes) :
    (Act.callback x o).Cascades env k r s :=
  .bind (.ask (.callback x o) ⟨up, writes⟩) fun _ => .pure _

theorem noteFailure (id : ComponentId) (name : String) (failure : Failure) :
    (Act.noteFailure id name failure : Act κ _).Cascades env k r s :=
  of_touches (.noteFailure _ _ _) (by decide) (by decide)

theorem invoke (up : 1 ≤ r) {method : String} (harmless : s.Harmless env id method)
    (arguments : List Value) : (Act.invoke id method arguments).Cascades env k r s := by
  refine .sceneBind fun t _ since => ?_
  split
  · next x found =>
    obtain ⟨c, there, named⟩ := Option.bind_eq_some_iff.mp found
    have here := since.harmless harmless c there
    rw [named] at here
    exact .ask (.callback x (.method id arguments)) ⟨up, here arguments⟩
  · next x found =>
    obtain ⟨c, there, named⟩ := Option.bind_eq_some_iff.mp found
    have here := since.harmless harmless c there
    rw [named] at here
    exact .ask (.service x id arguments) ⟨up, here⟩
  · exact .pure _

theorem modifyBinding (id : ComponentId) (site : Nat) (target : String) {f : Binding → Binding}
    (keeps : ∀ b, (f b).still = b.still) :
    (Act.modifyBinding id site target f : Act κ _).Cascades env k r s :=
  of_touches (.modifyBinding _ _ _ keeps) (by decide) (by decide)

theorem push (up : 1 ≤ r) (id : ComponentId) (site : Nat) (target : String) :
    (Act.push id site target : Act κ _).Cascades env k r s := by
  refine Upholds.push (fun t x b _ _ _ => ?_) (fun _ {f} keeps => modifyBinding _ _ _ keeps) (fun t x b calm _ bound => ?_)
    fun _ _ _ _ _ _ _ => of_touches (.assign _ _ _) (by decide) (by decide)
  · exact .installWriteBack (fun _ _ => of_touches (.modifyNotify _ _) (by decide) (by decide))
      (fun _ _ => listenBack _ _ _ _ _) fun _ _ => modifyBinding _ _ _ fun _ => rfl
  · -- The source is read once, before anything is marked, so that its method is known from here on.
    obtain ⟨c, there, held⟩ := t.binding?_of_bound? bound
    refine .evaluate fun u method arguments values _ since reads => ?_
    exact invoke up (since.harmless (calm.tame.methods id method (.computed there held reads))) values

theorem pushBound (up : 1 ≤ r) (id : ComponentId) (changed : Option String) :
    (Act.pushBound id changed : Act κ _).Cascades env k r s :=
  .withComponent fun _ _ _ _ _ => .ite (fun _ => .each _ fun _ => push up _ _ _) fun _ => .pure _

theorem removeBinding (id : ComponentId) (expression target stableId : String) :
    (Act.removeBinding id expression target stableId : Act κ _).Cascades env k r s := by
  refine .withComponent fun t c _ _ _ => ?_
  split
  · exact .pure _
  · split
    · exact .pure _
    · refine .ite (fun _ => .bind (update fun u _ => ?_) fun _ => ?_) fun _ => .pure _
      · refine (Scene.Persists.refl u).modify id fun d e _ _ kept => ?_
        exact kept.rebound fun _ _ _ _ found => BindingTree.of_binding?_erase found
      · exact .bind (unlistenAll _) fun _ => .pure _

theorem validated (up : 1 ≤ r) (declared : s.Declares id p) (tame : s.Tame env) (old v : Value) :
    (Act.validated id p old v).Cascades env k r s :=
  Upholds.validated (fun method named => invoke up (tame.methods id method (.validator declared named)) _)
    fun method failure => noteFailure _ method failure

theorem changing (id : ComponentId) (f : Component κ → Bool) :
    (Act.modify id fun c : Component κ => { c with changing := f c }).Cascades env k r s :=
  of_touches (F := [.changing]) (C := []) (.modify fun c => .put c .changing _ (by decide)) (by decide)
    (by decide)

theorem tellOfChange (up : 1 ≤ r) (declared : s.Declares id p) (old new : Value) :
    (Act.tellOfChange id p old new).Cascades env k r s := by
  refine Upholds.tellOfChange (fun t f => changing id f) (fun t c x calm _ found set => ?_)
    (fun t method calm since named => ?_) fun t c x calm _ found own => ?_
  · exact .guarded (callback up (calm.tame.callbacks _ _ (.changed p.name old new found set))) fun _ => noteFailure _ _ _
  · have harmless := calm.tame.methods id method (.observer (since.declares.mp declared) named)
    exact .notify (invoke up harmless _) fun _ => noteFailure _ _ _
  · exact callback up (calm.tame.callbacks _ _ (.watcher p.name old new found own))

theorem announce (x : NodeId) (p : Property) (old new : Value) :
    (Act.announce x p old new : Act κ _).Cascades env k 2 s := by
  refine .sceneBind fun t _ _ => .ite (fun _ => ?_) fun _ => .pure _
  exact .ask _ ⟨Nat.le_refl 2, rfl⟩

theorem commit (declared : s.Declares id p) (old v : Value) (origin : Origin) :
    (Act.commit id p old v origin).Cascades env k 2 s := by
  refine Upholds.composes.commit (update fun t _ => ?_) fun c slot => ?_
  · refine (Scene.Persists.refl t).modify id fun d e _ _ kept => ?_
    exact kept.modifySlot p.name fun _ _ _ _ busy => busy
  · exact Upholds.composes.spread (of_touches (.reflect _ _ _) (by decide) (by decide))
      (tellOfChange (by decide) declared _ _) (announce _ _ _ _) (pushBound (by decide) _ _)
      (of_touches (.writeBackProperty _ _) (by decide) (by decide)) slot

theorem attempt (declared : s.Declares id p) (tame : s.Tame env) (v : Value) (origin : Origin) :
    (Act.attempt id p v origin).Cascades env k 2 s :=
  Upholds.composes.attempt (fun _ => of_touches (.refuse _ _) (by decide) (by decide))
    (fun _ => validated (by decide) declared tame _ _) fun _ _ => commit declared _ _ _

theorem hear {l : Listener κ} {i : Nat} (found : s.listeners.get? i = some (some l))
    (tame : s.Tame env) (e : Event) : (Act.hear l e).Cascades env k 1 s := by
  unfold Act.hear
  split
  · have writes := tame.callbacks _ _ (.listener e found)
    exact .bind (callback (by decide) writes) fun _ => .pure _
  · exact .notify (invoke (by decide) (tame.methods _ _ (.handler found)) _) fun _ => noteFailure _ _ _
  · exact of_touches (.writeBack _ _ _ _) (by decide) (by decide)
  · refine .sceneBind fun t _ _ => ?_
    split
    · exact .bind (.ask _ ⟨Nat.zero_le _, trivial⟩) fun _ => .pure _
    · exact .pure _

theorem deliver (x : NodeId) {e : Event} (stays : e.bubbles = false) :
    (Act.deliver x e : Act κ _).Cascades env k 1 s :=
  Upholds.deliver stays fun _ _ _ e calm _ found => hear found calm.tame e

theorem service {x : Service} (other : x ≠ .addBinding) (id : ComponentId) (arguments : List Value) :
    (Act.service x id arguments : Act κ _).Cascades env k r s := by
  unfold Act.service
  extract_lets text
  split
  · exact .bind (of_touches (.log _ _ _) (by decide) (by decide)) fun _ => .pure _
  · exact .bind (of_touches (.localize _ _ _) (by decide) (by decide)) fun _ => .pure _
  · split
    · exact of_touches (.addMessages _ _ _) (by decide) (by decide)
    · exact .pure _
  · exact absurd rfl other
  · exact .bind (removeBinding _ _ _ _) fun _ => .pure _

end Act.Cascades

/-- Consumer code that only writes. -/
theorem Script.wp_writes {env : Environment κ σ} {k : Nat} (m : Script κ σ α) (writes : m.Writes)
    {s : Scene κ} {p : Point κ σ} (calm : p.scene.Calm env k) (since : s.Persists p.scene) :
    m.wp (Upholding σ (Scene.Calm env k) Scene.Persists (Call.Admitted env 0))
      (fun _ q => q.scene.Calm env k ∧ s.Persists q.scene) p := by
  induction m generalizing p with
  | done a => exact ⟨calm, since⟩
  | look next ih => exact ih _ _ (writes _ _) calm since
  | keep store next ih => exact ih (p := p.keep store) writes calm since
  | ask r next ih =>
    have writing (id : ComponentId) (name : String) (v : Value) (origin : Origin) :
        (Act.ask (.write id name v origin) : Act κ _).Cascades env k 0 s :=
      .ask _ ⟨Nat.le_refl 0, trivial⟩
    have asked : r.act.Cascades env k 0 s := by
      cases r with
      | set id name v notify => exact writing id name v _
      | force id name v => exact writing id name v _
      | _ => exact nomatch writes.1
    refine Upholding.takes_request calm ?_
    apply Act.wp_mono _ _ (asked σ (p.request r) calm since)
    rintro a q ⟨calm', since'⟩
    exact ih a (writes.2 a) calm' since'

end LiveTree
