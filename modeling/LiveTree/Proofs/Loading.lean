import LiveTree.Proofs.Loading.Requests

/-! The loading gate. Components that come into the document while it is loading wait until it is loaded,
and none of them is lost: when nothing is under way, those that have not been configured though they are in
the document are in the queue. They are configured from the top down. This takes that the root is not put
below another node and that the document is not edited past the components. -/
namespace LiveTree
variable {κ σ α : Type}

namespace Scene

theorem regular_ofConfig (config : Config) (journal : Option Journal) :
    (ofConfig config journal : Scene κ).Regular where
  toPlaced := placed_ofConfig config journal
  rooted := Nat.zero_lt_one
  top := rfl
  tidy id c found := by cases (show none = some c from found)
  born id := by
    rw [show (ofConfig config journal : Scene κ).stage? id = none from rfl]
    exact (Option.some_ne_none _).symm

theorem gated_ofConfig (config : Config) (journal : Option Journal) :
    (ofConfig config journal : Scene κ).Gated [] where
  waits id := by
    rintro ⟨x, ⟨c, found, -⟩, -⟩
    cases (show none = some c from found)
  idle _ := rfl

variable {s t : Scene κ} {id : ComponentId} {c : Component κ}

/-- What a scene between operations says of a component that has just been created. -/
theorem Gated.created (gated : s.Gated []) (found : s.component? id = some c) (created : c.stage = .created)
    (there : s.document.isConnected c.node = true) : s.loading = true ∧ id ∈ s.pending := by
  have waiting : id ∈ s.pending := by
    refine (gated.waits id ⟨c.node, ⟨c, found, rfl, ?_⟩, there⟩).resolve_right List.not_mem_nil
    rw [created]
    rfl
  refine ⟨?_, waiting⟩
  by_contra loaded
  rw [gated.idle (Bool.eq_false_iff.mpr loaded)] at waiting
  exact List.not_mem_nil waiting

/-- A created component can only be configured next, and that is not done while the document is loading. -/
theorem Admits.created (admits : s.Admits t) (moves : s.Moves t) (loading : s.loading = true)
    (created : s.stage? id = some .created) : t.stage? id = some .created := by
  have moved := moves id
  rw [created] at moved
  generalize next : t.stage? id = stage at moved
  cases moved with
  | stay => rfl
  | configure _ =>
    have before := admits.loading loading id next
    cases created.symm.trans before
  | advance started _ => cases started

theorem Admits.above (admits : s.Admits t) (found : s.component? id = some c) (created : c.stage = .created)
    (configured : t.stage? id = some .configured) {other : ComponentId} {d : Component κ}
    (there : s.component? other = some d) (above : s.document.Under c.node d.node) :
    d.stage.isConfigured = true := by
  rcases admits.order id configured with before | ripe
  · rw [stage?, found, Option.map_some, created] at before
    cases before
  · by_contra waiting
    refine ripe other ⟨c.node, ⟨c, found, rfl, by rw [created]; rfl⟩, d.node, ⟨d, there, rfl, ?_⟩, above⟩
    exact Bool.eq_false_iff.mpr waiting

end Scene

/-- What is taken for granted of the changes of a run is true of it. -/
theorem gating_given (env : Environment κ σ) (fuel : Nat) (m : Script κ σ α) (config : Config)
    (journal : Option Journal) (store : σ)
    (plain : ∀ r s, .request r s ∈ (env.record fuel m ⟨.ofConfig config journal, store⟩).steps →
      r.isPlain = true) :
    Along (Gating κ σ).given [] (env.record fuel m ⟨.ofConfig config journal, store⟩).steps := by
  refine Along.iff_splits.mpr fun front x back split => ?_
  have member : x ∈ (env.record fuel m ⟨.ofConfig config journal, store⟩).steps := by simp [split]
  cases x with
  | change s t =>
    exact ⟨placed_of_run env fuel m config journal store s t member,
      stages_of_run env fuel m _ s t member, tidies_of_run env fuel m _ s t member⟩
  | request r s => exact plain r s member
  | answer => trivial

/-- Without consumer code, and as long as the root stays the top and the document is left to the components:
while the document is loading no component leaves the created stage; between operations every created
component in the document waits for it to be loaded, and once it is loaded none waits; and a component is
configured after all that lie above it. -/
theorem gate_of_run [IsEmpty κ] (env : Environment κ σ) (fuel : Nat) (m : Script κ σ α) (config : Config)
    (journal : Option Journal) (store : σ) {h : History κ σ} {ended : Option (α × World κ σ)}
    (ran : env.record fuel m ⟨.ofConfig config journal, store⟩ = ⟨h, ended⟩)
    (plain : ∀ r s, .request r s ∈ h → r.isPlain = true) :
    (∀ s t, .change s t ∈ h → s.loading = true → ∀ id, s.stage? id = some .created →
      t.stage? id = some .created) ∧
    (∀ s : Scene κ, ((∃ r, .request r s ∈ h) ∨ ∃ a w, ended = some (a, w) ∧ w.scene = s) →
      (s.loading = false → s.pending = []) ∧
      ∀ id c, s.component? id = some c → c.stage = .created → s.document.isConnected c.node = true →
        s.loading = true ∧ id ∈ s.pending) ∧
    ∀ s t, .change s t ∈ h → ∀ id c, s.component? id = some c → c.stage = .created →
      t.stage? id = some .configured → ∀ other d, s.component? other = some d →
        s.document.Under c.node d.node → d.stage.isConfigured = true := by
  have kept := Environment.record_fulfils (Gating.meets env) fuel m
    (p := ⟨[], .ofConfig config journal, store⟩) (Gating.wp_script m
      (Scene.regular_ofConfig config journal) (Scene.gated_ofConfig config journal))
  obtain ⟨safe, reached⟩ := kept (gating_given env fuel m config journal store (by rwa [ran]))
  rw [ran] at safe reached
  have step (x : Step κ σ) (member : x ∈ h) : ∃ past, (Gating κ σ).safe past x := by
    obtain ⟨front, back, split⟩ := List.append_of_mem member
    exact ⟨_, Along.iff_splits.mp safe front x back split⟩
  have admits {s t : Scene κ} (member : .change s t ∈ h) : s.Admits t :=
    (step (.change s t) member).elim fun _ admits => admits
  refine ⟨fun s t member loading id created => ?_, fun s between => ?_, fun s t member id c found created
    configured other d there above => (admits member).above found created configured there above⟩
  · exact (admits member).created (stages_of_run env fuel m _ s t (by rwa [ran])) loading created
  · have gated : s.Gated [] := by
      rcases between with ⟨r, member⟩ | ⟨a, w, rfl, rfl⟩
      · exact (step (.request r s) member).elim fun _ gated => gated
      · exact (reached a w rfl).2
    exact ⟨gated.idle, fun id c found created there => gated.created found created there⟩

def waiting : Script Empty Unit Unit := do
  let _ ← Script.request (.register (Declaration.define { tag := "x-in" }))
  let _ ← Script.request (.register (Declaration.define {
    tag := "x-out"
    template := some "<x-in></x-in>" }))
  Script.request .beginLoading
  let x ← Script.request (.createElement "x-out")
  Script.request (.appendChild Document.root x)
  Script.request .finishLoading

def Step.configures (ids : List ComponentId) : Step κ σ → List ComponentId
  | .change s t => ids.filter fun id => s.stage? id = some .created ∧ t.stage? id = some .configured
  | _ => []

def Step.isPlain : Step κ σ → Bool
  | .request r _ => r.isPlain
  | _ => true

theorem gate_of_run_waiting : ∃ h ended s t c, silent.record 20 waiting ⟨.ofConfig {} none, ()⟩ = ⟨h, ended⟩ ∧
    (∀ r s, .request r s ∈ h → r.isPlain = true) ∧ .change s t ∈ h ∧ s.component? ⟨1⟩ = some c ∧
    c.stage = .created ∧ t.stage? ⟨1⟩ = some .configured ∧
    ∀ other d, s.component? other = some d → s.document.Under c.node d.node → d.stage.isConfigured = true := by
  have plain : (silent.record 20 waiting ⟨.ofConfig {} none, ()⟩).steps.all Step.isPlain = true := by
    decide +kernel
  have configured : (silent.record 20 waiting ⟨.ofConfig {} none, ()⟩).steps.any
      (fun x => decide (⟨1⟩ ∈ x.configures [⟨1⟩])) = true := by decide +kernel
  generalize ran : silent.record 20 waiting ⟨.ofConfig {} none, ()⟩ = trace at plain configured
  obtain ⟨h, ended⟩ := trace
  have asked (r : Request Empty) (s : Scene Empty) (member : .request r s ∈ h) : r.isPlain = true :=
    List.all_eq_true.mp plain (.request r s) member
  obtain ⟨x, member, comes⟩ := List.any_eq_true.mp configured
  cases x with
  | change s t =>
    obtain ⟨-, stages⟩ := List.mem_filter.mp (of_decide_eq_true comes)
    obtain ⟨created, late⟩ := of_decide_eq_true stages
    obtain ⟨c, found, stage⟩ := Option.map_eq_some_iff.mp created
    obtain ⟨-, -, above⟩ := gate_of_run silent 20 waiting {} none () ran asked
    exact ⟨h, ended, s, t, c, rfl, asked, member, found, stage, late, above s t member ⟨1⟩ c found stage late⟩
  | request r s => cases of_decide_eq_true comes
  | answer c before a after => cases of_decide_eq_true comes

/-- The root is put below a node outside the document and taken away again. The component below it is in
the document all the time, but it has been taken out of the queue with the root. -/
def losing : Script Empty Unit Unit := do
  let _ ← Script.request (.register (Declaration.define { tag := "x-a" }))
  Script.request .beginLoading
  let x ← Script.request (.createElement "x-a")
  Script.request (.appendChild Document.root x)
  let outside ← Script.request (.createElement "div")
  Script.request (.appendChild outside Document.root)
  let _ ← Script.request (.removeChild outside Document.root)
  Script.request .finishLoading

example : (silent.play 20 losing ⟨.ofConfig {} none, ()⟩).map (fun r => (r.2.scene.loading,
    r.2.scene.stage? ⟨0⟩, r.2.scene.document.isConnected ⟨1⟩)) = some (false, some .created, true) := by
  decide +kernel

end LiveTree
