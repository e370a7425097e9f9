import LiveTree.Proofs.Footprint.Life

/-! Guards: what a tree is marked with while an operation is under way that must not come upon
itself. A guard is raised on the way into the operation and lowered on the way out. Here is which
changes of a scene raise guards, and which of them. -/
namespace LiveTree
variable {κ : Type}

inductive Mark
  | slot (name : String)
  | handlers
  | context
  | binding (site : Nat) (target : String)
  deriving DecidableEq

inductive Guard
  | component (id : ComponentId) (m : Mark)
  | template
  deriving DecidableEq

def Component.marked (c : Component κ) : Mark → Bool
  | .slot name => (Keyed.get? c.slots name).any Slot.busy
  | .handlers => c.changing
  | .context => c.writingBack
  | .binding site target => (c.binding? site target).any Binding.updating

def Scene.raised (s : Scene κ) : Guard → Bool
  | .component id m => (s.component? id).any fun c => c.marked m
  | .template => s.templateOwner.isSome

def Field.guards : List Field := [.components, .templateOwner, .values, .changing, .writingBack, .flow]

namespace BindingTree

theorem site?_modifySite (t : BindingTree) (i j : Nat) (f : Site → Site) :
    (t.modifySite i f).site? j = if i = j then (t.site? j).map f else t.site? j :=
  Arena.get?_modify _ _ _ _

theorem binding?_modify (t : BindingTree) (i j : Nat) (target key : String) (f : Binding → Binding) :
    (t.modify i target f).binding? j key =
      if i = j ∧ key = target then (t.binding? j key).map f else t.binding? j key := by
  rw [binding?, modify, site?_modifySite, binding?]
  by_cases here : i = j
  · cases t.site? j with
    | none => simp
    | some site => simp [here, Keyed.get?_modify]
  · rw [if_neg here, if_neg fun both => here both.1]

/-- A binding that is found after one was put in is that one or was there before. -/
theorem eq_or_of_binding?_insert {t : BindingTree} {i j : Nat} {b d : Binding} {key : String}
    (found : (t.insert i b).binding? j key = some d) : d = b ∨ t.binding? j key = some d := by
  rw [binding?, insert, site?_modifySite] at found
  by_cases here : i = j
  · rw [if_pos here, Option.bind_map] at found
    obtain ⟨site, there, held⟩ := Option.bind_eq_some_iff.mp found
    by_cases same : key = b.target
    · rw [Function.comp, same, Keyed.get?_insert_self] at held
      exact .inl (Option.some.inj held).symm
    · rw [Function.comp, Keyed.get?_insert_of_ne _ _ same] at held
      exact .inr (Option.bind_eq_some_iff.mpr ⟨site, there, held⟩)
  · rw [if_neg here] at found
    exact .inr found

theorem of_binding?_erase {t : BindingTree} {i j : Nat} {target key : String} {d : Binding}
    (found : (t.erase i target).binding? j key = some d) : t.binding? j key = some d := by
  rw [binding?, erase, site?_modifySite] at found
  by_cases here : i = j
  · rw [if_pos here, Option.bind_map] at found
    obtain ⟨site, there, held⟩ := Option.bind_eq_some_iff.mp found
    rw [Function.comp, Keyed.get?_erase] at held
    split at held
    · cases held
    · exact Option.bind_eq_some_iff.mpr ⟨site, there, held⟩
  · rwa [if_neg here] at found

section Sites
variable (s : Surroundings) {P : Site → Prop}
  (made : ∀ x site, s.site? x = some site → ∀ parent, P { site with parent := some parent })
include made

theorem sites_grow (most parent : Nat) {t : BindingTree} (holds : ∀ i site, t.site? i = some site → P site)
    (x : NodeId) : ∀ i site, (s.grow most parent t x).site? i = some site → P site := by
  induction most generalizing parent t x with
  | zero => exact holds
  | succ most ih =>
    rw [Surroundings.grow]
    split
    · next site found =>
      have added : ∀ i y, (t.add parent site).2.site? i = some y → P y := by
        intro i y there
        rw [BindingTree.site?, add, Arena.get?_push] at there
        split at there
        · cases there
          exact made x site found parent
        · exact holds i y there
      dsimp only
      split
      · exact List.foldlRecOn _ _
          (motive := fun t : BindingTree => ∀ i site, t.site? i = some site → P site) added
          fun _ holds y _ => ih _ holds y
      · exact added
    · exact holds

/-- What holds of the host's site before it has bindings and of the sites of nodes holds of every site. -/
theorem sites_ofTemplate {host : NodeId} (alone : P { node := host }) (template : List NodeId) :
    ∀ i site, (ofTemplate s host template).site? i = some site → P site := by
  have first : ∀ i site, (ofHost host).site? i = some site → P site := by
    intro i site there
    cases i with
    | zero =>
      cases there
      exact alone
    | succ i => cases there
  exact List.foldlRecOn template (s.grow (s.document.size + 1) 0)
    (motive := fun t : BindingTree => ∀ i site, t.site? i = some site → P site) first
    fun _ holds x _ => sites_grow s made _ _ holds x

end Sites

section Templates
variable (s : Surroundings) {P : Keyed Binding → Prop} (bare : P [])
  (insert : ∀ bs target token, P bs → P (bs.insert target (s.bind target token)))

namespace Surroundings
include insert

theorem bindings_addAttribute {site : Site} (holds : P site.bindings) (attr : String) :
    P (s.addAttribute site attr).bindings := by
  unfold addAttribute
  split
  · exact holds
  · extract_lets text
    split
    · exact holds
    · split
      · exact insert _ _ _ holds
      · exact holds

include bare

theorem bindings_site? {x : NodeId} {site : Site} (found : s.site? x = some site) : P site.bindings := by
  unfold site? at found
  split at found
  · split at found
    · next token _ =>
      obtain rfl := Option.some.inj found
      exact insert [] textTarget token bare
    · obtain rfl := Option.some.inj found
      exact bare
  · obtain rfl := Option.some.inj found
    exact List.foldlRecOn _ _ (motive := fun site : Site => P site.bindings) bare fun _ holds attr _ =>
      s.bindings_addAttribute insert holds attr
  · cases found

end Surroundings

include bare insert in
/-- What goes over when a site gets a binding from a token holds of the bindings of every site. -/
theorem bindings_ofTemplate (host : NodeId) (template : List NodeId) :
    ∀ i site, (ofTemplate s host template).site? i = some site → P site.bindings := by
  refine sites_ofTemplate s (P := fun site => P site.bindings) (fun x site made parent => ?_) bare template
  have holds : P site.bindings := s.bindings_site? bare insert made
  exact holds

end Templates

def Quiet (t : BindingTree) : Prop :=
  ∀ i target b, t.binding? i target = some b → b.updating = false

/-- The bindings of a fresh template are at rest. -/
theorem quiet_ofTemplate (s : Surroundings) (host : NodeId) (template : List NodeId) :
    (ofTemplate s host template).Quiet := by
  have quiet := bindings_ofTemplate s (P := fun bs => ∀ target b, Keyed.get? bs target = some b → b.updating = false)
    (fun _ _ held => nomatch held) (fun bs target token holds key b found => ?_) host template
  · intro i target b found
    obtain ⟨site, there, held⟩ := Option.bind_eq_some_iff.mp found
    exact quiet i site there target b held
  · by_cases same : key = target
    · rw [same, Keyed.get?_insert_self] at found
      cases found
      rfl
    · rw [Keyed.get?_insert_of_ne _ _ same] at found
      exact holds key b found

end BindingTree

/-- A slot that is found after slots were filled up was there before or holds a default. -/
theorem Slots.eq_of_get?_fill {slots : Slots} {name : String} {slot : Slot} (schema : Schema)
    (found : Keyed.get? (slots.fill schema) name = some slot) :
    Keyed.get? slots name = some slot ∨ slot.busy = false := by
  rw [get?_fill, Option.or_eq_some_iff] at found
  rcases found with before | ⟨-, added⟩
  · exact .inl before
  · obtain ⟨p, -, rfl⟩ := Option.map_eq_some_iff.mp added
    exact .inr rfl

namespace Component
variable (c : Component κ)

theorem Alike.marked {F : List Field} {c d : Component κ} (alike : c.Alike F d)
    (out : ∀ f ∈ Field.guards, f ∉ F) (m : Mark) : d.marked m = c.marked m := by
  cases m with
  | slot name =>
    have same := congrFun (alike.view .values (out _ (by decide))) name
    have busy := congrArg (fun held => held.any fun x : Value × Bool => x.2) same
    simpa only [Component.marked, Component.view, Option.any_map] using busy
  | handlers => exact alike.view .changing (out _ (by decide))
  | context => exact alike.view .writingBack (out _ (by decide))
  | binding site target =>
    have same : d.bindings = c.bindings := alike.view .flow (out _ (by decide))
    simp only [Component.marked, binding?, same]

/-- A change of a slot shows in the mark of that slot only. -/
theorem marked_modifySlot (name : String) (f : Slot → Slot) (m : Mark) :
    (c.modifySlot name f).marked m =
      if m = .slot name then (Keyed.get? c.slots name).any fun slot => (f slot).busy
      else c.marked m := by
  cases m with
  | slot key =>
    simp only [marked, modifySlot, Keyed.get?_modify, Mark.slot.injEq]
    split
    · next same => rw [same, Option.any_map]
    · rfl
  | _ => rfl

theorem marked_modifyBinding (site : Nat) (target : String) (f : Binding → Binding) (m : Mark) :
    (c.modifyBindings fun t => t.modify site target f).marked m =
      if m = .binding site target then (c.binding? site target).any fun b => (f b).updating
      else c.marked m := by
  cases m with
  | binding i key =>
    simp only [marked, modifyBindings, binding?, Mark.binding.injEq]
    cases c.bindings with
    | none => simp
    | some t =>
      simp only [Option.map_some, Option.bind_some, t.binding?_modify]
      by_cases same : i = site ∧ key = target
      · obtain ⟨rfl, rfl⟩ := same
        simp only [and_self, ↓reduceIte, Option.any_map]
      · rw [if_neg same, if_neg fun both => same ⟨both.1.symm, both.2⟩]
  | _ => rfl

/-- A change of a slot may raise the guard of that slot only. -/
theorem raises_modifySlot (name : String) (f : Slot → Slot) (m : Mark)
    (raised : (c.modifySlot name f).marked m = true) : m ∈ [.slot name] ∨ c.marked m = true := by
  rw [marked_modifySlot] at raised
  split at raised
  · next same => exact .inl (List.mem_singleton.mpr same)
  · exact .inr raised

/-- A change of a binding may raise the guard of that binding only. -/
theorem raises_modifyBinding (site : Nat) (target : String) (f : Binding → Binding) (m : Mark)
    (raised : (c.modifyBindings fun t => t.modify site target f).marked m = true) :
    m ∈ [.binding site target] ∨ c.marked m = true := by
  rw [marked_modifyBinding] at raised
  split at raised
  · next same => exact .inl (List.mem_singleton.mpr same)
  · exact .inr raised

theorem raises_changing (b : Bool) (m : Mark)
    (raised : ({ c with changing := b } : Component κ).marked m = true) :
    m ∈ [.handlers] ∨ c.marked m = true := by
  cases m with
  | handlers => exact .inl List.mem_cons_self
  | _ => exact .inr raised

theorem raises_writingBack (b : Bool) (m : Mark)
    (raised : ({ c with writingBack := b } : Component κ).marked m = true) :
    m ∈ [.context] ∨ c.marked m = true := by
  cases m with
  | context => exact .inl List.mem_cons_self
  | _ => exact .inr raised

/-- Bindings that are at rest or were there before raise nothing. -/
theorem marked_of_bindings {c d : Component κ} (slots : d.slots = c.slots)
    (changing : d.changing = c.changing) (writingBack : d.writingBack = c.writingBack)
    (bindings : ∀ i target b, d.binding? i target = some b →
      b.updating = false ∨ c.binding? i target = some b)
    {m : Mark} (raised : d.marked m = true) : c.marked m = true := by
  cases m with
  | slot name => rwa [marked, ← slots]
  | handlers => rwa [marked, ← changing]
  | context => rwa [marked, ← writingBack]
  | binding i target =>
    obtain ⟨b, found, updating⟩ := (Option.any_eq_true _ _).mp raised
    rcases bindings i target b found with still | before
    · exact nomatch still.symm.trans updating
    · simp only [marked, before, Option.any_some, updating]

/-- A component that joins an extended type gets slots that are free. -/
theorem marked_of_adopt {d : Definition κ} {added : Capability κ} {m : Mark}
    (raised : (c.adopt d added).marked m = true) : c.marked m = true := by
  cases m with
  | slot name =>
    obtain ⟨slot, found, busy⟩ := (Option.any_eq_true _ _).mp raised
    rcases Slots.eq_of_get?_fill d.schema found with before | free
    · simp only [marked, before, Option.any_some, busy]
    · exact nomatch free.symm.trans busy
  | _ => exact raised

theorem marked_new (d : Definition κ) (x : NodeId) (owner : Option ComponentId) (m : Mark) :
    (new d x owner).marked m = false := by
  cases m with
  | slot name =>
    refine Bool.eq_false_iff.mpr fun raised => ?_
    obtain ⟨slot, found, busy⟩ := (Option.any_eq_true _ _).mp raised
    obtain ⟨p, -, same⟩ := List.mem_map.mp (Keyed.mem_of_get? found)
    cases same
    cases busy
  | _ => rfl

end Component

namespace Scene

def Raises (G : List Guard) (s t : Scene κ) : Prop :=
  ∀ g, t.raised g = true → g ∈ G ∨ s.raised g = true

theorem raised_modify (s : Scene κ) (id : ComponentId) (f : Component κ → Component κ) (m : Mark) :
    (s.modify id f).raised (.component id m) = (s.component? id).any fun c => (f c).marked m := by
  rw [raised, component?_modify, if_pos rfl, Option.any_map]

namespace Raises
variable {G : List Guard} {s t u : Scene κ}

theorem refl (s : Scene κ) : s.Raises G s := fun _ here => .inr here

theorem trans (first : s.Raises G t) (second : t.Raises [] u) : s.Raises G u := fun g here =>
  first g ((second g here).resolve_left List.not_mem_nil)

/-- The guards are lowered, whatever has become of them in between. -/
theorem lower (first : s.Raises G t) (second : t.Raises G u)
    (lowered : ∀ g ∈ G, u.raised g = true → s.raised g = true) : s.Raises [] u := by
  intro g here
  refine .inr ?_
  rcases second g here with one | still
  · exact lowered g one here
  · rcases first g still with one | before
    · exact lowered g one here
    · exact before

theorem of_alike {F : List Field} (alike : s.Alike F t) (out : ∀ f ∈ Field.guards, f ∉ F) :
    s.Raises G t := by
  intro g here
  refine .inr ?_
  cases g with
  | component id m =>
    have same := alike.map_component? (out _ (by decide)) (fun c => c.marked m)
      (fun _ _ alike => alike.marked out m) id
    have view (s : Scene κ) :
        s.raised (.component id m) = ((s.component? id).map fun c => c.marked m).any (· == true) := by
      rw [raised, Option.any_map]
      congr
      simp
    rwa [view, ← same, ← view]
  | template =>
    have same : t.templateOwner = s.templateOwner := alike.view .templateOwner (out _ (by decide))
    rwa [raised, ← same]

theorem modify (s : Scene κ) (id : ComponentId) {f : Component κ → Component κ} {M : List Mark}
    (keeps : ∀ c m, (f c).marked m = true → m ∈ M ∨ c.marked m = true) :
    s.Raises (M.map (.component id)) (s.modify id f) := by
  intro g here
  cases g with
  | component other m =>
    by_cases same : id = other
    · subst same
      rw [raised_modify] at here
      obtain ⟨c, found, marked⟩ := (Option.any_eq_true _ _).mp here
      refine (keeps c m marked).imp (List.mem_map_of_mem) fun before => ?_
      simp only [raised, found, Option.any_some, before]
    · rw [raised, component?_modify, if_neg same] at here
      exact .inr here
  | template => exact .inr here

theorem template (s : Scene κ) (owner : Option ComponentId) :
    s.Raises [.template] { s with templateOwner := owner } := by
  intro g here
  cases g with
  | component id m => exact .inr here
  | template => exact .inl List.mem_cons_self

theorem push (s : Scene κ) (d : Definition κ) (x : NodeId) (owner : Option ComponentId) :
    s.Raises G { s with components := s.components.push (.new d x owner) } := by
  intro g here
  refine .inr ?_
  cases g with
  | component id m =>
    rw [raised, component?, Arena.get?_push] at here
    split at here
    · rw [Option.any_some, Component.marked_new] at here
      cases here
    · exact here
  | template => exact here

end Raises
end Scene
end LiveTree
