import LiveTree.Proofs.Guards.Raised

/-! The books on listeners. A component has on record which listeners were added for it, in its
wiring and in its two-way bindings. The books are right if what stands in them is alive, and complete
for a component if nothing else that was added for it is. -/
namespace LiveTree
variable {κ : Type}

inductive Entry
  | wiring
  | binding (site : Nat) (target : String)
  deriving DecidableEq

def Listener.entry? : Listener κ → Option (ComponentId × Entry)
  | .handler id _ => some (id, .wiring)
  | .writeBack id site target => some (id, .binding site target)
  | .consumer _ | .contextHandler .. => none

theorem Listener.eq_handler {k : Listener κ} {id : ComponentId} (belongs : k.entry? = some (id, .wiring)) :
    ∃ method, k = .handler id method := by
  cases k with
  | handler other method =>
    cases belongs
    exact ⟨method, rfl⟩
  | consumer _ => cases belongs
  | writeBack _ _ _ => cases belongs
  | contextHandler _ _ => cases belongs

theorem Listener.eq_writeBack {k : Listener κ} {id : ComponentId} {site : Nat} {target : String}
    (belongs : k.entry? = some (id, .binding site target)) : k = .writeBack id site target := by
  cases k with
  | writeBack other site' target' =>
    cases belongs
    rfl
  | consumer _ => cases belongs
  | handler _ _ => cases belongs
  | contextHandler _ _ => cases belongs

namespace Component

def entries (c : Component κ) : Entry → List ListenerId
  | .wiring => c.wired.map fun w => w.2.2
  | .binding site target =>
    (((c.binding? site target).bind Binding.listener).map fun r => r.2.2).toList

def ties (c : Component κ) : List ListenerId :=
  match c.link with
  | some (.bound _ _ listeners) => listeners.map fun w => w.2.2
  | _ => []

theorem Alike.entries {F : List Field} {c d : Component κ} (alike : c.Alike F d)
    (out : ∀ f ∈ [Field.flow, .wired], f ∉ F) (e : Entry) : d.entries e = c.entries e := by
  have trees : d.bindings = c.bindings := alike.view .flow (out _ (by decide))
  have wired : d.wired = c.wired := alike.view .wired (out _ (by decide))
  cases e with
  | wiring => simp only [Component.entries, wired]
  | binding site target => simp only [Component.entries, binding?, trees]

theorem Alike.ties {F : List Field} {c d : Component κ} (alike : c.Alike F d)
    (out : Field.link ∉ F) : d.ties = c.ties := by
  have links : d.link = c.link := alike.view .link out
  simp only [Component.ties, links]

end Component

namespace Scene

def listener? (s : Scene κ) (l : ListenerId) : Option (Listener κ) := (s.listeners.get? l.index).join

def own? (s : Scene κ) (l : ListenerId) : Option (Listener κ) :=
  (s.listener? l).filter fun k => k.entry?.isSome

def entries (s : Scene κ) (id : ComponentId) (e : Entry) : List ListenerId :=
  ((s.component? id).map fun c => c.entries e).getD []

def ties (s : Scene κ) (id : ComponentId) : List ListenerId :=
  ((s.component? id).map Component.ties).getD []

variable {s t : Scene κ} {id whose : ComponentId} {l : ListenerId} {k : Listener κ}

theorem entries_of_component? {c : Component κ} (found : s.component? id = some c) (e : Entry) :
    s.entries id e = c.entries e := by
  rw [entries, found]
  rfl

theorem own?_eq_some {x : ComponentId × Entry} (belongs : k.entry? = some x) :
    s.own? l = some k ↔ s.listener? l = some k := by
  rw [own?, Option.filter_eq_some_iff, belongs]
  simp

theorem belongs_of_own? (own : s.own? l = some k) : ∃ x, k.entry? = some x :=
  Option.isSome_iff_exists.mp (Option.filter_eq_some_iff.mp own).2

theorem lt_of_own? (own : s.own? l = some k) : l.index < s.listeners.size := by
  have found : (s.listeners.get? l.index).join = some k := (Option.filter_eq_some_iff.mp own).1
  exact (Array.getElem?_eq_some_iff.mp (Option.join_eq_some_iff.mp found)).1

theorem own?_of_listeners (same : t.listeners = s.listeners) (l : ListenerId) :
    t.own? l = s.own? l := by
  rw [own?, listener?, same, own?, listener?]

theorem own?_push (grown : t.listeners = s.listeners.push (some k)) (l : ListenerId) :
    t.own? l = if l.index = s.listeners.size then (some k).filter fun k => k.entry?.isSome
      else s.own? l := by
  rw [own?, listener?, grown, Arena.get?_push]
  split
  · rfl
  · rfl

theorem own?_remove (removed : t.listeners = s.listeners.modify l.index fun _ => none)
    (other : ListenerId) : t.own? other = if other = l then none else s.own? other := by
  obtain ⟨i⟩ := l
  obtain ⟨j⟩ := other
  rw [own?, listener?, removed, Arena.get?_modify]
  by_cases same : i = j
  · subst same
    cases s.listeners.get? i <;> simp
  · rw [if_neg same, if_neg fun equal => same (ListenerId.mk.inj equal).symm, own?, listener?]

structure Hears (s t : Scene κ) (ls : List ListenerId) (x : Option (ComponentId × Entry)) : Prop where
  size : s.listeners.size ≤ t.listeners.size
  old : ∀ l, l.index < s.listeners.size → t.own? l = s.own? l
  new : ∀ l k, s.listeners.size ≤ l.index → t.own? l = some k → l ∈ ls ∧ k.entry? = x
  here : ∀ l ∈ ls, s.listeners.size ≤ l.index ∧ l.index < t.listeners.size
  distinct : ls.Nodup

namespace Hears

theorem refl (s : Scene κ) (x : Option (ComponentId × Entry)) : s.Hears s [] x where
  size := Nat.le_refl _
  old _ _ := rfl
  new _ _ later own := absurd (lt_of_own? own) (Nat.not_lt_of_le later)
  here _ listed := absurd listed List.not_mem_nil
  distinct := List.nodup_nil

theorem cons {u : Scene κ} {ls : List ListenerId} {x : Option (ComponentId × Entry)}
    (grown : u.listeners = s.listeners.push (some k)) (belongs : k.entry? = x)
    (rest : u.Hears t ls x) : s.Hears t (⟨s.listeners.size⟩ :: ls) x := by
  have more : u.listeners.size = s.listeners.size + 1 := by rw [grown, Arena.size_push]
  have size := rest.size
  rw [more] at size
  refine ⟨by omega, ?_, ?_, ?_, ?_⟩
  · intro l inside
    rw [rest.old l (by omega), own?_push grown, if_neg (by omega)]
  · intro l k' later own
    by_cases first : l.index = s.listeners.size
    · rw [rest.old l (by omega), own?_push grown, if_pos first] at own
      obtain ⟨same, -⟩ := Option.filter_eq_some_iff.mp own
      cases same
      refine ⟨?_, belongs⟩
      rw [List.mem_cons]
      exact .inl (congrArg ListenerId.mk first)
    · obtain ⟨listed, here⟩ := rest.new l k' (by omega) own
      exact ⟨List.mem_cons_of_mem _ listed, here⟩
  · intro l listed
    rcases List.mem_cons.mp listed with rfl | listed
    · exact ⟨Nat.le_refl _, size⟩
    · obtain ⟨later, inside⟩ := rest.here l listed
      omega
  · refine List.nodup_cons.mpr ⟨?_, rest.distinct⟩
    intro listed
    obtain ⟨later, -⟩ := rest.here _ listed
    rw [more] at later
    exact Nat.not_succ_le_self _ later

theorem push (grown : t.listeners = s.listeners.push (some k)) :
    s.Hears t [⟨s.listeners.size⟩] k.entry? := .cons grown rfl (.refl t _)

theorem congr {u : Scene κ} {ls : List ListenerId} {x : Option (ComponentId × Entry)}
    (hears : s.Hears t ls x) (same : u.listeners = t.listeners) : s.Hears u ls x where
  size := by rw [same]; exact hears.size
  old l inside := (own?_of_listeners same l).trans (hears.old l inside)
  new l k later own := hears.new l k later ((own?_of_listeners same l).symm.trans own)
  here := by rw [same]; exact hears.here
  distinct := hears.distinct

/-- New listeners that belong to no entry do not count. -/
theorem quiet {ls : List ListenerId} (hears : s.Hears t ls none) (l : ListenerId) :
    t.own? l = s.own? l := by
  rcases Nat.lt_or_ge l.index s.listeners.size with inside | later
  · exact hears.old l inside
  · have before : s.own? l = none := by
      rw [Option.eq_none_iff_forall_ne_some]
      intro k own
      exact Nat.not_lt_of_le later (lt_of_own? own)
    rw [before, Option.eq_none_iff_forall_ne_some]
    intro k own
    obtain ⟨x, belongs⟩ := belongs_of_own? own
    cases (hears.new l k later own).2.symm.trans belongs

end Hears

structure Trades (s t : Scene κ) (gone ls : List ListenerId) (x : ComponentId × Entry) : Prop where
  size : s.listeners.size ≤ t.listeners.size
  old : ∀ l, l.index < s.listeners.size → t.own? l = if l ∈ gone then none else s.own? l
  new : ∀ l k, s.listeners.size ≤ l.index → t.own? l = some k → l ∈ ls ∧ k.entry? = some x
  here : ∀ l ∈ ls, s.listeners.size ≤ l.index ∧ ∃ k, t.own? l = some k
  distinct : ls.Nodup

theorem Hears.trades {ls : List ListenerId} {x : ComponentId × Entry} (hears : s.Hears t ls (some x))
    (alive : ∀ l ∈ ls, ∃ k, t.own? l = some k) : s.Trades t [] ls x where
  size := hears.size
  old l inside := by rw [hears.old l inside, if_neg List.not_mem_nil]
  new := hears.new
  here l listed := ⟨(hears.here l listed).1, alive l listed⟩
  distinct := hears.distinct

theorem Trades.of_removed {gone : List ListenerId} (x : ComponentId × Entry)
    (size : t.listeners.size = s.listeners.size)
    (own : ∀ l, t.own? l = if l ∈ gone then none else s.own? l) : s.Trades t gone [] x where
  size := Nat.le_of_eq size.symm
  old l _ := own l
  new _ _ later here := absurd (lt_of_own? here) (Nat.not_lt_of_le (size ▸ later))
  here _ listed := absurd listed List.not_mem_nil
  distinct := List.nodup_nil

/-- What a component has on record is alive. Of one component there is nothing alive that it has not
on record. The listeners that tie components to contexts are none of the tree's own. -/
structure Booked (s : Scene κ) (id : ComponentId) : Prop where
  kept : ∀ other e, ∀ l ∈ s.entries other e, ∃ k, s.own? l = some k ∧ k.entry? = some (other, e)
  complete : ∀ e l k, s.own? l = some k → k.entry? = some (id, e) → l ∈ s.entries id e
  distinct : ∀ e, (s.entries id e).Nodup
  tied : ∀ other, ∀ l ∈ s.ties other, l.index < s.listeners.size ∧ s.own? l = none

namespace Booked

/-- What belongs to one entry stays if another one is changed. -/
theorem alive (booked : s.Booked id) {e x : Entry} {ls : List ListenerId} {other : ComponentId}
    (trades : s.Trades t (s.entries whose e) ls (whose, e)) (own : s.own? l = some k)
    (belongs : k.entry? = some (other, x)) (apart : ¬(other = whose ∧ x = e)) :
    t.own? l = some k := by
  rw [trades.old l (lt_of_own? own), if_neg, own]
  intro both
  obtain ⟨k', own', belongs'⟩ := booked.kept whose e l both
  cases own.symm.trans own'
  cases belongs.symm.trans belongs'
  exact apart ⟨rfl, rfl⟩

theorem of_same (booked : s.Booked id) (own : ∀ l, t.own? l = s.own? l)
    (entries : ∀ other e, t.entries other e = s.entries other e)
    (size : s.listeners.size ≤ t.listeners.size)
    (ties : ∀ other, ∀ l ∈ t.ties other, l ∈ s.ties other ∨
      l.index < t.listeners.size ∧ s.own? l = none) : t.Booked id where
  kept other e l listed := by
    rw [own]
    exact booked.kept other e l (by rwa [← entries])
  complete e l k here belongs := by
    rw [entries]
    exact booked.complete e l k (by rwa [← own]) belongs
  distinct e := by
    rw [entries]
    exact booked.distinct e
  tied other l listed := by
    rw [own]
    rcases ties other l listed with before | fresh
    · exact ⟨(booked.tied other l before).1.trans_le size, (booked.tied other l before).2⟩
    · exact fresh

/-- One entry may come to hold other listeners. -/
theorem relist (booked : s.Booked id) {e : Entry} {ls : List ListenerId}
    (entries : ∀ other x, t.entries other x =
      if other = whose ∧ x = e then ls else s.entries other x)
    (ties : ∀ other, t.ties other = s.ties other)
    (trades : s.Trades t (s.entries whose e) ls (whose, e)) : t.Booked id where
  kept other x l listed := by
    rw [entries] at listed
    split at listed
    · next same =>
      obtain ⟨rfl, rfl⟩ := same
      obtain ⟨later, k, own⟩ := trades.here l listed
      exact ⟨k, own, (trades.new l k later own).2⟩
    · next apart =>
      obtain ⟨k, own, belongs⟩ := booked.kept other x l listed
      exact ⟨k, booked.alive trades own belongs apart, belongs⟩
  complete x l k own belongs := by
    rw [entries]
    by_cases late : s.listeners.size ≤ l.index
    · obtain ⟨listed, here⟩ := trades.new l k late own
      cases belongs.symm.trans here
      rwa [if_pos ⟨rfl, rfl⟩]
    · rw [trades.old l (Nat.lt_of_not_le late)] at own
      split at own
      · cases own
      · next gone =>
        have before := booked.complete x l k own belongs
        rw [if_neg]
        · exact before
        · rintro ⟨rfl, rfl⟩
          exact gone before
  distinct x := by
    rw [entries]
    split
    · exact trades.distinct
    · exact booked.distinct x
  tied other l listed := by
    rw [ties] at listed
    obtain ⟨inside, none⟩ := booked.tied other l listed
    refine ⟨inside.trans_le trades.size, ?_⟩
    rw [trades.old l inside, none, ite_self]

/-- A component may forget what it had on record, if it is not the one whose books are complete. -/
theorem shrink (booked : s.Booked id) (own : ∀ l, t.own? l = s.own? l)
    (entries : ∀ other e, ∀ l ∈ t.entries other e, l ∈ s.entries other e)
    (complete : ∀ e, t.entries id e = s.entries id e)
    (size : t.listeners.size = s.listeners.size) (ties : ∀ other, t.ties other = s.ties other) :
    t.Booked id where
  kept other e l listed := by
    rw [own]
    exact booked.kept other e l (entries other e l listed)
  complete e l k here belongs := by
    rw [complete]
    exact booked.complete e l k (by rwa [← own]) belongs
  distinct e := by
    rw [complete]
    exact booked.distinct e
  tied other l listed := by
    rw [own, size]
    exact booked.tied other l (by rwa [← ties])

end Booked
end Scene
end LiveTree
