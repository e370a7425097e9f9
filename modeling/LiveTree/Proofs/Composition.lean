import LiveTree.Component.Definition

/-!
How component types are put together. A `Design` is the way in which a type came about: from a
declaration and the types it extends, by composition with default capabilities, by adding one
capability. Whatever a type has itself wins over its bases, of the bases the first one wins, and
methods of capabilities only take the names that are left, the earlier capability first.
-/
namespace LiveTree
variable {κ α β : Type}

namespace Keyed

theorem get?_map (xs : Keyed α) (f : α → β) (key : String) :
    get? (xs.map fun x => (x.1, f x.2)) key = (get? xs key).map f := by
  induction xs with
  | nil => rfl
  | cons x rest ih => by_cases same : x.1 = key <;> simp [get?, same, ih]

theorem get?_ofList (xs : List (String × α)) (key : String) :
    get? (ofList xs) key = get? xs.reverse key := by
  have fold (acc : Keyed α) :
      get? (xs.foldl (fun acc x => insert acc x.1 x.2) acc) key =
        (get? xs.reverse key).or (get? acc key) := by
    induction xs generalizing acc with
    | nil => rfl
    | cons x rest ih =>
      rw [List.foldl_cons, ih, List.reverse_cons, get?_append, Option.or_assoc]
      congr 1
      by_cases same : x.1 = key
      · subst same
        simp [get?_insert_self, get?]
      · rw [get?_insert_of_ne _ _ (Ne.symm same)]
        simp [get?, same]
  exact (fold []).trans (Option.or_none ..)

theorem get?_foldl_insertNew (xs : List (String × α)) (acc : Keyed α) (key : String) :
    get? (xs.foldl (fun acc x => insertNew acc x.1 x.2) acc) key =
      (get? acc key).or (get? xs key) := by
  induction xs generalizing acc with
  | nil => exact (Option.or_none ..).symm
  | cons x rest ih =>
    obtain ⟨name, a⟩ := x
    rw [List.foldl_cons, ih, get?_insertNew, Option.or_assoc]
    by_cases same : name = key <;> simp [get?, same]

end Keyed

def Capability.provided? (c : Capability κ) (name : String) : Option (MethodEntry κ) :=
  (Keyed.get? c.methods name).map fun m => { owner := some c.name, method := m }

namespace Definition

def core (d : Definition κ) : Definition κ :=
  { d with schema := {}, methods := [], capabilities := [] }

def take (d : Definition κ) (c : Capability κ) : Definition κ := (d.add? c).getD d

theorem take_eq (d : Definition κ) (c : Capability κ) :
    d.take c = if d.has c.name then d else
      { d with
        schema := c.properties.foldl Schema.declareNew d.schema
        methods := addMethods d.methods c
        capabilities := d.capabilities ++ [c] } := by
  unfold take add?
  split <;> rfl

theorem add?_eq_some {d e : Definition κ} {c : Capability κ} (added : d.add? c = some e) :
    d.has c.name = false ∧ e = d.take c := by
  rw [take, added]
  unfold add? at added
  split at added
  · cases added
  · next free => exact ⟨Bool.not_eq_true _ ▸ free, rfl⟩

theorem capabilities_take {d : Definition κ} {c : Capability κ} (free : d.has c.name = false) :
    (d.take c).capabilities = d.capabilities ++ [c] := by
  rw [take_eq, free]
  rfl

theorem get?_ownTable (methods : Keyed κ) (name : String) :
    Keyed.get? (ownTable methods) name =
      (Keyed.get? methods name).map fun k => { owner := none, method := .custom k } :=
  Keyed.get?_map methods (fun k => ({ owner := none, method := .custom k } : MethodEntry κ)) name

theorem addMethods_eq (table : Keyed (MethodEntry κ)) (c : Capability κ) :
    addMethods table c =
      (c.methods.map fun m => (m.1, ({ owner := some c.name, method := m.2 } : MethodEntry κ))).foldl
        (fun acc m => acc.insertNew m.1 m.2) table := by
  rw [List.foldl_map]
  rfl

theorem get?_addMethods (table : Keyed (MethodEntry κ)) (c : Capability κ) (name : String) :
    Keyed.get? (addMethods table c) name = (Keyed.get? table name).or (c.provided? name) := by
  rw [addMethods_eq, Keyed.get?_foldl_insertNew]
  congr 1
  exact Keyed.get?_map c.methods
    (fun m => ({ owner := some c.name, method := m } : MethodEntry κ)) name

theorem get?_foldl_addMethods (cs : List (Capability κ)) (table : Keyed (MethodEntry κ))
    (name : String) :
    Keyed.get? (cs.foldl addMethods table) name =
      (Keyed.get? table name).or (cs.findSome? (·.provided? name)) := by
  induction cs generalizing table with
  | nil => exact (Option.or_none ..).symm
  | cons c rest ih =>
    rw [List.foldl_cons, ih, get?_addMethods, Option.or_assoc]
    cases h : c.provided? name <;> simp [h]

theorem core_take (d : Definition κ) (c : Capability κ) : (d.take c).core = d.core := by
  rw [take_eq]
  split <;> rfl

theorem core_foldl_take (cs : List (Capability κ)) (d : Definition κ) :
    (cs.foldl take d).core = d.core := by
  induction cs generalizing d with
  | nil => rfl
  | cons c rest ih => rw [List.foldl_cons, ih, core_take]

/-- Of the capabilities of one name the first one is kept. -/
theorem find?_take (d : Definition κ) (c : Capability κ) (name : String) :
    (d.take c).capabilities.find? (·.name == name) =
      (d.capabilities ++ [c]).find? (·.name == name) := by
  rw [take_eq]
  split
  · next present =>
    obtain ⟨earlier, member, same⟩ := List.any_eq_true.mp present
    rw [List.find?_append]
    by_cases h : c.name = name
    · have found : (d.capabilities.find? (·.name == name)).isSome := by
        rw [List.find?_isSome]
        exact ⟨earlier, member, by rw [← h]; exact same⟩
      rw [Option.or_of_isSome found]
    · simp [h]
  · rfl

theorem sublist_take (d : Definition κ) (c : Capability κ) :
    (d.take c).capabilities.Sublist (d.capabilities ++ [c]) := by
  rw [take_eq]
  split
  · exact List.sublist_append_left ..
  · exact .refl _

theorem nodup_take {d : Definition κ} (distinct : (d.capabilities.map Capability.name).Nodup)
    (c : Capability κ) : ((d.take c).capabilities.map Capability.name).Nodup := by
  rw [take_eq]
  split
  · exact distinct
  · next absent =>
    rw [List.map_append, List.map_cons, List.map_nil, List.nodup_append]
    refine ⟨distinct, by simp, ?_⟩
    rintro name member other here rfl
    obtain ⟨e, there, same⟩ := List.mem_map.mp member
    rw [List.mem_singleton] at here
    exact absent (List.any_eq_true.mpr ⟨e, there, by simp [same, here]⟩)

theorem nodup_foldl_take (cs : List (Capability κ)) {d : Definition κ}
    (distinct : (d.capabilities.map Capability.name).Nodup) :
    ((cs.foldl take d).capabilities.map Capability.name).Nodup := by
  induction cs generalizing d with
  | nil => exact distinct
  | cons c rest ih => exact ih (nodup_take distinct c)

theorem find?_foldl_take (cs : List (Capability κ)) (d : Definition κ) (name : String) :
    (cs.foldl take d).capabilities.find? (·.name == name) =
      (d.capabilities ++ cs).find? (·.name == name) := by
  induction cs generalizing d with
  | nil => simp
  | cons c rest ih =>
    rw [List.foldl_cons, ih, List.find?_append, find?_take, ← List.find?_append, List.append_assoc]
    rfl

theorem sublist_foldl_take (cs : List (Capability κ)) (d : Definition κ) :
    (cs.foldl take d).capabilities.Sublist (d.capabilities ++ cs) := by
  induction cs generalizing d with
  | nil => simp
  | cons c rest ih =>
    rw [List.foldl_cons]
    refine (ih _).trans ?_
    simpa using (sublist_take d c).append_right rest

/-- The order of precedence in a type that is ready for use: its capabilities have different names,
and their methods stand behind those of the type. -/
structure Ranked (d : Definition κ) : Prop where
  distinct : (d.capabilities.map Capability.name).Nodup
  dispatch : ∀ name, Keyed.get? d.methods name =
    ((Keyed.get? d.ownMethods name).map fun k => { owner := none, method := .custom k }).or
      (d.capabilities.findSome? (·.provided? name))

theorem Ranked.take {d : Definition κ} (ranked : d.Ranked) (c : Capability κ) :
    (d.take c).Ranked where
  distinct := nodup_take ranked.distinct c
  dispatch := by
    intro name
    rw [take_eq]
    split
    · exact ranked.dispatch name
    · change Keyed.get? (addMethods d.methods c) name = _
      rw [get?_addMethods, ranked.dispatch, Option.or_assoc]
      cases h : d.capabilities.findSome? (·.provided? name) <;> simp [List.findSome?_append, h]

theorem Ranked.foldl_take {d : Definition κ} (ranked : d.Ranked) (cs : List (Capability κ)) :
    (cs.foldl Definition.take d).Ranked := by
  induction cs generalizing d with
  | nil => exact ranked
  | cons c rest ih => exact ih (ranked.take c)

theorem core_compose (d : Definition κ) (defaults : List (Capability κ)) :
    (d.compose defaults).core = d.core :=
  core_foldl_take (defaults ++ d.capabilities) { d with capabilities := [] }

theorem capabilities_compose (d : Definition κ) (defaults : List (Capability κ)) :
    (d.compose defaults).capabilities =
      ((defaults ++ d.capabilities).foldl take { d with capabilities := [] }).capabilities := rfl

/-- The table is made anew, from all that the type has by then. -/
theorem ranked_compose (d : Definition κ) (defaults : List (Capability κ)) :
    (d.compose defaults).Ranked where
  distinct := by
    rw [capabilities_compose]
    exact nodup_foldl_take _ List.nodup_nil
  dispatch := by
    intro name
    change Keyed.get? ((d.compose defaults).capabilities.foldl addMethods
      (ownTable (d.compose defaults).ownMethods)) name = _
    rw [get?_foldl_addMethods, get?_ownTable]

end Definition

namespace Definition

structure Enlarges (d e : Definition κ) : Prop where
  core : e.core = d.core
  schema : d.schema.Within e.schema
  capabilities : d.capabilities.Sublist e.capabilities
  methods : ∀ name x, d.methods.get? name = some x → e.methods.get? name = some x

namespace Enlarges
variable {d e f : Definition κ}

theorem refl (d : Definition κ) : d.Enlarges d := ⟨rfl, .refl _, .refl _, fun _ _ found => found⟩

theorem trans (first : d.Enlarges e) (second : e.Enlarges f) : d.Enlarges f where
  core := second.core.trans first.core
  schema := first.schema.trans second.schema
  capabilities := first.capabilities.trans second.capabilities
  methods name x found := second.methods name x (first.methods name x found)

theorem tag (h : d.Enlarges e) : e.tag = d.tag := by
  change e.core.tag = d.core.tag
  rw [h.core]

theorem take (d : Definition κ) (c : Capability κ) : d.Enlarges (d.take c) := by
  refine ⟨core_take d c, ?_, ?_, ?_⟩ <;> rw [take_eq] <;> split
  · exact .refl _
  · exact Schema.within_foldl_declareNew _ _
  · exact .refl _
  · exact List.sublist_append_left ..
  · exact fun _ _ found => found
  · intro name x found
    change Keyed.get? (addMethods d.methods c) name = _
    rw [get?_addMethods, found, Option.some_or]

end Enlarges

end Definition

inductive Design (κ : Type)
  | declared (own : Declaration κ) (bases : List (Design κ))
  | composed (t : Design κ) (defaults : List (Capability κ))
  | extended (t : Design κ) (c : Capability κ)

namespace Design

def type : Design κ → Definition κ
  | declared own bases => { own with bases := bases.map type }.define
  | composed t defaults => t.type.compose defaults
  | extended t c => t.type.take c

def first? (f : Declaration κ → Option α) : Design κ → Option α
  | declared own bases => (f own).or ((bases.map (first? f)).findSome? id)
  | composed t _ => t.first? f
  | extended t _ => t.first? f

def declarations : Design κ → List (Declaration κ)
  | declared own bases => own :: (bases.map declarations).flatten
  | composed t _ => t.declarations
  | extended t _ => t.declarations

def handedIn : Design κ → List (Capability κ)
  | declared own bases => (bases.map handedIn).reverse.flatten ++ own.capabilities
  | composed t defaults => defaults ++ t.handedIn
  | extended t c => t.handedIn ++ [c]

@[elab_as_elim]
theorem induct {motive : Design κ → Prop}
    (declared : ∀ own bases, (∀ b ∈ bases, motive b) → motive (.declared own bases))
    (composed : ∀ t defaults, motive t → motive (.composed t defaults))
    (extended : ∀ t c, motive t → motive (.extended t c)) : ∀ t, motive t
  | .declared own bases =>
    declared own bases fun b _ => induct declared composed extended b
  | .composed t defaults => composed t defaults (induct declared composed extended t)
  | .extended t c => extended t c (induct declared composed extended t)

theorem isSome_first? (f : Declaration κ → Option α) (t : Design κ) :
    (t.first? f).isSome ↔ ∃ d ∈ t.declarations, (f d).isSome := by
  induction t using induct with
  | declared own bases ih =>
    have below : ((bases.map (first? f)).findSome? id).isSome ↔
        ∃ b ∈ bases, ∃ d ∈ b.declarations, (f d).isSome := by
      rw [List.findSome?_isSome_iff]
      simp only [List.mem_map, id_eq]
      grind
    rw [first?, declarations]
    cases here : f own with
    | some a => simp [here]
    | none =>
      rw [Option.none_or, below]
      simp only [List.mem_cons, List.mem_flatten, List.mem_map]
      grind
  | composed t defaults ih => simpa [first?, declarations] using ih
  | extended t c ih => simpa [first?, declarations] using ih

end Design

def Declaration.readSignatures (d : Declaration κ) : List (String × Signature) :=
  d.signatures.filterMap fun s => (Signature.read? s.2).map fun signature => (s.1, signature)

def Hooks.fields : List (Hooks κ → Option κ) :=
  [Hooks.created, Hooks.ready, Hooks.attached, Hooks.detached, Hooks.completed, Hooks.changed]

structure Inherited (part : Definition κ → Option α) (said : Declaration κ → Option α) : Prop where
  core : ∀ d, part d.core = part d
  own : ∀ d : Declaration κ, part ({ d with bases := [] } : Declaration κ).define = said d
  extend : ∀ d base, part (d.extend base) = (part d).or (part base)

namespace Inherited
variable {part : Definition κ → Option α} {said : Declaration κ → Option α}

theorem of_core (h : Inherited part said) {d e : Definition κ} (same : e.core = d.core) :
    part e = part d := by
  rw [← h.core e, same, h.core]

theorem foldl_extend (h : Inherited part said) (bases : List (Definition κ)) (d : Definition κ) :
    part (bases.foldl Definition.extend d) = (part d).or (bases.findSome? part) := by
  induction bases generalizing d with
  | nil => exact (Option.or_none ..).symm
  | cons b rest ih =>
    rw [List.foldl_cons, ih, h.extend, Option.or_assoc]
    cases there : part b <;> simp [there]

theorem define (h : Inherited part said) (d : Declaration κ) :
    part d.define = (said d).or (d.bases.findSome? part) := by
  let alone : Definition κ := { ({ d with bases := [] } : Declaration κ).define with methods := [] }
  calc part d.define
      = part (d.bases.foldl Definition.extend alone) := h.of_core rfl
    _ = (part alone).or (d.bases.findSome? part) := h.foldl_extend d.bases alone
    _ = (said d).or (d.bases.findSome? part) := by
      rw [← h.own d]
      exact congrArg (Option.or · _) (h.of_core rfl)

theorem type (h : Inherited part said) (t : Design κ) : part t.type = t.first? said := by
  induction t using Design.induct with
  | declared own bases ih =>
    have below : (bases.map Design.type).findSome? part =
        (bases.map (Design.first? said)).findSome? id := by
      rw [← List.map_congr_left ih, List.findSome?_map, List.findSome?_map]
      rfl
    rw [Design.type, h.define, Design.first?, below, ← h.own, h.own own]
  | composed t defaults ih =>
    rw [Design.type, h.of_core (Definition.core_compose ..), ih, Design.first?]
  | extended t c ih => rw [Design.type, h.of_core (Definition.core_take ..), ih, Design.first?]

theorem template : Inherited (κ := κ) Definition.template Declaration.template where
  core _ := rfl
  own _ := rfl
  extend d base := by cases h : d.template <;> simp [Definition.extend, h]

/-- Of two methods declared under one name the later one counts. -/
theorem ownMethod (name : String) :
    Inherited (κ := κ) (fun d => d.ownMethods.get? name)
      (fun d => Keyed.get? d.methods.reverse name) where
  core _ := rfl
  own d := Keyed.get?_ofList d.methods name
  extend d base := Keyed.get?_foldl_insertNew base.ownMethods d.ownMethods name

theorem signature (name : String) :
    Inherited (κ := κ) (fun d => d.signatures.get? name)
      (fun d => Keyed.get? d.readSignatures.reverse name) where
  core _ := rfl
  own d := Keyed.get?_ofList d.readSignatures name
  extend d base := Keyed.get?_foldl_insertNew base.signatures d.signatures name

theorem hook {field : Hooks κ → Option κ} (listed : field ∈ Hooks.fields) :
    Inherited (fun d => field d.hooks) (fun d => field d.hooks) where
  core _ := rfl
  own _ := rfl
  extend d base := by
    simp only [Hooks.fields, List.mem_cons, List.not_mem_nil, or_false] at listed
    rcases listed with rfl | rfl | rfl | rfl | rfl | rfl <;> exact Option.orElse_eq_or

end Inherited

theorem Definition.capabilities_foldl_extend (bases : List (Definition κ)) (d : Definition κ) :
    (bases.foldl extend d).capabilities =
      (bases.map capabilities).reverse.flatten ++ d.capabilities := by
  induction bases generalizing d with
  | nil => rfl
  | cons b rest ih => simp [ih, extend]

theorem Declaration.capabilities_define (d : Declaration κ) :
    d.define.capabilities =
      (d.bases.map Definition.capabilities).reverse.flatten ++ d.capabilities :=
  Definition.capabilities_foldl_extend ..

namespace Design

theorem capabilities_declared (own : Declaration κ) (bases : List (Design κ)) :
    (declared own bases).type.capabilities =
      (bases.map fun b => b.type.capabilities).reverse.flatten ++ own.capabilities := by
  rw [type, Declaration.capabilities_define, List.map_map]
  rfl

theorem find?_type (t : Design κ) (name : String) :
    t.type.capabilities.find? (·.name == name) = t.handedIn.find? (·.name == name) := by
  induction t using induct with
  | declared own bases ih =>
    rw [capabilities_declared, handedIn, List.find?_append, List.find?_append]
    congr 1
    induction bases with
    | nil => rfl
    | cons b rest fold =>
      have before := fold fun b member => ih b (List.mem_cons_of_mem _ member)
      simp [before, ih b List.mem_cons_self]
  | composed t defaults ih =>
    rw [type, Definition.capabilities_compose, Definition.find?_foldl_take, handedIn]
    simp [ih]
  | extended t c ih =>
    rw [type, Definition.find?_take, handedIn, List.find?_append, List.find?_append, ih]

theorem sublist_type (t : Design κ) : t.type.capabilities.Sublist t.handedIn := by
  induction t using induct with
  | declared own bases ih =>
    rw [capabilities_declared, handedIn]
    refine List.Sublist.append_right ?_ own.capabilities
    induction bases with
    | nil => exact .refl _
    | cons b rest fold =>
      have before := fold fun b member => ih b (List.mem_cons_of_mem _ member)
      simpa using before.append (ih b List.mem_cons_self)
  | composed t defaults ih =>
    rw [type, Definition.capabilities_compose, handedIn]
    exact (Definition.sublist_foldl_take ..).trans (ih.append_left defaults)
  | extended t c ih =>
    rw [type, handedIn]
    exact (Definition.sublist_take ..).trans (ih.append_right [c])

def own? (t : Design κ) (name : String) : Option κ :=
  t.first? fun d => Keyed.get? d.methods.reverse name

/-- What a design says of its type once it is composed, given all capabilities that were handed in. -/
structure Settles (t : Design κ) (handed : List (Capability κ)) (d : Definition κ) : Prop where
  distinct : (d.capabilities.map Capability.name).Nodup
  listed : d.capabilities.Sublist handed
  first : ∀ name, d.capabilities.find? (·.name == name) = handed.find? (·.name == name)
  provided : ∀ name, name ∈ Keyed.names d.methods ↔
    (∃ e ∈ t.declarations, name ∈ Keyed.names e.methods) ∨
      ∃ c ∈ d.capabilities, name ∈ Keyed.names c.methods
  dispatch : ∀ name, d.methods.get? name =
    ((t.own? name).map fun k => { owner := none, method := .custom k }).or
      (d.capabilities.findSome? fun c =>
        (Keyed.get? c.methods name).map fun m => { owner := some c.name, method := m })
  template : d.template = t.first? Declaration.template
  signatures : ∀ name, d.signatures.get? name =
    t.first? fun e => Keyed.get? e.readSignatures.reverse name
  hooks : ∀ field ∈ Hooks.fields, field d.hooks = t.first? fun e => field e.hooks

theorem first_owner_wins (t : Design κ) (defaults added : List (Capability κ)) :
    t.Settles (defaults ++ t.handedIn ++ added)
      (added.foldl Definition.take (t.type.compose defaults)) := by
  obtain ⟨d, made⟩ : ∃ d, d = added.foldl Definition.take (t.type.compose defaults) := ⟨_, rfl⟩
  have ranked : d.Ranked := made ▸ (t.type.ranked_compose defaults).foldl_take added
  have core : d.core = t.type.core :=
    made ▸ (Definition.core_foldl_take ..).trans (Definition.core_compose ..)
  have part {α : Type} {part : Definition κ → Option α} {said : Declaration κ → Option α}
      (h : Inherited part said) : part d = t.first? said := (h.of_core core).trans (h.type t)
  have own (name : String) : Keyed.get? d.ownMethods name = t.own? name := part (.ownMethod name)
  have composed : (Design.composed t defaults).type = t.type.compose defaults := by rw [type]
  have dispatch (name : String) : d.methods.get? name =
      ((t.own? name).map fun k => { owner := none, method := .custom k }).or
        (d.capabilities.findSome? (·.provided? name)) := by
    rw [ranked.dispatch, own]
  rw [← made]
  exact {
    distinct := ranked.distinct
    listed := by
      rw [made, ← composed]
      refine (Definition.sublist_foldl_take ..).trans (List.Sublist.append_right ?_ added)
      simpa [handedIn] using sublist_type (.composed t defaults)
    first name := by
      rw [made, Definition.find?_foldl_take, ← composed, List.find?_append, find?_type,
        ← List.find?_append, handedIn]
    provided name := by
      rw [← Keyed.isSome_get?, dispatch, Option.isSome_or, Bool.or_eq_true, Option.isSome_map,
        List.findSome?_isSome_iff, own?, isSome_first?]
      simp only [Keyed.isSome_get?, Capability.provided?, Option.isSome_map, Keyed.names,
        List.map_reverse, List.mem_reverse]
    dispatch := dispatch
    template := part .template
    signatures name := part (.signature name)
    hooks field listed := part (.hook listed) }

end Design
end LiveTree
