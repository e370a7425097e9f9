import LiveTree.Proofs.Footprint.Closed

/-! Slots that match a schema. There is one slot a declared property, and in it is the property's
default or a value that passed its checks. Slots keep matching when they are written and when both
they and the schema grow. -/
namespace LiveTree
variable {κ : Type}

def Field.typing : List Field := [.components, .definitions, .definition, .values, .names]

theorem Definition.schema_add? {d e : Definition κ} {c : Capability κ} (added : d.add? c = some e) :
    d.schema.Within e.schema := by
  unfold add? at added
  split at added
  · cases added
  · cases added
    exact Schema.within_foldl_declareNew _ _

def Scene.Declares (s : Scene κ) (id : ComponentId) (p : Property) : Prop :=
  ∃ c, s.component? id = some c ∧ c.schema.get? p.name = some p

/-- A value that the property may have: its default, or one of its kind that is allowed unless a
validator had the last word. -/
def Property.Holds (p : Property) (v : Value) : Prop :=
  v = p.default ∨
    p.kind.accepts p.nullable v = true ∧ (p.validator = none → p.isAllowed v = true)

structure Component.Fits (c : Component κ) : Prop where
  names : (Keyed.names c.slots).Perm c.schema.names
  holds : ∀ name p slot, c.schema.get? name = some p → Keyed.get? c.slots name = some slot →
    p.Holds slot.value

namespace Component.Fits
variable {c d : Component κ}

theorem distinct (fits : c.Fits) : (Keyed.names c.slots).Nodup :=
  fits.names.nodup_iff.mpr c.schema.distinct

theorem new (d : Definition κ) (x : NodeId) (owner : Option ComponentId) :
    (Component.new d x owner).Fits where
  names := by
    rw [show (Component.new d x owner).slots = .ofSchema d.schema from rfl, Slots.names_ofSchema]
    exact .refl _
  holds name p slot declared found := by
    have made : Keyed.get? (Slots.ofSchema d.schema) name = some slot := found
    rw [Slots.get?_ofSchema, show d.schema.get? name = some p from declared] at made
    cases made
    exact .inl rfl

/-- A slot takes any value that its property may have. -/
theorem modifySlot (fits : c.Fits) (name : String) {f : Slot → Slot}
    (keeps : ∀ p slot, c.schema.get? name = some p → p.Holds slot.value → p.Holds (f slot).value) :
    (c.modifySlot name f).Fits where
  names := by
    rw [Component.modifySlot, Keyed.names_modify]
    exact fits.names
  holds other p slot declared found := by
    have changed : Keyed.get? (Keyed.modify c.slots name f) other = some slot := found
    rw [Keyed.get?_modify] at changed
    split at changed
    · next same =>
      subst same
      obtain ⟨before, here, rfl⟩ := Option.map_eq_some_iff.mp changed
      exact keeps p before declared (fits.holds other p before declared here)
    · exact fits.holds other p slot declared changed

/-- With a larger schema the missing slots are added, and the others are still of their property. -/
theorem adopt (fits : c.Fits) {d : Definition κ} (within : c.schema.Within d.schema)
    (added : Capability κ) : (c.adopt d added).Fits where
  names := by
    have distinct := Slots.nodup_fill fits.distinct d.schema
    apply (List.perm_ext_iff_of_nodup distinct d.schema.distinct).mpr
    intro name
    rw [Slots.mem_names_fill, fits.names.mem_iff]
    constructor
    · rintro (old | new)
      · obtain ⟨p, declared⟩ := Schema.mem_names.mp old
        exact Schema.mem_names.mpr ⟨p, within name p declared⟩
      · exact new
    · exact Or.inr
  holds name p slot declared found := by
    have filled : Keyed.get? (c.slots.fill d.schema) name = some slot := found
    have declared : d.schema.get? name = some p := declared
    rw [Slots.get?_fill, Option.or_eq_some_iff] at filled
    rcases filled with old | ⟨-, new⟩
    · have there : name ∈ Keyed.names c.slots := (Keyed.isSome_get? _ _).mp (by rw [old]; rfl)
      obtain ⟨q, own⟩ := Schema.mem_names.mp (fits.names.mem_iff.mp there)
      have same : p = q := Option.some.inj (declared.symm.trans (within name q own))
      rw [same]
      exact fits.holds name q slot own old
    · rw [declared] at new
      cases new
      exact .inl rfl

theorem of_alike {F : List Field} (fits : c.Fits) (alike : c.Alike F d)
    (out : ∀ f ∈ Field.typing, f ∉ F) : d.Fits := by
  have types : d.definition = c.definition := alike.view .definition (out _ (by decide))
  have slots : Keyed.names d.slots = Keyed.names c.slots := alike.view .names (out _ (by decide))
  have values : d.view .values = c.view .values := alike.view .values (out _ (by decide))
  have schemas : d.schema = c.schema := congrArg Definition.schema types
  constructor
  · rw [slots, schemas]
    exact fits.names
  · intro name p slot declared found
    have held : (Keyed.get? c.slots name).map (fun slot => (slot.value, slot.busy)) =
        some (slot.value, slot.busy) := by
      rw [← Component.held_of_view values, found, Option.map_some]
    obtain ⟨before, there, same⟩ := Option.map_eq_some_iff.mp held
    rw [← (Prod.mk.inj same).1]
    rw [schemas] at declared
    exact fits.holds name p before declared there

end Component.Fits
end LiveTree
