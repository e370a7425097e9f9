import LiveTree.Proofs.Document.Growth
import LiveTree.Proofs.Document.Planting

/-! The place of the former children of a host node. They are cut off before the template grows and
come last below the content node when it is laid out; each of them can be put there, because that
node is the host itself or a new one below it. -/
namespace LiveTree.Document
variable {d e k : Document} {host content : NodeId} {light : List NodeId}

theorem parent?_removeChildren (light : List NodeId) (d : Document) (x : NodeId) :
    (light.foldl (fun d y => (d.removeChild? host y).getD d) d).parent? x =
      if x ∈ light ∧ d.parent? x = some host then none else d.parent? x := by
  have step (d : Document) (y : NodeId) : ((d.removeChild? host y).getD d).parent? x =
      if x = y ∧ d.parent? x = some host then none else d.parent? x := by
    unfold removeChild?
    by_cases same : x = y
    · subst same
      split
      · next child => simp [parent?_detach, child]
      · next other => simp [other]
    · split <;> simp [parent?_detach, same]
  induction light generalizing d with
  | nil => simp
  | cons y rest ih =>
    rw [List.foldl_cons, ih, step]
    by_cases child : d.parent? x = some host
    · by_cases same : x = y <;> simp [child, same]
    · simp [child]

/-- The children of a host node are at the top once they have been removed, and stay there while the
template grows and is laid out. -/
theorem free_of_laidOut {template : List NodeId} {attr : String} (sound : d.Sound)
    (sprouts : (((d.children host).foldl (fun d y => (d.removeChild? host y).getD d) d)).Sprouts host e)
    {x : NodeId} (former : x ∈ d.children host) :
    (Layout.ofTemplate e attr host template).2.parent? x = none := by
  have link := sound.parent x host former
  have cut : ((d.children host).foldl (fun d y => (d.removeChild? host y).getD d) d).parent? x = none := by
    rw [parent?_removeChildren, if_pos ⟨former, link⟩]
  have size : x.index < ((d.children host).foldl (fun d y => (d.removeChild? host y).getD d) d).size :=
    (bound_of_parent? link).trans_le
      (Prunes.foldl (fun d y => d.prunes_removeChild host y) (d.children host) d).size
  have free : e.parent? x = none := (sprouts.kept x size).trans cut
  rcases ofTemplate_cases e attr host template with ⟨same, -⟩ | ⟨slot, -, same, -⟩
  · rw [same, free]
  · rw [same, parent?_detach, free, ite_self]

namespace Regrows
variable (regrows : d.Regrows host content e) (sound : d.Sound) (bound : host.index < d.size)
include regrows bound

theorem contains_content : e.contains content = true := by
  rw [contains_iff]
  rcases regrows.inside with rfl | under
  · exact bound.trans_le regrows.size
  · exact under.bound

include sound

/-- A former child of the host can be put below the content node. -/
theorem allows {x : NodeId} (former : d.Link x host) : e.Allows content x := by
  have old := bound_of_parent? former
  have round : ¬(host = x ∨ e.Under host x) := by
    rintro (rfl | under)
    · exact sound.not_under_self (.single former)
    · exact sound.not_under_self ((regrows.under_host sound bound under).trans (.single former))
  rintro (rfl | missing | missing | within)
  · rcases regrows.place with rfl | new
    · exact round (.inl rfl)
    · exact Nat.not_lt_of_le new old
  · rw [regrows.contains_content bound] at missing
    cases missing
  · rw [(e.contains_iff x).mpr (old.trans_le regrows.size)] at missing
    cases missing
  · rcases (regrows.sound sound).isWithin_iff_under.mp within with rfl | under
    · rcases regrows.place with rfl | new
      · exact round (.inl rfl)
      · exact Nat.not_lt_of_le new old
    · rcases regrows.place with rfl | new
      · exact round (.inr under)
      · exact round (regrows.under_new new old under).2

/-- Put below the content node one after the other, the former children are its last ones. -/
theorem children_append (former : ∀ x ∈ light, d.Link x host) (apart : light.Nodup)
    (free : ∀ x ∈ light, e.parent? x = none) :
    (light.foldl (fun d x => d.appendChild content x) e).children content =
      e.children content ++ light := by
  induction light generalizing e with
  | nil => exact (List.append_nil _).symm
  | cons x rest ih =>
    obtain ⟨fresh, apart⟩ := List.nodup_cons.mp apart
    have allowed := regrows.allows sound bound (former x List.mem_cons_self)
    have top := free x List.mem_cons_self
    have next : (e.appendChild content x).children content = e.children content ++ [x] := by
      rw [children_appendChild allowed, if_pos rfl, detach, top]
    have still (y : NodeId) (inside : y ∈ rest) : (e.appendChild content x).parent? y = none := by
      rw [parent?_appendChild allowed, if_neg, free y (List.mem_cons_of_mem _ inside)]
      rintro rfl
      exact fresh inside
    rw [List.foldl_cons, ih (regrows.append (former x List.mem_cons_self))
      (fun y inside => former y (List.mem_cons_of_mem _ inside)) apart still, next, List.append_assoc,
      List.singleton_append]

end Regrows

/-- Where the children from outside belong, by the elements of a template in the order of the document:
below the parent of the first slot, else below the first element that is marked for them, else below the
first element, and below the host itself if there is none. -/
inductive Houses (d : Document) (host : NodeId) (elements : List NodeId) : NodeId → Prop
  | slot {slot content : NodeId} : elements.find? (fun x => d.tag? x = some "content") = some slot →
    d.Link slot content → Houses d host elements content
  | marked {x : NodeId} : (∀ y ∈ elements, d.tag? y ≠ some "content") →
    elements.find? (fun y => d.hasAttribute y "inner-h-t-m-l") = some x → Houses d host elements x
  | first {x : NodeId} {rest : List NodeId} : elements = x :: rest →
    (∀ y ∈ elements, d.tag? y ≠ some "content" ∧ d.hasAttribute y "inner-h-t-m-l" = false) →
    Houses d host elements x
  | host : elements = [] → Houses d host elements host

theorem PlantsBelow.houses {ms : List Markup} {template : List NodeId} (bound : host.index < d.size)
    (below : PlantsBelow host ms template d e) (attr : String) :
    e.Houses host ((template.flatMap e.subtree).filter e.isElement)
      (Layout.ofTemplate e attr host template).1.content := by
  unfold Layout.ofTemplate
  extract_lets elements root slot rest content
  change e.Houses host elements content
  cases here : slot with
  | some x =>
    obtain ⟨top, inside, deep⟩ := List.mem_flatMap.mp
      (List.mem_filter.mp (List.mem_of_find?_eq_some here)).1
    have under : e.Under x host := by
      have link := below.link bound inside
      rcases below.sound.mem_subtree_iff_under.mp deep with rfl | further
      · exact .single link
      · exact further.tail link
    obtain ⟨parent, link, -⟩ := under_iff_link.mp under
    have place : content = parent := by
      unfold content Layout.contentOf
      rw [here, Option.bind_some, link]
      rfl
    exact .slot here (place ▸ link)
  | none =>
    have slotless : ∀ y ∈ elements, e.tag? y ≠ some "content" := by
      simpa using List.find?_eq_none.mp here
    have all : rest = elements := by
      unfold rest
      rw [here]
      simp
    have place : content = (elements.find? fun x => e.hasAttribute x "inner-h-t-m-l").getD root := by
      unfold content Layout.contentOf
      rw [here, all]
      rfl
    rw [place]
    cases found : elements.find? fun x => e.hasAttribute x "inner-h-t-m-l" with
    | some x => exact .marked slotless found
    | none =>
      have unmarked : ∀ y ∈ elements, e.hasAttribute y "inner-h-t-m-l" = false := by
        simpa using List.find?_eq_none.mp found
      have top : root = elements.head?.getD host := rfl
      rw [Option.getD_none, top]
      generalize elements = xs at slotless unmarked
      cases xs with
      | nil => exact .host rfl
      | cons x xs => exact .first rfl fun y inside => ⟨slotless y inside, unmarked y inside⟩

/-- The document has come from one in which a template had just been planted below the host, and the content
node is the place that the template has for the children from outside. -/
def Shelters (d : Document) (host : NodeId) (ms : List Markup) (t : Document) (content : NodeId) : Prop :=
  ∃ k e template, d.size ≤ k.size ∧ PlantsBelow host ms template k e ∧ e.Reworks t ∧
    e.Houses host ((template.flatMap e.subtree).filter e.isElement) content

theorem Shelters.reworks {ms : List Markup} (shelters : d.Shelters host ms e content)
    (reworks : e.Reworks k) : d.Shelters host ms k content := by
  obtain ⟨cut, planted, template, grown, below, later, houses⟩ := shelters
  exact ⟨cut, planted, template, grown, below, later.trans reworks, houses⟩

def EndsWith (d : Document) (x : NodeId) (light : List NodeId) : Prop :=
  ∃ own, d.children x = own ++ light ∧ (own ++ light).Nodup ∧ ∀ y ∈ light, d.parent? y = some x

/-- When a template has been planted in the place of the children of a host node and been laid out, they
can all be put below the content node, and come last there. -/
theorem PlantsBelow.endsWith {ms : List Markup} {template : List NodeId} (sound : d.Sound)
    (bound : host.index < d.size)
    (below : PlantsBelow host ms template
      ((d.children host).foldl (fun d x => (d.removeChild? host x).getD d) d) e)
    (attr : String) :
    ((d.children host).foldl
        (fun k x => k.appendChild (Layout.ofTemplate e attr host template).1.content x)
        (Layout.ofTemplate e attr host template).2).EndsWith
      (Layout.ofTemplate e attr host template).1.content (d.children host) := by
  have prunes := Prunes.foldl (fun d x => d.prunes_removeChild host x) (d.children host) d
  have sprouts := below.gains.sprouts (prunes.sound sound) below.sound
  have grows : d.Grows host e :=
    ((Grows.refl d).cut prunes.toFollows fun x p link => link_foldl_removeChild _ link).sprout sprouts
  have former (x : NodeId) (child : x ∈ d.children host) : d.Link x host := sound.parent x host child
  have new (x : NodeId) (inside : x ∈ template) : d.size ≤ x.index ∧ e.Link x host :=
    ⟨prunes.size.trans (below.new inside), below.link (bound.trans_le prunes.size) inside⟩
  have regrows := grows.ofTemplate sound attr new
  have last := regrows.children_append sound bound former (sound.nodup host) fun x child =>
    free_of_laidOut sound sprouts child
  have sound' := (regrows.foldl former).sound sound
  refine ⟨_, last, last ▸ sound'.nodup _, fun x child => sound'.parent x _ ?_⟩
  rw [last]
  exact List.mem_append_right _ child

/-- The texts that were there are not touched by all this. -/
theorem PlantsBelow.words? {ms : List Markup} {light template : List NodeId}
    (below : PlantsBelow host ms template (light.foldl (fun d x => (d.removeChild? host x).getD d) d) e)
    (attr : String) {x : NodeId} (there : x.index < d.size) :
    (Layout.ofTemplate e attr host template).2.words? x = d.words? x := by
  have size := (Prunes.foldl (fun d x => d.prunes_removeChild host x) light d).size
  have content := below.gains.content? (there.trans_le size)
  rw [words?_of_texts (texts_ofTemplate e attr host template), words?_of_content content,
    words?_of_texts (texts_removeChildren light d)]

end LiveTree.Document
