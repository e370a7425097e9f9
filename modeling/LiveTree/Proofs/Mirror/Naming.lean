import LiveTree.Proofs.Document.Growth
import LiveTree.Proofs.Document.Planting
import LiveTree.Proofs.Mirror.Growth

/-! Names in a template. When the nodes of a template are laid out, its elements get stable ids, by which
they are known from then on; the binding tree knows its sites by the same names. -/
namespace LiveTree
variable {d e : Document} {x y : NodeId} {attr : String} {n : Nat} {ms : List Markup} {xs : List NodeId}

namespace Markup

mutual
def nodes : Markup → List Markup
  | .text words => [.text words]
  | .element tag attributes children => .element tag attributes children :: nodesOf children

def nodesOf : List Markup → List Markup
  | [] => []
  | m :: rest => m.nodes ++ nodesOf rest
end

theorem nodes_eq (m : Markup) : m.nodes = m :: nodesOf m.inner := by
  cases m with
  | text words => rw [nodes, inner, nodesOf]
  | element tag attributes children => rw [nodes, inner]

def isSlot (m : Markup) : Bool := m.content = .element "content"

/-- The elements of a template can be told apart by their ids if they have any, its slot is empty, and
the attribute for stable ids is free. -/
structure Referable (attr : String) (ms : List Markup) : Prop where
  distinct : ((nodesOf ms).filterMap fun m => m.attributes.get? "id").Nodup
  slot : ∀ m ∈ (nodesOf ms).find? isSlot, m.inner = []
  unused : ∀ m ∈ nodesOf ms, m.attributes.get? attr = none

instance (attr : String) (ms : List Markup) : Decidable (Referable attr ms) :=
  decidable_of_iff (((nodesOf ms).filterMap fun m => m.attributes.get? "id").Nodup ∧
      (∀ m ∈ (nodesOf ms).find? isSlot, m.inner = []) ∧ ∀ m ∈ nodesOf ms, m.attributes.get? attr = none)
    ⟨fun ⟨distinct, slot, unused⟩ => ⟨distinct, slot, unused⟩, fun r => ⟨r.distinct, r.slot, r.unused⟩⟩

namespace Stands

theorem length (stands : Stands n d ms xs) : xs.length = ms.length := by
  induction stands with
  | nil => rfl
  | cons _ _ _ _ _ ih => rw [List.length_cons, ih, List.length_cons]

def sketch (face : Document.Face) : Content × Keyed String × Nat := (face.1, face.2.1, face.2.2.length)

theorem attribute?_sketch (d : Document) (key : String) (y : NodeId) : d.attribute? y key =
    ((d.face? y).map sketch).bind fun seen => seen.2.1.get? key := by
  rw [Document.attribute?, Document.face?, Option.map_map, Option.bind_map]
  rfl

/-- The nodes of markup that stands in a document are those of its pieces, in the same order. -/
theorem sketches (stands : Stands n d ms xs) (sound : d.Sound) :
    (xs.flatMap d.subtree).map (fun y => (d.face? y).map sketch) =
      (nodesOf ms).map fun m => some (m.content, m.attributes, m.inner.length) := by
  induction stands with
  | nil => rw [nodesOf]; rfl
  | @cons m x ys xs ms new face below rest ihBelow ihRest =>
    rw [List.flatMap_cons, Document.subtree, sound.descendants_eq, Document.children_of_face face, nodesOf,
      nodes_eq, List.map_append, List.map_append, List.map_cons, List.map_cons, ihBelow, ihRest, face,
      Option.map_some, sketch, below.length]

variable (stands : Stands n d ms xs) (sound : d.Sound)
include stands sound

theorem sketch_of_mem (inside : y ∈ xs.flatMap d.subtree) :
    ∃ m ∈ nodesOf ms, (d.face? y).map sketch = some (m.content, m.attributes, m.inner.length) := by
  have member := List.mem_map_of_mem (f := fun y => (d.face? y).map sketch) inside
  rw [stands.sketches sound] at member
  obtain ⟨m, piece, same⟩ := List.mem_map.mp member
  exact ⟨m, piece, same.symm⟩

/-- What is read off the nodes is read off the pieces. -/
theorem filterMap_attribute (key : String) :
    (xs.flatMap d.subtree).filterMap (d.attribute? · key) =
      (nodesOf ms).filterMap fun m => m.attributes.get? key := by
  calc (xs.flatMap d.subtree).filterMap (d.attribute? · key)
      = ((xs.flatMap d.subtree).map fun y => (d.face? y).map sketch).filterMap fun seen =>
          seen.bind fun seen => seen.2.1.get? key := by
        rw [List.filterMap_map]
        exact congrArg (List.filterMap · _) (funext (attribute?_sketch d key))
    _ = (nodesOf ms).filterMap fun m => m.attributes.get? key := by
        rw [stands.sketches sound, List.filterMap_map]
        rfl

/-- Nothing is below a text. -/
theorem children_text (inside : y ∈ xs.flatMap d.subtree) (text : d.isText y = true) : d.children y = [] := by
  obtain ⟨m, -, seen⟩ := stands.sketch_of_mem sound inside
  obtain ⟨face, here, seen⟩ := Option.map_eq_some_iff.mp seen
  obtain ⟨content, -, count⟩ : face.1 = m.content ∧ face.2.1 = m.attributes ∧
    face.2.2.length = m.inner.length := by simpa [sketch] using seen
  rw [Document.children_of_face here]
  cases m with
  | text words => exact List.eq_nil_of_length_eq_zero count
  | element tag attributes children =>
    obtain ⟨n, found, rfl⟩ := Option.map_eq_some_iff.mp here
    unfold Document.isText Document.content? at text
    rw [found, Option.map_some, show n.content = _ from content] at text
    cases text

end Stands
end Markup

namespace Document

theorem attribute?_of_look {d e : Document} {y : NodeId}
    (same : (e.node? y).map Node.attributes = (d.node? y).map Node.attributes) (key : String) :
    e.attribute? y key = d.attribute? y key := by
  have view (d : Document) : d.attribute? y key = ((d.node? y).map Node.attributes).bind (·.get? key) := by
    rw [attribute?, Option.bind_map]
    rfl
  rw [view, view, same]

theorem attribute?_detach (d : Document) (x y : NodeId) (key : String) :
    (d.detach x).attribute? y key = d.attribute? y key :=
  attribute?_of_look (look_detach Node.attributes (fun _ _ _ => rfl) d x y) key

theorem attribute?_setAttribute (d : Document) (x y : NodeId) (name text key : String) :
    (d.setAttribute x name text).attribute? y key =
      if x = y ∧ d.contains y = true ∧ name = key then some text else d.attribute? y key := by
  rw [attribute?, setAttribute, node?_modify, attribute?, contains]
  by_cases same : x = y
  · rw [if_pos same]
    cases d.node? y with
    | none => simp
    | some n =>
      by_cases named : name = key
      · simp [same, named, Keyed.get?_insert_self]
      · simp [named, Keyed.get?_insert_of_ne _ _ (Ne.symm named)]
  · rw [if_neg same, if_neg fun both => same both.1]

section Names
variable {stable : List (NodeId × String)}

/-- What a node is called after names have been given out is one of these names, or what it was called. -/
theorem attribute?_foldl_cases (stable : List (NodeId × String)) (attr : String) (d : Document) (y : NodeId) :
    (∃ name, (y, name) ∈ stable ∧
        (stable.foldl (fun d r => d.setAttribute r.1 attr r.2) d).attribute? y attr = some name) ∨
      (stable.foldl (fun d r => d.setAttribute r.1 attr r.2) d).attribute? y attr = d.attribute? y attr := by
  induction stable generalizing d with
  | nil => exact .inr rfl
  | cons r rest ih =>
    rcases ih (d.setAttribute r.1 attr r.2) with ⟨name, member, named⟩ | same
    · exact .inl ⟨name, List.mem_cons_of_mem _ member, named⟩
    · rw [attribute?_setAttribute] at same
      split at same
      · next hit => exact .inl ⟨r.2, by rw [← hit.1]; exact List.mem_cons_self, same⟩
      · exact .inr same

theorem attribute?_foldl_of_mem (distinct : (stable.map Prod.fst).Nodup) (there : d.contains y = true)
    {name : String} (member : (y, name) ∈ stable) :
    (stable.foldl (fun d r => d.setAttribute r.1 attr r.2) d).attribute? y attr = some name := by
  induction stable generalizing d with
  | nil => cases member
  | cons r rest ih =>
    obtain ⟨fresh, distinct⟩ := List.nodup_cons.mp distinct
    rcases List.mem_cons.mp member with rfl | later
    · rcases attribute?_foldl_cases rest attr (d.setAttribute y attr name) y with ⟨other, again, -⟩ | same
      · exact absurd (List.mem_map_of_mem (f := Prod.fst) again) fresh
      · rw [List.foldl_cons, same, attribute?_setAttribute, if_pos ⟨rfl, there, rfl⟩]
    · have size : (d.setAttribute r.1 attr r.2).size = d.size := size_modify _ _ _
      exact ih distinct (by rwa [contains_iff, size, ← contains_iff]) later

end Names

/-- With the same links or more of them, at least as much lies below a node. -/
theorem mem_subtree_of_link (sound : d.Sound) (sound' : e.Sound) (links : ∀ x p, d.Link x p → e.Link x p)
    (inside : y ∈ d.subtree x) : y ∈ e.subtree x :=
  sound'.mem_subtree_iff_under.mpr <|
    (sound.mem_subtree_iff_under.mp inside).imp_right (Relation.TransGen.mono links _ _)

/-- A node without children can be taken out, and the others are still where they were. -/
theorem mem_subtree_detach (sound : d.Sound) {slot : NodeId} (empty : d.children slot = [])
    (inside : y ∈ d.subtree x) (apart : y ≠ slot) : y ∈ (d.detach slot).subtree x := by
  have outside : ¬d.Under y slot := by
    intro under
    obtain ⟨c, -, link⟩ := Relation.TransGen.tail'_iff.mp under
    have child := sound.listed c slot link
    rw [empty] at child
    cases child
  refine ((d.follows_detach slot).sound sound).mem_subtree_iff_under.mpr ?_
  exact (sound.mem_subtree_iff_under.mp inside).imp_right fun under => under_detach under apart outside

end Document

namespace Layout
variable {elements : List NodeId}

/-- A name refers to the node to which it has been given. -/
theorem mem_of_refs {stable : List (NodeId × String)} (names : (stable.map Prod.snd).Nodup) {name : String}
    (found : Keyed.get? (stable.foldl (fun acc r => Keyed.insert acc r.2 r.1) []) name = some x) :
    (x, name) ∈ stable := by
  have entries : stable.foldl (fun acc r => Keyed.insert acc r.2 r.1) [] = stable.map Prod.swap := by
    have distinct : (Keyed.names (stable.map Prod.swap)).Nodup := by
      rw [Keyed.names, List.map_map]
      exact names
    rw [← Keyed.ofList_of_nodup distinct, Keyed.ofList, List.foldl_map]
    rfl
  rw [entries] at found
  obtain ⟨r, member, same⟩ := List.mem_map.mp (Keyed.mem_of_get? found)
  cases same
  exact member

theorem child_injective : Function.Injective fun i : Nat => s!"child{i}" := by
  intro i j same
  have digits : Nat.toDigits 10 i = Nat.toDigits 10 j := by
    simpa [Nat.repr_eq_ofList_toDigits] using congrArg String.toList same
  calc i = Nat.ofDigitChars 10 (Nat.toDigits 10 i) 0 := Nat.ofDigitChars_ten_toDigits.symm
    _ = Nat.ofDigitChars 10 (Nat.toDigits 10 j) 0 := by rw [digits]
    _ = j := Nat.ofDigitChars_ten_toDigits

theorem mem_stableIds {r : NodeId × String} (member : r ∈ stableIds d elements) : r.1 ∈ elements := by
  unfold stableIds at member
  split at member
  · obtain ⟨x, inside, same⟩ := List.mem_filterMap.mp member
    obtain ⟨id, -, rfl⟩ := Option.map_eq_some_iff.mp same
    exact inside
  · obtain ⟨⟨x, i⟩, inside, rfl⟩ := List.mem_map.mp member
    exact List.fst_mem_of_mem_zipIdx inside

theorem nodup_fst_stableIds (apart : elements.Nodup) : ((stableIds d elements).map Prod.fst).Nodup := by
  unfold stableIds
  split
  · rw [List.map_filterMap]
    refine apart.filterMap fun x y z left right => ?_
    rw [Option.mem_def, Option.map_map, Option.map_eq_some_iff] at left right
    obtain ⟨_, _, rfl⟩ := left
    obtain ⟨_, _, same⟩ := right
    exact same.symm
  · rw [List.map_map]
    change (elements.zipIdx.map Prod.fst).Nodup
    rwa [List.zipIdx_map_fst]

theorem nodup_snd_stableIds (distinct : (elements.filterMap (d.attribute? · "id")).Nodup) :
    ((stableIds d elements).map Prod.snd).Nodup := by
  unfold stableIds
  split
  · rw [List.map_filterMap]
    convert distinct using 3 with x
    exact (Option.map_map ..).trans Option.map_id'
  · rw [List.map_map]
    change (elements.zipIdx.map ((fun i => s!"child{i}") ∘ Prod.snd)).Nodup
    rw [← List.map_map, List.zipIdx_map_snd]
    exact List.Nodup.map child_injective List.nodup_range'

/-- The slot of a template that stands in a document has no children if it is empty in the markup. -/
theorem children_slot (stands : Markup.Stands n d ms xs) (sound : d.Sound) {slot : NodeId}
    (found : (xs.flatMap d.subtree).find? (fun x => d.tag? x = some "content") = some slot)
    (empty : ∀ m ∈ (Markup.nodesOf ms).find? Markup.isSlot, m.inner = []) :
    d.children slot = [] := by
  let fits (seen : Option (Content × Keyed String × Nat)) : Bool := seen.map Prod.fst = some (.element "content")
  have tag (y : NodeId) : decide (d.tag? y = some "content") = fits ((d.face? y).map Markup.Stands.sketch) := by
    unfold Document.tag? Document.content? Document.face? fits
    cases d.node? y with
    | none => rfl
    | some n => cases content : n.content <;> simp [Markup.Stands.sketch, content]
  have same := congrArg (List.find? fits) (stands.sketches sound)
  rw [List.find?_map, List.find?_map] at same
  rw [show (fun x => decide (d.tag? x = some "content")) = fits ∘ fun y => (d.face? y).map Markup.Stands.sketch
    from funext tag] at found
  rw [found, Option.map_some] at same
  obtain ⟨m, piece, same⟩ := Option.map_eq_some_iff.mp same.symm
  have none := empty m (Option.mem_def.mpr <| piece ▸
    congrArg (List.find? · _) (funext fun m => by simp [Markup.isSlot, fits]))
  obtain ⟨face, there, seen⟩ := Option.map_eq_some_iff.mp same.symm
  rw [Document.children_of_face there]
  have count : face.2.2.length = m.inner.length := congrArg (·.2.2) seen
  rw [none] at count
  exact List.eq_nil_of_length_eq_zero count

/-- Of the nodes of a template that has been laid out, the one that a name refers to has it as its
stable id, and no other has. -/
theorem named_ofTemplate (stands : Markup.Stands n d ms xs) (sound : d.Sound)
    (apart : (xs.flatMap d.subtree).Nodup) (referable : Markup.Referable attr ms) (host : NodeId)
    {name : String} (root : name ≠ "root") (content : name ≠ "content")
    (found : (ofTemplate d attr host xs).1.refs.get? name = some x) :
    x ∈ xs.flatMap (ofTemplate d attr host xs).2.subtree ∧
      ∀ y ∈ xs.flatMap (ofTemplate d attr host xs).2.subtree,
        (ofTemplate d attr host xs).2.attribute? y attr = some name ↔ y = x := by
  have follows := (d.reworks_ofTemplate host attr xs).toFollows
  have former (y p : NodeId) (link : (ofTemplate d attr host xs).2.Link y p) : d.Link y p :=
    Document.link_of_ofTemplate link
  revert found follows former
  unfold ofTemplate
  extract_lets elements top slot rest place laid stable refs
  intro found follows former
  dsimp only at found follows former ⊢
  have tree := Document.tree_foldl (fun d (r : NodeId × String) => Document.tree_setAttribute d r.1 attr r.2)
    stable laid
  have sound' := follows.sound sound
  have taken : d.Follows laid := by
    unfold laid
    cases slot with
    | none => exact .refl d
    | some s => exact d.follows_detach s
  have called (y : NodeId) (key : String) : laid.attribute? y key = d.attribute? y key := by
    unfold laid
    cases slot with
    | none => rfl
    | some s => exact d.attribute?_detach s y key
  have part : rest.Sublist (xs.flatMap d.subtree) := List.filter_sublist.trans List.filter_sublist
  have keys : (stable.map Prod.fst).Nodup := nodup_fst_stableIds (apart.sublist part)
  have names : (stable.map Prod.snd).Nodup := by
    refine nodup_snd_stableIds ?_
    rw [funext fun y => called y "id"]
    exact (stands.filterMap_attribute sound "id" ▸ referable.distinct).sublist (part.filterMap _)
  rw [Keyed.get?_insert_of_ne _ _ content, Keyed.get?_insert_of_ne _ _ root] at found
  have member := mem_of_refs names found
  have inside := mem_stableIds member
  obtain ⟨z, first, deep⟩ := List.mem_flatMap.mp (part.subset inside)
  -- The slot has no children, so that all else is still where it was.
  have still : x ∈ laid.subtree z := by
    have empty (s : NodeId) (here : slot = some s) : d.children s = [] := by
      refine children_slot stands sound ?_ referable.slot
      rw [← here]
      unfold slot elements
      rw [List.find?_filter]
      refine congrArg (List.find? · _) (funext fun y => ?_)
      unfold Document.tag? Document.isElement
      cases d.content? y with
      | none => simp
      | some c => cases c <;> simp
    have other := of_decide_eq_true (List.mem_filter.mp inside).2
    unfold laid
    cases here : slot with
    | none => exact deep
    | some s => exact Document.mem_subtree_detach sound (empty s here) deep fun same => other (same ▸ here)
  refine ⟨List.mem_flatMap.mpr ⟨z, first, ?_⟩, fun y lies => ⟨fun named => ?_, ?_⟩⟩
  · refine Document.mem_subtree_of_link (taken.sound sound) sound' (fun y p link => ?_) still
    rwa [Document.Link, Document.parent?_eq, tree, ← Document.parent?_eq]
  · rcases Document.attribute?_foldl_cases stable attr laid y with ⟨other, again, same⟩ | same
    · cases named.symm.trans same
      exact congrArg Prod.fst (List.inj_on_of_nodup_map names again member rfl)
    · obtain ⟨w, top, below⟩ := List.mem_flatMap.mp lies
      have there : y ∈ xs.flatMap d.subtree :=
        List.mem_flatMap.mpr ⟨w, top, Document.mem_subtree_of_link sound' sound former below⟩
      obtain ⟨m, piece, seen⟩ := stands.sketch_of_mem sound there
      rw [named, called, Markup.Stands.attribute?_sketch, seen, Option.bind_some, referable.unused m piece] at same
      cases same
  · rintro rfl
    refine Document.attribute?_foldl_of_mem keys ?_ member
    rw [Document.contains_iff]
    obtain ⟨m, -, seen⟩ := stands.sketch_of_mem sound (part.subset inside)
    obtain ⟨face, here, -⟩ := Option.map_eq_some_iff.mp seen
    exact (Document.bound_of_face here).trans_le taken.size

end Layout

namespace BindingTree
variable {t : BindingTree} {s : Surroundings} {name : String} {host : NodeId}

def named? (t : BindingTree) (name : String) : Option NodeId := (t.byStableId? name).bind t.nodeAt?

theorem named?_eq (t : BindingTree) (name : String) :
    t.named? name = (t.sites.toList.find? fun site => site.stableId = some name).map Site.node := by
  have sites : t.toList.map Prod.snd = t.sites.toList := by
    rw [toList, List.map_map]
    exact List.zipIdx_map_fst 0 _
  rw [← sites, List.find?_map, Option.map_map, named?, byStableId?, find?]
  change _ = (t.toList.find? fun x => x.2.stableId = some name).map _
  cases found : t.toList.find? fun x => x.2.stableId = some name with
  | none => rfl
  | some x =>
    rw [Option.map_some, Option.bind_some, nodeAt?, mem_toList.mp (List.mem_of_find?_eq_some found)]
    rfl

theorem named?_eq_some (there : ∃ i site, t.site? i = some site ∧ site.stableId = some name)
    (only : ∀ i site, t.site? i = some site → site.stableId = some name → site.node = x) :
    t.named? name = some x := by
  obtain ⟨i, site, here, named⟩ := there
  have member := List.mem_of_getElem? ((t.getElem?_sites i).trans here)
  obtain ⟨other, found⟩ : ∃ other, t.sites.toList.find? (fun site => site.stableId = some name) = some other := by
    rw [← Option.isSome_iff_exists, List.find?_isSome]
    exact ⟨site, member, decide_eq_true named⟩
  obtain ⟨j, place⟩ := List.mem_iff_getElem?.mp (List.mem_of_find?_eq_some found)
  have called := List.find?_some found
  rw [named?_eq, found, Option.map_some, only j other ((t.getElem?_sites j).symm.trans place) (of_decide_eq_true called)]

/-- All that counts is which nodes are called how. -/
theorem named?_congr {u : BindingTree}
    (same : u.sites.toList.map (fun site => (site.node, site.stableId)) =
      t.sites.toList.map fun site => (site.node, site.stableId)) : u.named? name = t.named? name := by
  have view (t : BindingTree) : t.named? name = ((t.sites.toList.map fun site => (site.node, site.stableId)).find?
      fun sign => sign.2 = some name).map Prod.fst := by
    rw [named?_eq, List.find?_map, Option.map_map]
    rfl
  rw [view, view, same]

section LaidOut
variable (stands : Markup.Stands n d ms xs) (sound : d.Sound)
  (laidOut : s.document = (Layout.ofTemplate d s.stableId host xs).2)
include sound laidOut

/-- What lies below the nodes of a template that has been laid out lay there before. -/
theorem mem_subtree_laidOut {x y : NodeId} (inside : y ∈ s.document.subtree x) : y ∈ d.subtree x := by
  have follows := (d.reworks_ofTemplate host s.stableId xs).toFollows
  rw [← laidOut] at follows
  exact Document.mem_subtree_of_link (follows.sound sound) sound
    (fun _ _ link => Document.link_of_ofTemplate (laidOut ▸ link)) inside

include stands

/-- The nodes of a template that has been laid out are there, and nothing is below its texts. -/
theorem sound_laidOut : s.document.Sound ∧ (∀ x ∈ xs, s.document.contains x = true) ∧
    ∀ x ∈ xs, ∀ y ∈ s.document.subtree x, s.document.isText y = true → s.document.children y = [] := by
  have follows := (d.reworks_ofTemplate host s.stableId xs).toFollows
  have words (y : NodeId) : s.document.isText y = d.isText y := by
    rw [laidOut, Bool.eq_iff_iff, Document.isText_iff, Document.isText_iff,
      Document.words?_of_texts (Document.texts_ofTemplate d s.stableId host xs)]
  rw [← laidOut] at follows
  refine ⟨follows.sound sound, fun x top => ?_, fun x top y below text => ?_⟩
  · exact (Document.contains_iff _ _).mpr ((stands.bound top).trans_le follows.size)
  · have inside : y ∈ xs.flatMap d.subtree :=
      List.mem_flatMap.mpr ⟨x, top, mem_subtree_laidOut sound laidOut below⟩
    have empty : d.children y = [] := stands.children_text sound inside (by rwa [← words])
    refine List.eq_nil_iff_forall_not_mem.mpr fun c child => ?_
    have link : d.Link c y := Document.link_of_ofTemplate (laidOut ▸ (follows.sound sound).parent c y child)
    have child := sound.listed c y link
    rw [empty] at child
    cases child

theorem mirrors_laidOut : (ofTemplate s host xs).Mirrors s.document host xs := by
  obtain ⟨sound, there, plain⟩ := sound_laidOut stands sound laidOut
  exact mirrors_ofTemplate sound host there plain

/-- What a reference to a template names is what its binding tree knows by this name. -/
theorem named?_ofTemplate (apart : (xs.flatMap d.subtree).Nodup) (referable : Markup.Referable s.stableId ms)
    (root : name ≠ "root") (content : name ≠ "content")
    (found : (Layout.ofTemplate d s.stableId host xs).1.refs.get? name = some x) :
    (ofTemplate s host xs).named? name = some x := by
  obtain ⟨inside, only⟩ := Layout.named_ofTemplate stands sound apart referable host root content found
  rw [← laidOut] at inside only
  have mirrors := mirrors_laidOut stands sound laidOut
  obtain ⟨sound', there, plain⟩ := sound_laidOut stands sound laidOut
  have named {i : Nat} {site : Site} (later : 0 < i) (here : _ = some site) :=
    stableId_ofTemplate sound' host there plain later here
  refine named?_eq_some ?_ fun i site here called => ?_
  · obtain ⟨i, site, later, here, rfl⟩ := mirrors.site_of_mem inside
    exact ⟨i, site, here, (named later here).trans ((only _ inside).mpr rfl)⟩
  · rcases Nat.eq_zero_or_pos i with rfl | later
    · cases mirrors.first.symm.trans here
      cases called
    · exact (only _ (mirrors.mem_of_site later here)).mp ((named later here).symm.trans called)

end LaidOut
end BindingTree
end LiveTree
