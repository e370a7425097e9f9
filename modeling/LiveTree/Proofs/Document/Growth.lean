import LiveTree.Proofs.Document.Links

/-! How a document grows below a host node. The nodes of a template are made one by one and put
below the host or below each other; what was there before is not put anywhere, until in the end the
former children of the host come to their place in the template. -/
namespace LiveTree.Document
variable {d e k : Document} {x y p host place parent child content : NodeId}

/-- Nodes have been added. Those that were there hang where they did, and the new ones hang below
`host`, below each other or nowhere. -/
structure Sprouts (host : NodeId) (d e : Document) : Prop extends d.Follows e where
  kept : ∀ x : NodeId, x.index < d.size → e.parent? x = d.parent? x
  new : ∀ x p, d.size ≤ x.index → e.Link x p → p = host ∨ d.size ≤ p.index

namespace Sprouts

theorem refl (d : Document) : d.Sprouts host d where
  toFollows := .refl d
  kept _ _ := rfl
  new _ _ new link := absurd (bound_of_parent? link) (Nat.not_lt_of_le new)

theorem trans (first : d.Sprouts host e) (second : e.Sprouts place k)
    (inside : place = host ∨ d.size ≤ place.index) : d.Sprouts host k where
  toFollows := first.toFollows.trans second.toFollows
  kept x old := (second.kept x (old.trans_le first.size)).trans (first.kept x old)
  new x p new link := by
    by_cases early : x.index < e.size
    · exact first.new x p new ((second.kept x early).symm.trans link)
    · rcases second.new x p (Nat.le_of_not_lt early) link with rfl | beyond
      · exact inside
      · exact .inr (first.size.trans beyond)

/-- Other changes than of links do not matter. -/
theorem still (sprouts : d.Sprouts host e) (follows : e.Follows k)
    (same : ∀ x, k.parent? x = e.parent? x) : d.Sprouts host k where
  toFollows := sprouts.toFollows.trans follows
  kept x old := (same x).trans (sprouts.kept x old)
  new x p new link := sprouts.new x p new ((same x).symm.trans link)

theorem append (sprouts : d.Sprouts host e) (new : d.size ≤ child.index)
    (inside : parent = host ∨ d.size ≤ parent.index) : d.Sprouts host (e.appendChild parent child) where
  toFollows := sprouts.toFollows.trans (reworks_appendChild e parent child).toFollows
  kept x old := by
    by_cases allowed : e.Allows parent child
    · have other : x ≠ child := by
        rintro rfl
        exact Nat.not_lt_of_le new old
      rw [parent?_appendChild allowed, if_neg other, sprouts.kept x old]
    · rw [appendChild, if_pos (Classical.not_not.mp allowed), sprouts.kept x old]
  new x p beyond link := by
    rcases link_appendChild link with before | ⟨-, rfl⟩
    · exact sprouts.new x p beyond before
    · exact inside

/-- What lies above a node that was there is what lay above it. -/
theorem under (sprouts : d.Sprouts host e) (sound : d.Sound) (old : x.index < d.size)
    (below : e.Under x y) : d.Under x y := by
  induction below using Relation.TransGen.head_induction_on with
  | single link => exact .single ((sprouts.kept _ old).symm.trans link)
  | @head x p link _ ih =>
    have before : d.Link x p := (sprouts.kept _ old).symm.trans link
    exact .head before (ih (sound.bound_of_link before))

/-- Below a host that is new itself the old nodes have got nothing. -/
theorem elsewhere (sprouts : d.Sprouts host e) (beyond : d.size ≤ host.index) : d.Sprouts place e where
  toFollows := sprouts.toFollows
  kept := sprouts.kept
  new x p new link := .inr <| (sprouts.new x p new link).elim (fun same => same ▸ beyond) id

/-- A new node can be put below one that was there. -/
theorem link_append (sprouts : d.Sprouts host e) (sound : d.Sound) (new : d.size ≤ child.index)
    (there : child.index < e.size) (old : parent.index < d.size) :
    (e.appendChild parent child).Link child parent := by
  have outside : ¬e.Under parent child := fun below =>
    Nat.not_lt_of_le new (sound.bound_of_under (sprouts.under sound old below))
  have apart : parent ≠ child := by
    rintro rfl
    exact Nat.not_lt_of_le new old
  have allowed : e.Allows parent child := by
    rintro (same | missing | missing | within)
    · exact apart same
    · rw [(e.contains_iff parent).mpr (old.trans_le sprouts.size)] at missing
      cases missing
    · rw [(e.contains_iff child).mpr there] at missing
      cases missing
    · exact ((sprouts.sound sound).isWithin_iff_under.mp within).elim apart outside
  rw [Link, parent?_appendChild allowed, if_pos rfl]

end Sprouts

theorem sprouts_add (d : Document) {content : Content} (follows : d.Follows (d.add content).2) :
    d.Sprouts host (d.add content).2 :=
  (Sprouts.refl d).still follows (d.parent?_add content)

/-- Children that are taken away have lost their links at most. -/
theorem link_foldl_removeChild (light : List NodeId)
    (later : (light.foldl (fun d x => (d.removeChild? host x).getD d) d).Link x p) : d.Link x p := by
  induction light generalizing d with
  | nil => exact later
  | cons y rest ih =>
    have before : ((d.removeChild? host y).getD d).Link x p := ih later
    unfold removeChild? at before
    split at before
    · exact (parent?_of_detach before).2
    · exact before

structure Grows (host : NodeId) (d e : Document) : Prop extends d.Follows e where
  old : ∀ x p, x.index < d.size → e.Link x p → d.Link x p
  new : ∀ x p, d.size ≤ x.index → e.Link x p → p = host ∨ d.size ≤ p.index

namespace Grows

theorem refl (d : Document) : d.Grows host d where
  toFollows := .refl d
  old _ _ _ link := link
  new _ _ new link := absurd (bound_of_parent? link) (Nat.not_lt_of_le new)

/-- Links that were cut are not missed. -/
theorem cut (grows : d.Grows host e) (follows : e.Follows k) (cuts : ∀ x p, k.Link x p → e.Link x p) :
    d.Grows host k where
  toFollows := grows.toFollows.trans follows
  old x p old later := grows.old x p old (cuts x p later)
  new x p new later := grows.new x p new (cuts x p later)

theorem still (grows : d.Grows host e) (follows : e.Follows k)
    (same : ∀ x, k.parent? x = e.parent? x) : d.Grows host k :=
  grows.cut follows fun x _ link => (same x).symm.trans link

theorem sprout (grows : d.Grows host e) (sprouts : e.Sprouts host k) : d.Grows host k where
  toFollows := grows.toFollows.trans sprouts.toFollows
  old x p old later := grows.old x p old ((sprouts.kept x (old.trans_le grows.size)).symm.trans later)
  new x p new later := by
    by_cases early : x.index < e.size
    · exact grows.new x p new ((sprouts.kept x early).symm.trans later)
    · exact (sprouts.new x p (Nat.le_of_not_lt early) later).imp_right grows.size.trans

/-- What lies below a new node is new. -/
theorem new_of_under (grows : d.Grows host e) (sound : d.Sound) (new : d.size ≤ y.index)
    (below : e.Under x y) : d.size ≤ x.index := by
  by_contra old
  have bound : y.index < d.size := by
    clear new
    induction below with
    | single link => exact sound.bound_of_link (grows.old _ _ (Nat.lt_of_not_le old) link)
    | tail _ link ih => exact sound.bound_of_link (grows.old _ _ ih link)
  exact Nat.not_lt_of_le new bound

end Grows

structure Regrows (host content : NodeId) (d e : Document) : Prop extends d.Follows e where
  place : content = host ∨ d.size ≤ content.index
  inside : content = host ∨ e.Under content host
  old : ∀ x p, x.index < d.size → e.Link x p → d.Link x p ∨ d.Link x host ∧ p = content
  new : ∀ x p, d.size ≤ x.index → e.Link x p → p = host ∨ d.size ≤ p.index

theorem Grows.regrows (grows : d.Grows host e) (place : content = host ∨ d.size ≤ content.index)
    (inside : content = host ∨ e.Under content host) : d.Regrows host content e where
  toFollows := grows.toFollows
  place := place
  inside := inside
  old x p old link := .inl (grows.old x p old link)
  new := grows.new

namespace Regrows

/-- One of the children of the host is put into its place. -/
theorem append (regrows : d.Regrows host content e) (light : d.Link child host) :
    d.Regrows host content (e.appendChild content child) where
  toFollows := regrows.toFollows.trans (reworks_appendChild e content child).toFollows
  place := regrows.place
  inside := by
    have kept {x p : NodeId} (new : d.size ≤ x.index) (link : e.Link x p) :
        (e.appendChild content child).Link x p := by
      by_cases allowed : e.Allows content child
      · have other : x ≠ child := by
          rintro rfl
          exact Nat.not_lt_of_le new (bound_of_parent? light)
        rw [Link, parent?_appendChild allowed, if_neg other]
        exact link
      · rwa [appendChild, if_pos (Classical.not_not.mp allowed)]
    -- The nodes between the new place and the host are new, so that they stay where they are.
    have climb {x : NodeId} (new : d.size ≤ x.index) (below : e.Under x host) :
        (e.appendChild content child).Under x host := by
      induction below using Relation.TransGen.head_induction_on with
      | single link => exact .single (kept new link)
      | head link _ ih =>
        rcases regrows.new _ _ new link with rfl | beyond
        · exact .single (kept new link)
        · exact .head (kept new link) (ih beyond)
    rcases regrows.place with same | new
    · exact .inl same
    · exact regrows.inside.imp_right (climb new)
  old x p old later := by
    rcases link_appendChild later with before | ⟨rfl, rfl⟩
    · exact regrows.old x p old before
    · exact .inr ⟨light, rfl⟩
  new x p new later := by
    rcases link_appendChild later with before | ⟨rfl, -⟩
    · exact regrows.new x p new before
    · exact absurd (bound_of_parent? light) (Nat.not_lt_of_le new)

theorem foldl (regrows : d.Regrows host content e) {light : List NodeId}
    (former : ∀ x ∈ light, d.Link x host) :
    d.Regrows host content (light.foldl (fun d x => d.appendChild content x) e) := by
  induction light generalizing e with
  | nil => exact regrows
  | cons x rest ih =>
    exact ih (regrows.append (former x List.mem_cons_self)) fun y later =>
      former y (List.mem_cons_of_mem _ later)

variable (regrows : d.Regrows host content e)
include regrows

/-- A node that was at the top is there still. -/
theorem top (old : x.index < d.size) (free : d.parent? x = none) : e.parent? x = none := by
  cases above : e.parent? x with
  | none => rfl
  | some p => rcases regrows.old x p old above with link | ⟨link, -⟩ <;> cases free.symm.trans link

/-- A way up from a new node to an old one comes by the host. -/
theorem under_new (new : d.size ≤ x.index) (old : y.index < d.size) (below : e.Under x y) :
    e.Under x host ∧ (host = y ∨ e.Under host y) := by
  induction below using Relation.TransGen.head_induction_on with
  | single link =>
    rcases regrows.new _ _ new link with rfl | beyond
    · exact ⟨.single link, .inl rfl⟩
    · exact absurd old (Nat.not_lt_of_le beyond)
  | head link rest ih =>
    rcases regrows.new _ _ new link with rfl | beyond
    · exact ⟨.single link, .inr rest⟩
    · exact ⟨.head link (ih beyond).1, (ih beyond).2⟩

variable (sound : d.Sound) (bound : host.index < d.size)
include sound bound

/-- Above the host nothing has changed. -/
theorem under_host (above : e.Under host y) : d.Under host y := by
  induction above with
  | single link =>
    rcases regrows.old _ _ bound link with before | ⟨round, -⟩
    · exact .single before
    · exact absurd (.single round) sound.not_under_self
  | tail _ link ih =>
    rcases regrows.old _ _ (sound.bound_of_under ih) link with before | ⟨round, -⟩
    · exact ih.tail before
    · exact absurd (ih.tail round) sound.not_under_self

/-- Of two nodes that were there the one lies below the other only if it did. -/
theorem under_old (old : x.index < d.size) (old' : y.index < d.size) (below : e.Under x y) :
    d.Under x y := by
  induction below using Relation.TransGen.head_induction_on with
  | single link =>
    rcases regrows.old _ _ old link with before | ⟨light, rfl⟩
    · exact .single before
    · rcases regrows.place with rfl | beyond
      · exact .single light
      · exact absurd old' (Nat.not_lt_of_le beyond)
  | @head x p link rest ih =>
    rcases regrows.old _ _ old link with before | ⟨light, rfl⟩
    · exact .head before (ih (sound.bound_of_link before))
    · rcases regrows.place with rfl | beyond
      · exact .head light (ih bound)
      · rcases (regrows.under_new beyond old' rest).2 with rfl | above
        · exact .single light
        · exact .head light (regrows.under_host sound bound above)

/-- A new node that has come above an old one lies within the host. -/
theorem inside_of_above (old : x.index < d.size) (new : d.size ≤ y.index) (below : e.Under x y) :
    e.Under y host := by
  have outside : ¬e.Under host y := fun above =>
    Nat.not_lt_of_le new (sound.bound_of_under (regrows.under_host sound bound above))
  induction below using Relation.TransGen.head_induction_on with
  | @single x link =>
    rcases regrows.old _ _ old link with before | ⟨-, rfl⟩
    · exact absurd (sound.bound_of_link before) (Nat.not_lt_of_le new)
    · refine regrows.inside.resolve_left ?_
      rintro rfl
      exact Nat.not_lt_of_le new bound
  | @head x p link rest ih =>
    rcases regrows.old _ _ old link with before | ⟨-, rfl⟩
    · exact ih (sound.bound_of_link before)
    · rcases regrows.inside with rfl | within
      · exact absurd rest outside
      · rcases Under.linear rest within with rfl | deep | above
        · exact absurd bound (Nat.not_lt_of_le new)
        · exact deep
        · exact absurd above outside

end Regrows

section Layout
variable {template : List NodeId}

theorem tree_foldl {β : Type} {f : Document → β → Document} (keeps : ∀ d b, (f d b).tree = d.tree)
    (items : List β) (d : Document) : (items.foldl f d).tree = d.tree := by
  induction items generalizing d with
  | nil => rfl
  | cons b rest ih => exact (ih _).trans (keeps d b)

/-- A template is laid out by taking its slot out, if it has one. The former children go to the place of the
slot, or else to the host or some element of the template. -/
theorem ofTemplate_cases (d : Document) (attr : String) (host : NodeId) (template : List NodeId) :
    (∀ x, (Layout.ofTemplate d attr host template).2.parent? x = d.parent? x) ∧
        ((Layout.ofTemplate d attr host template).1.content = host ∨
          (Layout.ofTemplate d attr host template).1.content ∈ template.flatMap d.subtree) ∨
      ∃ slot ∈ template.flatMap d.subtree,
        (∀ x, (Layout.ofTemplate d attr host template).2.parent? x = (d.detach slot).parent? x) ∧
        ∀ p, d.Link slot p → (Layout.ofTemplate d attr host template).1.content = p := by
  unfold Layout.ofTemplate
  extract_lets elements root slot rest content laid stable refs
  dsimp only
  have parent (x : NodeId) :
      (stable.foldl (fun d r => d.setAttribute r.1 attr r.2) laid).parent? x = laid.parent? x := by
    have same := tree_foldl (fun d (r : NodeId × String) => tree_setAttribute d r.1 attr r.2) stable laid
    rw [parent?_eq, same, ← parent?_eq]
  have member {x : NodeId} (inside : x ∈ elements) : x ∈ template.flatMap d.subtree :=
    (List.mem_filter.mp inside).1
  cases here : slot with
  | some s =>
    refine .inr ⟨s, member (List.mem_of_find?_eq_some here), fun x => ?_, fun p link => ?_⟩
    · rw [parent]
      unfold laid
      rw [here]
      rfl
    · unfold content Layout.contentOf
      rw [here, Option.bind_some, link]
      rfl
  | none =>
    refine .inl ⟨fun x => ?_, ?_⟩
    · rw [parent]
      unfold laid
      rw [here]
      rfl
    · have top : root = host ∨ root ∈ template.flatMap d.subtree := by
        unfold root
        cases first : elements.head? with
        | none => exact .inl rfl
        | some x => exact .inr (member (List.mem_of_head? first))
      unfold content Layout.contentOf
      rw [here]
      cases found : rest.find? fun x => d.hasAttribute x "inner-h-t-m-l" with
      | none => exact top
      | some x => exact .inr (member (List.mem_filter.mp (List.mem_of_find?_eq_some found)).1)

/-- Laying out a template puts no node below another. -/
theorem link_of_ofTemplate {attr : String}
    (link : (Layout.ofTemplate d attr host template).2.Link x p) : d.Link x p := by
  rcases ofTemplate_cases d attr host template with ⟨same, -⟩ | ⟨slot, -, same, -⟩
  · exact (same x).symm.trans link
  · exact (parent?_of_detach ((same x).symm.trans link)).2

/-- A way up that does not come by a node is still there when the node is taken out. -/
theorem under_detach (below : d.Under x y) (apart : x ≠ child) (outside : ¬d.Under x child) :
    (d.detach child).Under x y := by
  induction below using Relation.TransGen.head_induction_on with
  | single link => exact .single (by rw [Link, parent?_detach, if_neg apart]; exact link)
  | @head x p link _ ih =>
    refine .head (by rw [Link, parent?_detach, if_neg apart]; exact link) (ih ?_ ?_)
    · rintro rfl
      exact outside (.single link)
    · exact fun deeper => outside (.head link deeper)

theorem Grows.ofTemplate (grows : d.Grows host e) (sound : d.Sound) (attr : String)
    (below : ∀ x ∈ template, d.size ≤ x.index ∧ e.Link x host) :
    d.Regrows host (Layout.ofTemplate e attr host template).1.content
      (Layout.ofTemplate e attr host template).2 := by
  have sound' := grows.sound sound
  have follows := (reworks_ofTemplate e host attr template).toFollows
  have member {y : NodeId} (inside : y ∈ template.flatMap e.subtree) :
      d.size ≤ y.index ∧ e.Under y host := by
    obtain ⟨x, here, deep⟩ := List.mem_flatMap.mp inside
    obtain ⟨new, link⟩ := below x here
    rcases sound'.mem_subtree_iff_under.mp deep with rfl | under
    · exact ⟨new, .single link⟩
    · exact ⟨grows.new_of_under sound new under, under.tail link⟩
  rcases ofTemplate_cases e attr host template with ⟨same, place⟩ | ⟨slot, inside, same, place⟩
  · have under {x y : NodeId} (below : e.Under x y) :
        (Layout.ofTemplate e attr host template).2.Under x y :=
      Relation.TransGen.mono (fun x _ link => (same x).trans link) _ _ below
    exact (grows.still follows same).regrows (place.imp_right fun inside => (member inside).1)
      (place.imp_right fun inside => under (member inside).2)
  · obtain ⟨new, above⟩ := member inside
    obtain ⟨p, link, further⟩ := under_iff_link.mp above
    rw [place p link]
    refine (grows.cut follows fun x p => link_of_ofTemplate).regrows (grows.new slot p new link) (further.imp_right fun under => ?_)
    -- The way up from the place of the slot does not come by the slot.
    have still : (e.detach slot).Under p host := by
      refine under_detach under ?_ fun round => sound'.not_under_self (.head link round)
      rintro rfl
      exact sound'.not_under_self (.single link)
    exact Relation.TransGen.mono (fun x _ link => (same x).trans link) _ _ still

end Layout

/-! Texts. Which nodes are texts, and what stands in them, does not change when nodes are moved or laid
out. -/

def words? (d : Document) (x : NodeId) : Option String := (d.node? x).bind Node.text?

theorem words?_of_texts (same : e.texts = d.texts) (x : NodeId) : e.words? x = d.words? x := by
  have view (d : Document) : d.words? x = (d.texts[x.index]?).join := by
    simp only [words?, node?, Arena.get?, texts, Array.getElem?_map]
    cases d.nodes.cells[x.index]? <;> rfl
  rw [view, view, same]

theorem words?_of_content (same : e.content? x = d.content? x) : e.words? x = d.words? x := by
  have view (d : Document) : d.words? x = (d.content? x).bind fun content => Node.text? { content } := by
    rw [words?, content?, Option.bind_map]
    rfl
  rw [view, view, same]

theorem text_of_words? {words : String} (here : d.words? x = some words) : d.text x = words := by
  unfold words? at here
  unfold text textUpTo content?
  cases found : d.node? x with
  | none => rw [found] at here; cases here
  | some n =>
    rw [found, Option.bind_some, Node.text?] at here
    cases content : n.content with
    | element tag => rw [content] at here; cases here
    | text words => rw [content] at here; rw [Option.map_some, content]; exact Option.some.inj here

theorem isText_iff : d.isText x = true ↔ ∃ words, d.words? x = some words := by
  unfold isText content? words?
  cases d.node? x with
  | none => simp
  | some n => cases content : n.content <;> simp [Node.text?, content]

/-- Texts that are kept are the same as one. -/
theorem textOf_congr {xs : List NodeId} (plain : ∀ x ∈ xs, d.isText x = true)
    (same : ∀ x ∈ xs, e.words? x = d.words? x) : textOf e xs = textOf d xs := by
  have text (x : NodeId) (inside : x ∈ xs) : e.text x = d.text x := by
    obtain ⟨words, here⟩ := isText_iff.mp (plain x inside)
    rw [text_of_words? here, text_of_words? ((same x inside).trans here)]
  rw [textOf, List.map_congr_left text, textOf]

theorem texts_foldl {β : Type} {f : Document → β → Document} (keeps : ∀ d b, (f d b).texts = d.texts)
    (items : List β) (d : Document) : (items.foldl f d).texts = d.texts := by
  induction items generalizing d with
  | nil => rfl
  | cons b rest ih => exact (ih _).trans (keeps d b)

theorem texts_removeChildren (light : List NodeId) (d : Document) :
    (light.foldl (fun d x => (d.removeChild? host x).getD d) d).texts = d.texts := by
  refine texts_foldl (fun d x => ?_) light d
  unfold removeChild?
  split
  · exact texts_detach d x
  · rfl

theorem texts_ofTemplate (d : Document) (attr : String) (host : NodeId) (template : List NodeId) :
    (Layout.ofTemplate d attr host template).2.texts = d.texts := by
  unfold Layout.ofTemplate
  extract_lets elements root slot rest content laid stable refs
  refine (texts_foldl (fun d (r : NodeId × String) => texts_setAttribute d r.1 attr r.2) stable laid).trans ?_
  unfold laid
  cases slot with
  | none => rfl
  | some x => exact texts_detach d x

end LiveTree.Document
