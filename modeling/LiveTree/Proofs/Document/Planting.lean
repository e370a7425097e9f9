import LiveTree.Proofs.Document.Growth

/-! What a document gets from a template: new nodes with the tags, texts and attributes that are written
there, each below that of the markup around it. The nodes that were there stay as they were, but for the
one below which the template grows. -/
namespace LiveTree

namespace Document
variable {d e k : Document} {x y parent : NodeId}

def bare? (d : Document) (x : NodeId) : Option Node :=
  (d.node? x).map fun n => { n with properties := [], listeners := [] }

abbrev Face := Content × Keyed String × List NodeId

def face? (d : Document) (x : NodeId) : Option Face :=
  (d.node? x).map fun n => (n.content, n.attributes, n.children)

theorem bare?_eq_none (d : Document) (x : NodeId) : d.bare? x = none ↔ d.size ≤ x.index := by
  rw [bare?, Option.map_eq_none_iff]
  exact Array.getElem?_eq_none_iff

theorem parent?_bare (d : Document) (x : NodeId) : (d.bare? x).bind Node.parent = d.parent? x := by
  rw [bare?, Option.bind_map]
  rfl

theorem children_bare (d : Document) (x : NodeId) : ((d.bare? x).map Node.children).getD [] = d.children x := by
  rw [bare?, Option.map_map]
  rfl

theorem content?_bare (d : Document) (x : NodeId) : (d.bare? x).map Node.content = d.content? x := by
  rw [bare?, Option.map_map]
  rfl

theorem face?_bare (d : Document) (x : NodeId) :
    ((d.bare? x).map fun n => (n.content, n.attributes, n.children)) = d.face? x := by
  rw [bare?, Option.map_map]
  rfl

theorem children_of_face {content : Content} {attributes : Keyed String} {ys : List NodeId}
    (face : d.face? x = some (content, attributes, ys)) : d.children x = ys := by
  obtain ⟨n, found, same⟩ := Option.map_eq_some_iff.mp face
  rw [children, found]
  exact congrArg (·.2.2) same

theorem content?_of_face {content : Content} {attributes : Keyed String} {ys : List NodeId}
    (face : d.face? x = some (content, attributes, ys)) : d.content? x = some content := by
  obtain ⟨n, found, same⟩ := Option.map_eq_some_iff.mp face
  rw [content?, found]
  exact congrArg (fun face => some face.1) same

theorem bound_of_face {face : Face} (here : d.face? x = some face) : x.index < d.size := by
  obtain ⟨n, found, -⟩ := Option.map_eq_some_iff.mp here
  exact (Array.getElem?_eq_some_iff.mp found).1

theorem face?_of_node? {n : Node} (found : d.node? x = some n) :
    d.face? x = some (n.content, n.attributes, n.children) := by
  rw [face?, found]
  rfl

def Gains (parent : NodeId) (xs : List NodeId) (d e : Document) : Prop :=
  ∀ y, y.index < d.size → e.bare? y = (d.bare? y).map fun n =>
    if y = parent then { n with children := n.children ++ xs } else n

def Keeps (d e : Document) : Prop := ∀ y, y.index < d.size → e.bare? y = d.bare? y

theorem Keeps.refl (d : Document) : d.Keeps d := fun _ _ => rfl

theorem Keeps.gains (keeps : d.Keeps e) (parent : NodeId) : d.Gains parent [] e := by
  intro y old
  rw [keeps y old]
  cases d.bare? y <;> simp

namespace Gains
variable {xs ys : List NodeId} (gains : d.Gains parent xs e)
include gains

theorem size : d.size ≤ e.size := by
  refine Nat.le_of_not_lt fun shorter => ?_
  have kept := gains ⟨e.size⟩ shorter
  rw [(e.bare?_eq_none ⟨e.size⟩).mpr (Nat.le_refl e.size)] at kept
  exact Nat.not_le_of_lt shorter ((d.bare?_eq_none _).mp (Option.map_eq_none_iff.mp kept.symm))

theorem trans (second : e.Gains parent ys k) : d.Gains parent (xs ++ ys) k := by
  intro y old
  rw [second y (old.trans_le gains.size), gains y old, Option.map_map]
  refine congrFun (congrArg Option.map (funext fun n => ?_)) _
  by_cases same : y = parent <;> simp [same]

theorem face?_of_ne (old : y.index < d.size) (apart : y ≠ parent) : e.face? y = d.face? y := by
  rw [← face?_bare, gains y old, Option.map_map, ← face?_bare]
  refine congrFun (congrArg Option.map (funext fun n => ?_)) _
  simp [apart]

theorem face?_self (old : parent.index < d.size) :
    e.face? parent = (d.face? parent).map fun face => (face.1, face.2.1, face.2.2 ++ xs) := by
  rw [← face?_bare, gains parent old, Option.map_map, ← face?_bare, Option.map_map]
  refine congrFun (congrArg Option.map (funext fun n => ?_)) _
  simp

theorem parent? (old : y.index < d.size) : e.parent? y = d.parent? y := by
  rw [← parent?_bare, gains y old, ← parent?_bare, Option.bind_map]
  refine congrArg _ (funext fun n => ?_)
  by_cases same : y = parent <;> simp [same]

theorem content? (old : y.index < d.size) : e.content? y = d.content? y := by
  rw [← content?_bare, gains y old, ← content?_bare, Option.map_map]
  refine congrFun (congrArg Option.map (funext fun n => ?_)) _
  by_cases same : y = parent <;> simp [same]

theorem children_of_ne (old : y.index < d.size) (apart : y ≠ parent) : e.children y = d.children y := by
  rw [← children_bare, gains y old, ← children_bare, Option.map_map]
  refine congrArg (Option.getD · []) (congrFun (congrArg Option.map (funext fun n => ?_)) _)
  simp [apart]

theorem children_self (old : parent.index < d.size) : e.children parent = d.children parent ++ xs := by
  obtain ⟨n, found⟩ : ∃ n, d.bare? parent = some n :=
    Option.ne_none_iff_exists'.mp fun missing => Nat.not_le_of_lt old ((d.bare?_eq_none _).mp missing)
  rw [← children_bare, gains parent old, ← children_bare, found]
  simp

theorem sprouts (before : d.Sound) (sound : e.Sound) : d.Sprouts parent e := by
  refine ⟨⟨fun _ => sound, gains.size, fun x old => ?_⟩, fun x old => gains.parent? old, fun x p new link => ?_⟩
  · rw [tag?, gains.content? old, tag?]
  · -- A node that was there has got new children only if it is the one below which things grew.
    refine Decidable.or_iff_not_imp_left.mpr fun apart => Nat.le_of_not_lt fun there => ?_
    have child := sound.listed x p link
    rw [gains.children_of_ne there apart] at child
    exact Nat.not_lt_of_le new (bound_of_parent? (before.parent x p child))

end Gains

theorem Keeps.trans (first : d.Keeps e) (second : e.Keeps k) : d.Keeps k := fun y old =>
  (second y (old.trans_le (first.gains y).size)).trans (first y old)

end Document

namespace Markup

def content : Markup → Content
  | .text words => .text words
  | .element tag _ _ => .element tag.toLower

def attributes : Markup → Keyed String
  | .text _ => []
  | .element _ attributes _ => .ofList attributes

def inner : Markup → List Markup
  | .text _ => []
  | .element _ _ children => children

/-- The markup stands in a document at some nodes, none of which is one of the first `n`. -/
inductive Stands (n : Nat) (d : Document) : List Markup → List NodeId → Prop
  | nil : Stands n d [] []
  | cons {m : Markup} {x : NodeId} {ys xs : List NodeId} {ms : List Markup} (new : n ≤ x.index)
    (face : d.face? x = some (m.content, m.attributes, ys)) (below : Stands n d m.inner ys)
    (rest : Stands n d ms xs) : Stands n d (m :: ms) (x :: xs)

namespace Stands
variable {n k : Nat} {d e : Document} {ms more : List Markup} {xs ys : List NodeId} {x y : NodeId}

theorem append (first : Stands n d ms xs) (second : Stands n d more ys) :
    Stands n d (ms ++ more) (xs ++ ys) := by
  induction first with
  | nil => exact second
  | cons new face below _ _ ih => exact .cons new face below ih

/-- What comes of nodes elsewhere does not matter. -/
theorem congr (stands : Stands n d ms xs)
    (same : ∀ y, n ≤ y.index → y.index < d.size → e.face? y = d.face? y) : Stands n e ms xs := by
  induction stands with
  | nil => exact .nil
  | cons new face _ _ ihBelow ihRest =>
    exact .cons new ((same _ new (Document.bound_of_face face)).trans face) ihBelow ihRest

theorem mono (stands : Stands n d ms xs) (earlier : k ≤ n) : Stands k d ms xs := by
  induction stands with
  | nil => exact .nil
  | cons new face _ _ ihBelow ihRest => exact .cons (earlier.trans new) face ihBelow ihRest

/-- All that lies below the nodes is new as well. -/
theorem new (stands : Stands n d ms xs) (sound : d.Sound) (inside : y ∈ xs.flatMap d.subtree) :
    n ≤ y.index := by
  induction stands with
  | nil => cases inside
  | cons new face _ _ ihBelow ihRest =>
    rw [List.flatMap_cons, Document.subtree, sound.descendants_eq, Document.children_of_face face,
      List.cons_append, List.mem_cons, List.mem_append] at inside
    rcases inside with rfl | below | later
    · exact new
    · exact ihBelow below
    · exact ihRest later

theorem bound (stands : Stands n d ms xs) (inside : y ∈ xs) : y.index < d.size := by
  induction stands with
  | nil => cases inside
  | cons _ face _ _ _ ihRest =>
    rcases List.mem_cons.mp inside with rfl | later
    · exact Document.bound_of_face face
    · exact ihRest later

end Stands
end Markup

namespace Document
variable {d e k : Document} {x y parent : NodeId} {m : Markup} {ms : List Markup} {xs : List NodeId}

structure Plants (m : Markup) (x : NodeId) (d e : Document) : Prop where
  sound : e.Sound
  stands : Markup.Stands d.size e [m] [x]
  keeps : d.Keeps e
  top : e.parent? x = none

structure PlantsBelow (parent : NodeId) (ms : List Markup) (xs : List NodeId) (d e : Document) : Prop where
  sound : e.Sound
  stands : Markup.Stands d.size e ms xs
  gains : d.Gains parent xs e

/-- Attributes change what a node looks like and nothing else. -/
theorem node?_setAttributes (d : Document) (x y : NodeId) (attributes : List (String × String)) :
    (attributes.foldl (fun d a => d.setAttribute x a.1 a.2) d).node? y = (d.node? y).map fun n =>
      if x = y then { n with attributes := attributes.foldl (fun acc a => acc.insert a.1 a.2) n.attributes }
      else n := by
  induction attributes generalizing d with
  | nil => cases found : d.node? y <;> simp [found]
  | cons a rest ih =>
    rw [List.foldl_cons, ih, setAttribute, node?_modify]
    by_cases same : x = y
    · cases d.node? y <;> simp [same]
    · simp [same]

/-- A node that is under no other is put last under one that it is not above. -/
theorem node?_appendChild_top (allowed : d.Allows parent x) (top : d.parent? x = none) (y : NodeId) :
    (d.appendChild parent x).node? y = (d.node? y).map fun n =>
      if y = parent then { n with children := n.children ++ [x] }
      else if y = x then { n with parent := some parent } else n := by
  have apart := allowed.there.1
  have still : d.detach x = d := by rw [detach, top]
  rw [appendChild, if_neg allowed, still, node?_modify, node?_modify]
  by_cases here : parent = y
  · subst here
    rw [if_pos rfl, if_neg (Ne.symm apart)]
    simp
  · rw [if_neg here]
    by_cases same : x = y
    · subst same
      simp [Ne.symm here]
    · cases d.node? y <;> simp [Ne.symm here, same, Ne.symm same]

theorem parent?_of_new (d : Document) : d.parent? ⟨d.size⟩ = none := by
  rw [parent?, show d.node? ⟨d.size⟩ = none from Array.getElem?_eq_none (Nat.le_refl _)]
  rfl

theorem Keeps.of_node? (same : ∀ y : NodeId, y.index < d.size → e.node? y = d.node? y) : d.Keeps e :=
  fun y old => by rw [bare?, same y old, bare?]

/-- A new node has no children and no attributes. -/
theorem plants_add (sound : d.Sound) (follows : d.Follows (d.add m.content).2) (named : m.attributes = [])
    (empty : m.inner = []) : Plants m ⟨d.size⟩ d (d.add m.content).2 := by
  refine ⟨follows.sound sound, ?_, Keeps.of_node? fun y old => ?_, ?_⟩
  · have new : (d.add m.content).2.node? ⟨d.size⟩ = some { content := m.content } := by
      rw [node?_add, if_pos rfl]
    have face : (d.add m.content).2.face? ⟨d.size⟩ = some (m.content, m.attributes, []) := by
      rw [face?_of_node? new, named]
    exact .cons (Nat.le_refl _) face (empty ▸ .nil) .nil
  · rw [node?_add, if_neg (Nat.ne_of_lt old)]
  · exact (parent?_add d _ _).trans d.parent?_of_new

namespace Plants
variable (plants : Plants m x d e)
include plants

theorem new : d.size ≤ x.index := plants.stands.new plants.sound (by simp [subtree])

theorem bound : x.index < e.size := plants.stands.bound List.mem_cons_self

/-- Nothing is lost by changes elsewhere. -/
theorem still (keeps : e.Keeps k) (follows : e.Follows k) : Plants m x d k where
  sound := follows.sound plants.sound
  stands := plants.stands.congr fun y _ bound => by rw [← face?_bare, keeps y bound, face?_bare]
  keeps := plants.keeps.trans keeps
  top := ((keeps.gains x).parent? plants.bound).trans plants.top

end Plants

/-- The attributes of an element are written into a node. -/
theorem Plants.name {tag : String} (plants : Plants (.element tag [] []) x d e)
    (attributes : List (String × String)) : Plants (.element tag attributes []) x d
      (attributes.foldl (fun d a => d.setAttribute x a.1 a.2) e) := by
  have node? := fun y => node?_setAttributes e x y attributes
  have tree := tree_foldl (fun e (a : String × String) => tree_setAttribute e x a.1 a.2) attributes e
  have new := plants.new
  generalize attributes.foldl (fun d a => d.setAttribute x a.1 a.2) e = k at tree node?
  obtain ⟨sound, stands, keeps, top⟩ := plants
  refine ⟨(Follows.of_tree tree).sound sound, ?_, fun y old => ?_, ?_⟩
  · cases stands with
    | cons new face below =>
      cases below
      let m := Markup.element tag attributes []
      suffices face : k.face? x = some (m.content, m.attributes, []) from .cons new face .nil .nil
      obtain ⟨n, found, same⟩ := Option.map_eq_some_iff.mp face
      obtain ⟨content, rest⟩ := Prod.mk.inj same
      obtain ⟨named, children⟩ := Prod.mk.inj rest
      have later := node? x
      rw [found, Option.map_some, if_pos rfl] at later
      rw [face?_of_node? later]
      change some (n.content, attributes.foldl _ n.attributes, n.children) = _
      rw [content, named, children]
      rfl
  · have other : x ≠ y := by
      rintro rfl
      exact Nat.not_lt_of_le new old
    rw [← keeps y old, bare?, node?, bare?]
    cases e.node? y <;> simp [other]
  · rw [parent?_eq, tree, ← parent?_eq, top]

/-- Markup is planted below an element that has just been made. -/
theorem Plants.fill {tag : String} {attributes : List (String × String)} {children : List Markup}
    (plants : Plants (.element tag attributes []) x d e) (below : PlantsBelow x children xs e k) :
    Plants (.element tag attributes children) x d k := by
  have new := plants.new
  have bound := plants.bound
  have early := (plants.keeps.gains x).size
  refine ⟨below.sound, ?_, fun y old => ?_, (below.gains.parent? bound).trans plants.top⟩
  · cases plants.stands with
    | cons _ face bare =>
      cases bare
      refine .cons new ?_ (below.stands.mono early) .nil
      rw [below.gains.face?_self bound, face]
      rfl
  · have other : y ≠ x := by
      rintro rfl
      exact Nat.not_lt_of_le new old
    rw [below.gains y (old.trans_le early), plants.keeps y old]
    cases d.bare? y <;> simp [other]

theorem plantsBelow_nil (sound : d.Sound) (parent : NodeId) : PlantsBelow parent [] [] d d :=
  ⟨sound, .nil, (Keeps.refl d).gains parent⟩

namespace PlantsBelow
variable (below : PlantsBelow parent ms xs d e)
include below

theorem new (inside : x ∈ xs) : d.size ≤ x.index :=
  below.stands.new below.sound (List.mem_flatMap.mpr ⟨x, inside, List.mem_cons_self⟩)

theorem link (there : parent.index < d.size) (inside : x ∈ xs) : e.Link x parent := by
  refine below.sound.parent x parent ?_
  rw [below.gains.children_self there]
  exact List.mem_append_right _ inside

/-- No two of the new nodes have anything below them in common. -/
theorem nodup (there : parent.index < d.size) : (xs.flatMap e.subtree).Nodup := by
  have whole := below.sound.nodup_descendants parent
  rw [below.sound.descendants_eq, below.gains.children_self there, List.flatMap_append] at whole
  exact whole.of_append_right

end PlantsBelow

/-- A new node can be put below any that was there. -/
theorem Plants.allows (plants : Plants m x d e) (here : parent.index < d.size) : e.Allows parent x := by
  have new := plants.new
  have early := (plants.keeps.gains x).size
  rintro (same | missing | missing | within)
  · exact Nat.not_lt_of_le new (same ▸ here)
  · rw [(e.contains_iff parent).mpr (here.trans_le early)] at missing
    cases missing
  · rw [(e.contains_iff x).mpr plants.bound] at missing
    cases missing
  · rw [plants.sound.isWithin_iff] at within
    exact Nat.not_lt_of_le (plants.stands.new plants.sound (by simpa using within)) here

/-- The new node is put below another, and the rest of the markup after it. -/
theorem Plants.below (plants : Plants m x d e) (here : parent.index < d.size)
    (other : PlantsBelow parent ms xs (e.appendChild parent x) k) :
    PlantsBelow parent (m :: ms) (x :: xs) d k := by
  have new := plants.new
  have allowed := plants.allows here
  have early := (plants.keeps.gains x).size
  have size := size_appendChild e parent x
  have hung : d.Gains parent [x] (e.appendChild parent x) := by
    intro y old
    have apart : y ≠ x := by
      rintro rfl
      exact Nat.not_lt_of_le new old
    rw [bare?, node?_appendChild_top allowed plants.top, ← plants.keeps y old, bare?]
    cases e.node? y with
    | none => rfl
    | some n => by_cases same : y = parent <;> simp [same, apart]
  have face (y : NodeId) (later : d.size ≤ y.index) : (e.appendChild parent x).face? y = e.face? y := by
    have apart : y ≠ parent := by
      rintro rfl
      exact Nat.not_lt_of_le later here
    rw [face?, node?_appendChild_top allowed plants.top, face?]
    cases e.node? y with
    | none => rfl
    | some n =>
      simp only [Option.map_some, if_neg apart]
      split <;> rfl
  have first : Markup.Stands d.size k [m] [x] := by
    refine (plants.stands.congr fun y later _ => face y later).congr fun y later bound => ?_
    refine other.gains.face?_of_ne bound ?_
    rintro rfl
    exact Nat.not_lt_of_le later here
  exact ⟨other.sound, first.append (other.stands.mono (early.trans_eq size.symm)), hung.trans other.gains⟩

/-- An element with one text below it has that text. -/
theorem text_of_planted {tag text : String} {t : NodeId} (content : d.content? x = some (.element tag))
    (bare : d.children x = []) (planted : PlantsBelow x [.text text] [t] d e) : e.text x = text := by
  have here : x.index < d.size := by
    obtain ⟨n, found, -⟩ := Option.map_eq_some_iff.mp content
    exact (Array.getElem?_eq_some_iff.mp found).1
  have kids : e.children x = [t] := by rw [planted.gains.children_self here, bare, List.nil_append]
  have above : e.content? x = some (.element tag) := (planted.gains.content? here).trans content
  have below : e.content? t = some (.text text) := by
    cases planted.stands with
    | cons new face _ _ => exact content?_of_face face
  obtain ⟨n, size⟩ : ∃ n, e.size = n + 1 := Nat.exists_eq_add_one.mpr (Nat.zero_lt_of_lt (here.trans_le planted.gains.size))
  rw [Document.text, textUpTo, above, size]
  simp only [kids, List.map_cons, List.map_nil, textUpTo, below]
  exact String.empty_append

theorem text_setText (sound : d.Sound) (element : d.isElement x = true) (text : String) :
    (d.setText x text).text x = text := by
  obtain ⟨tag, content⟩ : ∃ tag, d.content? x = some (.element tag) := by
    unfold isElement at element
    split at element
    · next tag here => exact ⟨tag, here⟩
    · cases element
  have here : x.index < d.size := (d.contains_iff x).mp (contains_of_isElement element)
  have changed : d.setText x text = (((d.children x).foldl detach d).createText text).2.appendChild x
      ⟨((d.children x).foldl detach d).size⟩ := by
    rw [setText, content]
    rfl
  rw [changed]
  have emptied := (Prunes.foldl prunes_detach (d.children x) d).sound sound
  have plants : Plants (.text text) _ _ _ := plants_add (m := .text text) emptied (reworks_createText _ _).toFollows rfl rfl
  have kept : ((d.children x).foldl detach d).content? x = some (.element tag) :=
    (look_foldl_detach Node.content (fun _ _ _ => rfl) _ d x).trans content
  refine text_of_planted kept (sound.children_emptied x) (plants.below ?_ (plantsBelow_nil ?_ x))
  · exact here.trans_eq (size_foldl_detach _ d).symm
  · exact (reworks_appendChild _ _ _).toFollows.sound plants.sound
end Document
end LiveTree
