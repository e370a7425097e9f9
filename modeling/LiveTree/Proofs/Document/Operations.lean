import LiveTree.Proofs.Document.Forest
import LiveTree.Act.Expand
import LiveTree.Request

/-! The operations on documents keep them sound. -/
namespace LiveTree

theorem Char.toLower_toLower (c : Char) : c.toLower.toLower = c.toLower := by
  by_cases upper : c.val ≥ 'A'.val ∧ c.val ≤ 'Z'.val
  · have raised : c.toLower.val = c.val + ('a'.val - 'A'.val) := congrArg Char.val (dif_pos upper)
    have lower : ¬(c.toLower.val ≥ 'A'.val ∧ c.toLower.val ≤ 'Z'.val) := by
      rw [raised]
      simp only [ge_iff_le, UInt32.le_iff_toNat_le, UInt32.toNat_add] at upper ⊢
      have first : ('A'.val).toNat = 65 := rfl
      have last : ('Z'.val).toNat = 90 := rfl
      have offset : ('a'.val - 'A'.val).toNat = 32 := rfl
      omega
    exact dif_neg lower
  · have same : c.toLower = c := dif_neg upper
    rw [same, same]

theorem String.toLower_toLower (s : String) : s.toLower.toLower = s.toLower :=
  (String.map_map ..).trans <| congrArg (String.map · s) (funext Char.toLower_toLower)

namespace Document
variable (d : Document) (x y : NodeId) (name text : String)

theorem node?_modify (f : Node → Node) :
    (d.modify x f).node? y = if x = y then (d.node? y).map f else d.node? y := by
  obtain ⟨i⟩ := x
  obtain ⟨j⟩ := y
  simp only [node?, modify, Arena.get?_modify, NodeId.mk.injEq]

theorem size_modify (f : Node → Node) : (d.modify x f).size = d.size := Arena.size_modify _ _ _

theorem tag?_eq_bind : d.tag? x = (d.node? x).bind Node.tag? := by
  rw [tag?, content?]
  cases d.node? x with
  | none => rfl
  | some n => cases h : n.content <;> simp [Node.tag?, h]

theorem isElement_iff {d : Document} {x : NodeId} : d.isElement x = true ↔ (d.tag? x).isSome := by
  unfold isElement tag?
  split <;> simp_all

theorem contains_of_isElement {d : Document} {x : NodeId} (element : d.isElement x = true) :
    d.contains x = true := by
  rw [isElement_iff, tag?_eq_bind] at element
  rw [contains]
  cases found : d.node? x with
  | none => rw [found] at element; cases element
  | some n => rfl

theorem tag?_modify {f : Node → Node} (keeps : ∀ n, (f n).content = n.content) :
    (d.modify x f).tag? y = d.tag? y := by
  rw [tag?_eq_bind, node?_modify, tag?_eq_bind]
  split
  · rw [Option.bind_map]
    exact congrArg _ (funext fun n => by simp only [Function.comp, Node.tag?, keeps])
  · rfl

@[simp] theorem follows_setAttribute : d.Follows (d.setAttribute x name text) := .of_tree (by simp)

@[simp] theorem follows_removeAttribute : d.Follows (d.removeAttribute x name) := .of_tree (by simp)

@[simp] theorem follows_setProperty (v : Value) : d.Follows (d.setProperty x name v) :=
  .of_tree (by simp)

@[simp] theorem follows_addListener (l : ListenerId) : d.Follows (d.addListener x name l) :=
  .of_tree (by simp)

@[simp] theorem follows_removeListener (l : ListenerId) : d.Follows (d.removeListener x name l) :=
  .of_tree (by simp)

@[simp] theorem reworks_setAttribute : d.Reworks (d.setAttribute x name text) :=
  .of_tree (by simp) (by simp)

@[simp] theorem reworks_removeAttribute : d.Reworks (d.removeAttribute x name) :=
  .of_tree (by simp) (by simp)

@[simp] theorem reworks_setProperty (v : Value) : d.Reworks (d.setProperty x name v) :=
  .of_tree (by simp) (by simp)

theorem node?_add (content : Content) : (d.add content).2.node? x =
    if x.index = d.size then some { content := content } else d.node? x :=
  Arena.get?_push _ _ _

theorem size_add (content : Content) : (d.add content).2.size = d.size + 1 := Arena.size_push _ _

theorem follows_add (content : Content)
    (lower : ∀ tag, content = .element tag → tag.toLower = tag) : d.Follows (d.add content).2 := by
  have parent (x) : (d.add content).2.parent? x = d.parent? x := by
    rw [parent?, node?_add, parent?]
    split
    · next new =>
      rw [show d.node? x = none from Array.getElem?_eq_none (Nat.le_of_eq new.symm)]
      rfl
    · rfl
  have children (x) : (d.add content).2.children x = d.children x := by
    rw [children, node?_add, children]
    split
    · next new =>
      rw [show d.node? x = none from Array.getElem?_eq_none (Nat.le_of_eq new.symm)]
      rfl
    · rfl
  have tag (x : NodeId) (old : x.index ≠ d.size) : (d.add content).2.tag? x = d.tag? x := by
    rw [tag?_eq_bind, node?_add, if_neg old, tag?_eq_bind]
  refine ⟨fun sound => ⟨fun x p => ?_, fun x p => ?_, fun x => ?_, fun n x => ?_, fun x t here => ?_⟩,
    ?_, fun x bound => tag x (Nat.ne_of_lt bound)⟩
  · rw [parent, children]
    exact sound.listed x p
  · rw [parent, children]
    exact sound.parent x p
  · rw [children]
    exact sound.nodup x
  · rw [up_congr parent]
    exact sound.acyclic n x
  · by_cases new : x.index = d.size
    · rw [tag?_eq_bind, node?_add, if_pos new, Option.bind_some] at here
      cases content with
      | text text => cases here
      | element tag =>
        cases here
        exact lower _ rfl
    · exact sound.lower x t (by rwa [← tag x new])
  · rw [size_add]
    omega

@[simp] theorem follows_createElement (tag : String) : d.Follows (d.createElement tag).2 :=
  d.follows_add _ fun _ same => by cases same; exact String.toLower_toLower tag

@[simp] theorem reworks_createText : d.Reworks (d.createText text).2 := by
  refine ⟨d.follows_add _ nofun, funext fun x => ?_, d.listed_add _⟩
  rw [tag?_eq_bind, createText, node?_add]
  split
  · next new => rw [tag?_eq_bind, show d.node? x = none from Array.getElem?_eq_none new.ge]; rfl
  · rw [tag?_eq_bind]

theorem parent?_detach : (d.detach x).parent? y = if y = x then none else d.parent? y := by
  unfold detach
  split
  · simp only [parent?, node?_modify]
    by_cases same : x = y
    · rw [if_pos same, if_pos same.symm]
      cases d.node? y with
      | none => split <;> rfl
      | some n => split <;> rfl
    · rw [if_neg same, if_neg (Ne.symm same)]
      split
      · rw [Option.bind_map]
        rfl
      · rfl
  · next top =>
    split
    · next same => rw [same, top]
    · rfl

theorem children_detach : (d.detach x).children y =
    if d.parent? x = some y then (d.children y).filter (· ≠ x) else d.children y := by
  unfold detach
  split
  · next p here =>
    simp only [children, node?_modify, here, Option.some.injEq]
    by_cases above : p = y
    · simp only [above, ↓reduceIte]
      split <;> cases d.node? y <;> rfl
    · simp only [above, ↓reduceIte]
      split
      · cases d.node? y <;> rfl
      · rfl
  · next top => rw [top, if_neg (Option.some_ne_none y).symm]

theorem size_detach : (d.detach x).size = d.size := by
  unfold detach
  split
  · rw [size_modify, size_modify]
  · rfl

theorem size_foldl_detach (xs : List NodeId) (d : Document) : (xs.foldl detach d).size = d.size := by
  induction xs generalizing d with
  | nil => rfl
  | cons y rest ih => rw [List.foldl_cons, ih, size_detach]

theorem tag?_detach : (d.detach x).tag? y = d.tag? y := by
  unfold detach
  split
  · rw [tag?_modify, tag?_modify] <;> exact fun _ => rfl
  · rfl

/-- With fewer parents there are fewer ways up. -/
theorem up_of_fewer {d e : Document} (fewer : ∀ x p, e.parent? x = some p → d.parent? x = some p)
    {n : Nat} {x y : NodeId} (there : e.up n x = some y) : d.up n x = some y := by
  induction n generalizing x with
  | zero => exact there
  | succ n ih =>
    obtain ⟨p, parent, rest⟩ := Option.bind_eq_some_iff.mp there
    rw [up, fewer x p parent, Option.bind_some]
    exact ih rest

theorem parent?_of_detach {d : Document} {x y p : NodeId} (here : (d.detach x).parent? y = some p) :
    y ≠ x ∧ d.parent? y = some p := by
  rw [parent?_detach] at here
  split at here
  · cases here
  · next apart => exact ⟨apart, here⟩

@[simp] theorem follows_detach : d.Follows (d.detach x) := by
  refine ⟨fun sound => ⟨fun y p here => ?_, fun y p inside => ?_, fun y => ?_, fun n y => ?_,
    fun y t here => ?_⟩, by rw [size_detach], fun y _ => d.tag?_detach x y⟩
  · obtain ⟨apart, parent⟩ := parent?_of_detach here
    have inside := sound.listed y p parent
    rw [children_detach]
    split
    · exact List.mem_filter.mpr ⟨inside, decide_eq_true apart⟩
    · exact inside
  · rw [children_detach] at inside
    rw [parent?_detach]
    by_cases above : d.parent? x = some p
    · rw [if_pos above] at inside
      obtain ⟨member, apart⟩ := List.mem_filter.mp inside
      rw [if_neg (of_decide_eq_true apart)]
      exact sound.parent y p member
    · rw [if_neg above] at inside
      have parent := sound.parent y p inside
      rw [if_neg fun same : y = x => above (same ▸ parent)]
      exact parent
  · rw [children_detach]
    split
    · exact (sound.nodup y).filter _
    · exact sound.nodup y
  · intro round
    exact sound.acyclic n y (up_of_fewer (fun _ _ here => (parent?_of_detach here).2) round)
  · exact sound.lower y t (by rwa [← d.tag?_detach x y])

@[simp] theorem reworks_detach : d.Reworks (d.detach x) :=
  ⟨d.follows_detach x, funext (d.tag?_detach x), d.listed_detach x⟩

def Allows (d : Document) (parent child : NodeId) : Prop :=
  ¬(parent = child ∨ !d.contains parent ∨ !d.contains child ∨ d.isWithin parent child)

section Append
variable {d : Document} {parent child : NodeId}

theorem contains_iff (d : Document) (x : NodeId) : d.contains x = true ↔ x.index < d.size := by
  rw [contains, node?, Arena.get?, Option.isSome_iff_exists, size, Arena.size]
  constructor
  · rintro ⟨n, found⟩
    exact (Array.getElem?_eq_some_iff.mp found).1
  · intro bound
    exact ⟨_, Array.getElem?_eq_getElem bound⟩

theorem Allows.there (allowed : d.Allows parent child) :
    parent ≠ child ∧ d.contains parent = true ∧ d.contains child = true ∧
      d.isWithin parent child = false := by
  simpa [Allows] using allowed

theorem parent?_appendChild (allowed : d.Allows parent child) (x : NodeId) :
    (d.appendChild parent child).parent? x = if x = child then some parent else d.parent? x := by
  obtain ⟨apart, -, there, -⟩ := allowed.there
  rw [appendChild, if_neg allowed]
  by_cases same : x = child
  · subst same
    rw [contains_iff, ← size_detach d x, ← contains_iff, contains, Option.isSome_iff_exists] at there
    obtain ⟨n, found⟩ := there
    simp [parent?, node?_modify, apart, found]
  · rw [if_neg same]
    have still := parent?_detach d child x
    rw [if_neg same] at still
    rw [← still]
    simp only [parent?, node?_modify, Ne.symm same, ↓reduceIte]
    split
    · rw [Option.bind_map]
      rfl
    · rfl

theorem children_appendChild (allowed : d.Allows parent child) (x : NodeId) :
    (d.appendChild parent child).children x =
      if x = parent then (d.detach child).children x ++ [child]
      else (d.detach child).children x := by
  obtain ⟨apart, there, -, -⟩ := allowed.there
  rw [appendChild, if_neg allowed]
  by_cases same : x = parent
  · subst same
    rw [contains_iff, ← size_detach d child, ← contains_iff, contains,
      Option.isSome_iff_exists] at there
    obtain ⟨n, found⟩ := there
    simp [children, node?_modify, apart.symm, found]
  · rw [if_neg same]
    simp only [children, node?_modify, Ne.symm same, ↓reduceIte]
    split
    · rw [Option.map_map]
      rfl
    · rfl

/-- A way up that does not come to the child is the old one. -/
theorem up_appendChild (allowed : d.Allows parent child) (n : Nat) (x : NodeId)
    (away : ∀ m, d.up m x ≠ some child) : (d.appendChild parent child).up n x = d.up n x := by
  induction n generalizing x with
  | zero => rfl
  | succ n ih =>
    have apart : x ≠ child := fun same => away 0 (congrArg some same)
    rw [up, up, parent?_appendChild allowed, if_neg apart]
    cases above : d.parent? x with
    | none => rfl
    | some p =>
      refine ih p fun m there => away (m + 1) ?_
      rw [up, above, Option.bind_some, there]

/-- A way up is the old one, or comes to the child and goes on from its new parent. -/
theorem up_appendChild_cases (allowed : d.Allows parent child) {n : Nat} {x y : NodeId}
    (there : (d.appendChild parent child).up n x = some y) : d.up n x = some y ∨
      ∃ k m, d.up k x = some child ∧ (d.appendChild parent child).up m parent = some y := by
  induction n generalizing x with
  | zero => exact .inl there
  | succ n ih =>
    rw [up, parent?_appendChild allowed] at there
    by_cases same : x = child
    · rw [if_pos same] at there
      exact .inr ⟨0, n, congrArg some same, there⟩
    · rw [if_neg same] at there
      obtain ⟨p, above, rest⟩ := Option.bind_eq_some_iff.mp there
      rcases ih rest with old | ⟨k, m, first, second⟩
      · exact .inl (by rw [up, above, Option.bind_some, old])
      · exact .inr ⟨k + 1, m, by rw [up, above, Option.bind_some, first], second⟩

theorem Allows.away (allowed : d.Allows parent child) (sound : d.Sound) (m : Nat) :
    d.up m parent ≠ some child := by
  obtain ⟨apart, -, -, outside⟩ := allowed.there
  intro there
  cases m with
  | zero => exact apart (Option.some.inj there)
  | succ m =>
    have above : child ∈ d.ancestors parent := sound.mem_ancestors.mpr ⟨m, there⟩
    simp [isWithin, above] at outside

theorem tag?_appendChild (d : Document) (parent child x : NodeId) :
    (d.appendChild parent child).tag? x = d.tag? x := by
  unfold appendChild
  split
  · rfl
  · rw [tag?_modify, tag?_modify, tag?_detach] <;> exact fun _ => rfl

theorem size_appendChild (d : Document) (parent child : NodeId) :
    (d.appendChild parent child).size = d.size := by
  unfold appendChild
  split
  · rfl
  · rw [size_modify, size_modify, size_detach]

theorem Sound.appendChild (sound : d.Sound) (allowed : d.Allows parent child) :
    (d.appendChild parent child).Sound := by
  have detached := (d.follows_detach child).sound sound
  have gone : (d.detach child).parent? child = none := by rw [parent?_detach, if_pos rfl]
  refine ⟨fun x p here => ?_, fun x p inside => ?_, fun x => ?_, fun n x there => ?_, fun x t here => ?_⟩
  · rw [parent?_appendChild allowed] at here
    rw [children_appendChild allowed]
    by_cases same : x = child
    · rw [if_pos same] at here
      rw [if_pos (Option.some.inj here).symm, same]
      exact List.mem_append_right _ (List.mem_singleton.mpr rfl)
    · rw [if_neg same] at here
      have inside := detached.listed x p (by rw [parent?_detach, if_neg same, here])
      split
      · exact List.mem_append_left _ inside
      · exact inside
  · rw [children_appendChild allowed] at inside
    rw [parent?_appendChild allowed]
    have old (inside : x ∈ (d.detach child).children p) :
        (if x = child then some parent else d.parent? x) = some p := by
      obtain ⟨apart, above⟩ := parent?_of_detach (detached.parent x p inside)
      rw [if_neg apart, above]
    split at inside
    · next same =>
      rcases List.mem_append.mp inside with there | last
      · exact old there
      · rw [if_pos (List.mem_singleton.mp last), same]
    · exact old inside
  · rw [children_appendChild allowed]
    split
    · refine List.nodup_append.mpr ⟨detached.nodup x, List.nodup_singleton _, ?_⟩
      intro y member z last same
      rw [List.mem_singleton.mp last] at same
      rw [same] at member
      cases gone.symm.trans (detached.parent child x member)
    · exact detached.nodup x
  · rcases up_appendChild_cases allowed there with old | ⟨k, m, first, second⟩
    · exact sound.acyclic n x old
    · rw [up_appendChild allowed m parent (allowed.away sound)] at second
      exact allowed.away sound (m + k) (by rw [up_add, second, Option.bind_some, first])
  · rw [tag?_appendChild] at here
    exact sound.lower x t here

end Append

@[simp] theorem reworks_appendChild : d.Reworks (d.appendChild x y) := by
  by_cases allowed : d.Allows x y
  · exact ⟨⟨fun sound => sound.appendChild allowed, by rw [size_appendChild],
      fun z _ => tag?_appendChild d x y z⟩, funext (tag?_appendChild d x y),
      d.listed_appendChild x y⟩
  · rw [appendChild, if_pos (Classical.not_not.mp allowed)]
    exact .refl d

theorem reworks_of_removeChild? {d e : Document} {x y : NodeId}
    (removed : d.removeChild? x y = some e) : d.Reworks e := by
  unfold removeChild? at removed
  split at removed
  · cases removed
    exact reworks_detach d y
  · cases removed

@[simp] theorem reworks_removeChild : d.Reworks ((d.removeChild? x y).getD d) := by
  cases removed : d.removeChild? x y with
  | none => exact .refl d
  | some e => exact reworks_of_removeChild? removed

@[simp] theorem reworks_setText : d.Reworks (d.setText x text) := by
  cases here : d.content? x with
  | none =>
    rw [setText, here]
    exact .refl d
  | some content =>
    cases content with
    | text old =>
      refine .of_tree (d.tree_setText x text here) ?_
      rw [setText, here]
      exact listed_modify d x fun _ => rfl
    | element tag =>
      rw [setText, here]
      have emptied := Reworks.foldl (fun d x => reworks_detach d x) (d.children x) d
      exact emptied.trans ((reworks_createText _ text).trans (reworks_appendChild _ _ _))

theorem look_modify {β : Type} (look : Node → β) {f : Node → Node} (keeps : ∀ n, look (f n) = look n) :
    ((d.modify x f).node? y).map look = (d.node? y).map look := by
  rw [node?_modify]
  split
  · rw [Option.map_map]
    exact congrArg (fun g => (d.node? y).map g) (funext keeps)
  · rfl

section Look
variable {β : Type} (look : Node → β)
  (links : ∀ (n : Node) p ys, look { n with parent := p, children := ys } = look n)
include links

theorem look_detach (d : Document) (x y : NodeId) : ((d.detach x).node? y).map look = (d.node? y).map look := by
  unfold detach
  split
  · exact (look_modify _ _ _ look fun n => links n _ _).trans (look_modify _ _ _ look fun n => links n _ _)
  · rfl

theorem look_foldl_detach (xs : List NodeId) (d : Document) (y : NodeId) :
    ((xs.foldl detach d).node? y).map look = (d.node? y).map look := by
  induction xs generalizing d with
  | nil => rfl
  | cons x rest ih => exact (ih _).trans (look_detach look links d x y)

theorem look_appendChild (d : Document) (parent child y : NodeId) :
    ((d.appendChild parent child).node? y).map look = (d.node? y).map look := by
  unfold appendChild
  split
  · rfl
  · exact (look_modify _ _ _ look fun n => links n _ _).trans
      ((look_modify _ _ _ look fun n => links n _ _).trans (look_detach look links d child y))

end Look

@[simp] theorem reworks_show (b : Binding) (v : Value) : d.Reworks (b.show x v d) := by
  unfold Binding.show
  refine Reworks.trans ?_ (reworks_setProperty _ _ _ _)
  split
  · exact reworks_setAttribute _ _ _ _
  · exact reworks_removeAttribute _ _ _

@[simp] theorem reworks_apply (e : Edit) : d.Reworks (e.apply d) := by
  cases e with
  | setAttribute x name text => exact reworks_setAttribute d x name text
  | removeAttribute x name => exact reworks_removeAttribute d x name
  | setText x text => exact reworks_setText d x text
  | setProperty x name v => exact reworks_setProperty d x name v
  | appendChild parent child => exact reworks_appendChild d parent child
  | removeChild parent child => exact reworks_removeChild d parent child

@[simp] theorem reworks_ofTemplate (attr : String) (template : List NodeId) :
    d.Reworks (Layout.ofTemplate d attr x template).2 := by
  unfold Layout.ofTemplate
  extract_lets elements root slot rest content laid stable refs
  have taken : d.Reworks laid := by
    unfold laid
    cases slot with
    | none => exact .refl d
    | some y => exact reworks_detach d y
  exact taken.trans (.foldl (fun d r => reworks_setAttribute d _ _ _) stable laid)

end Document
end LiveTree
