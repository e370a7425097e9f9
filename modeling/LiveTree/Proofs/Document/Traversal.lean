import Mathlib.Logic.Function.Iterate
import LiveTree.Proofs.Document.Operations

/-! Documents made by operations are forests, told without a bound on any walk. Both encodings of
the tree agree, every walk up comes to an end, and the list of descendants, which the definition
gathers by recursion, is what a loop with a stack of its own comes to. -/
namespace LiveTree.Document

inductive Operation
  | createElement (tag : String)
  | createText (text : String)
  | edit (e : Edit)
  | addListener (x : NodeId) (event : String) (l : ListenerId)
  | removeListener (x : NodeId) (event : String) (l : ListenerId)

def Operation.apply : Operation → Document → Document
  | createElement tag, d => (d.createElement tag).2
  | createText text, d => (d.createText text).2
  | edit e, d => e.apply d
  | addListener x event l, d => d.addListener x event l
  | removeListener x event l, d => d.removeListener x event l

theorem follows_operation (d : Document) (o : Operation) : d.Follows (o.apply d) := by
  cases o with
  | createElement tag => exact follows_createElement d tag
  | createText text => exact (reworks_createText d text).toFollows
  | edit e => exact (reworks_apply d e).toFollows
  | addListener x event l => exact follows_addListener d x event l
  | removeListener x event l => exact follows_removeListener d x event l

def round (d : Document) : List NodeId × List NodeId → List NodeId × List NodeId
  | (out, []) => (out, [])
  | (out, x :: stack) => (out ++ [x], d.children x ++ stack)

section Walks
variable {d : Document} {x y : NodeId}

theorem isSome_up_ancestorsUpTo (d : Document) (most : Nat) (x : NodeId) :
    (d.up (d.ancestorsUpTo most x).length x).isSome = true := by
  induction most generalizing x with
  | zero => rfl
  | succ most ih =>
    cases above : d.parent? x with
    | none => simp [ancestorsUpTo, above, up]
    | some p => simpa [ancestorsUpTo, above, up] using ih p

/-- A walk of bounded length stops at its bound or at the top. -/
theorem top_of_ancestorsUpTo (d : Document) {most : Nat} {x : NodeId}
    (short : (d.ancestorsUpTo most x).length < most) :
    d.up ((d.ancestorsUpTo most x).length + 1) x = none := by
  induction most generalizing x with
  | zero => exact absurd short (Nat.not_lt_zero _)
  | succ most ih =>
    cases above : d.parent? x with
    | none => simp [ancestorsUpTo, above, up]
    | some p =>
      simp only [ancestorsUpTo, above, List.length_cons, Nat.succ_lt_succ_iff] at short
      simpa [ancestorsUpTo, above, up] using ih short

theorem ancestors_of_top (top : d.parent? x = none) : d.ancestors x = [] := by
  unfold ancestors
  cases d.size <;> simp [ancestorsUpTo, top]

/-- Where no way up is longer, a longer walk finds no more. -/
theorem ancestorsUpTo_succ (d : Document) {most : Nat} {x : NodeId}
    (short : d.up (most + 1) x = none) : d.ancestorsUpTo (most + 1) x = d.ancestorsUpTo most x := by
  induction most generalizing x with
  | zero =>
    cases above : d.parent? x with
    | none => simp [ancestorsUpTo, above]
    | some p => simp [up, above] at short
  | succ most ih =>
    rw [ancestorsUpTo, ancestorsUpTo]
    cases above : d.parent? x with
    | none => rfl
    | some p =>
      rw [up, above, Option.bind_some] at short
      exact congrArg (p :: ·) (ih short)

theorem Sound.ancestors_of_parent? (sound : d.Sound) {p : NodeId} (above : d.parent? x = some p) :
    d.ancestors x = p :: d.ancestors p := by
  have bound := bound_of_parent? above
  obtain ⟨most, size⟩ : ∃ most, d.size = most + 1 := ⟨d.size - 1, by omega⟩
  have short : d.up (most + 1) p = none := by
    by_contra far
    obtain ⟨y, there⟩ := Option.ne_none_iff_exists'.mp far
    have := sound.up_lt (x := x) (n := most + 2) (by rw [up, above, Option.bind_some, there]) bound
    omega
  rw [ancestors, ancestors, size, d.ancestorsUpTo_succ short, ancestorsUpTo, above]

theorem Sound.nodup_path (sound : d.Sound) (most : Nat) (x : NodeId) :
    (x :: d.ancestorsUpTo most x).Nodup := by
  induction most generalizing x with
  | zero => exact List.nodup_singleton x
  | succ most ih =>
    refine List.nodup_cons.mpr ⟨fun round => ?_, ?_⟩
    · obtain ⟨n, -, there⟩ := (mem_ancestorsUpTo _).mp round
      exact sound.acyclic n x there
    · rw [ancestorsUpTo]
      cases d.parent? x with
      | none => exact List.nodup_nil
      | some p => exact ih p

theorem Sound.top_of_depth (sound : d.Sound) (x : NodeId) : d.up (d.depth x + 1) x = none := by
  cases above : d.parent? x with
  | none =>
    rw [depth, ancestors_of_top above, List.length_nil, up, above]
    rfl
  | some p =>
    obtain ⟨y, there⟩ := Option.isSome_iff_exists.mp (isSome_up_ancestorsUpTo d d.size x)
    exact d.top_of_ancestorsUpTo (sound.up_lt there (bound_of_parent? above))

theorem Sound.isWithin_iff_up (sound : d.Sound) :
    d.isWithin x y = true ↔ ∃ n, d.up n x = some y := by
  rw [isWithin, Bool.or_eq_true, beq_iff_eq, List.contains_iff_mem, sound.mem_ancestors]
  constructor
  · rintro (rfl | ⟨n, there⟩)
    · exact ⟨0, rfl⟩
    · exact ⟨n + 1, there⟩
  · rintro ⟨n, there⟩
    cases n with
    | zero => exact .inl (Option.some.inj there)
    | succ n => exact .inr ⟨n, there⟩

/-- Where nothing lies deeper, a deeper search finds no more. -/
theorem Sound.descendantsUpTo_succ (sound : d.Sound) {most : Nat} {x : NodeId}
    (shallow : ∀ y, d.up (most + 1) y ≠ some x) :
    d.descendantsUpTo (most + 1) x = d.descendantsUpTo most x := by
  induction most generalizing x with
  | zero =>
    have bare : d.children x = [] := List.eq_nil_iff_forall_not_mem.mpr fun c inside =>
      shallow c (by rw [up, sound.parent c x inside]; rfl)
    simp [descendantsUpTo, bare]
  | succ most ih =>
    rw [descendantsUpTo, descendantsUpTo]
    refine List.flatMap_congr fun c inside => ?_
    rw [ih fun y there => shallow y ?_]
    rw [up_add d (most + 1) 1, there, Option.bind_some, up, sound.parent c x inside]
    rfl

/-- Each node comes before its children, and these come one after the other, each with all that is
below it. -/
theorem Sound.descendants_eq (sound : d.Sound) (x : NodeId) :
    d.descendants x = (d.children x).flatMap d.subtree := by
  have shallow (y : NodeId) : d.up (d.size + 1) y ≠ some x := by
    intro there
    obtain ⟨p, above, -⟩ := Option.bind_eq_some_iff.mp there
    have := sound.up_lt there (bound_of_parent? above)
    omega
  exact (sound.descendantsUpTo_succ shallow).symm

/-- A traversal takes one round for each node it lists: the stack holds what is still to come, and
a round moves the first of it. -/
theorem Sound.iterate_round (sound : d.Sound) (out stack : List NodeId) :
    d.round^[(stack.flatMap d.subtree).length] (out, stack) =
      (out ++ stack.flatMap d.subtree, []) := by
  -- The induction is on what is still to be listed, not on the depth: a round that puts children on
  -- the stack leaves one node less.
  generalize rounds : (stack.flatMap d.subtree).length = n
  induction n generalizing out stack with
  | zero =>
    cases stack with
    | nil => simp
    | cons x rest => simp [subtree] at rounds
  | succ n ih =>
    cases stack with
    | nil => simp at rounds
    | cons x rest =>
      have next : (d.children x ++ rest).flatMap d.subtree =
          d.descendants x ++ rest.flatMap d.subtree := by
        rw [List.flatMap_append, ← sound.descendants_eq]
      have fewer : ((d.children x ++ rest).flatMap d.subtree).length = n := by
        rw [next]
        simpa [subtree] using rounds
      rw [Function.iterate_succ_apply, round, ih _ _ fewer, next]
      simp [subtree]

theorem Sound.mem_descendants_iff (sound : d.Sound) :
    y ∈ d.descendants x ↔ y ≠ x ∧ d.isWithin y x = true := by
  rw [sound.isWithin_iff, subtree, List.mem_cons]
  refine ⟨fun below => ⟨?_, .inr below⟩, fun both => both.2.resolve_left both.1⟩
  rintro rfl
  obtain ⟨n, round⟩ := sound.mem_descendants.mp below
  exact sound.acyclic n y round

end Walks

structure Forest (d : Document) : Prop where
  parent_iff : ∀ c p, d.parent? c = some p ↔ c ∈ d.children p
  once : ∀ c p, c ∈ d.children p → (d.children p).count c = 1
  acyclic : ∀ n x, d.up (n + 1) x ≠ some x
  within : ∀ x y, d.isWithin x y = true ↔ ∃ n, d.up n x = some y
  deep : ∀ x, (d.up (d.depth x) x).isSome = true
  top : ∀ x, d.up (d.depth x + 1) x = none
  traversal : ∀ x, d.round^[(d.descendants x).length] ([], d.children x) = (d.descendants x, [])
  preorder : ∀ x, d.descendants x = (d.children x).flatMap fun c => c :: d.descendants c
  nodup : ∀ x, (d.descendants x).Nodup
  below : ∀ x y, y ∈ d.descendants x ↔ y ≠ x ∧ d.isWithin y x = true

theorem Sound.forest {d : Document} (sound : d.Sound) : d.Forest where
  parent_iff _ _ := sound.mem_children.symm
  once _ p inside := List.count_eq_one_of_mem (sound.nodup p) inside
  acyclic := sound.acyclic
  within _ _ := sound.isWithin_iff_up
  deep x := isSome_up_ancestorsUpTo d d.size x
  top := sound.top_of_depth
  traversal x := by
    have ends := sound.iterate_round [] (d.children x)
    rwa [← sound.descendants_eq, List.nil_append] at ends
  preorder := sound.descendants_eq
  nodup := sound.nodup_descendants
  below _ _ := sound.mem_descendants_iff

/-- Whatever is done to a document, it is a forest. -/
theorem forest_of_operations (operations : List Operation) :
    (operations.foldl (fun d o => o.apply d) empty).Forest :=
  ((Follows.foldl follows_operation operations empty).sound sound_empty).forest

end LiveTree.Document
