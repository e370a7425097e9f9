import LiveTree.Proofs.Cascade.Tame
import LiveTree.Proofs.Display.Footing

/-! What a target shows at a node, and which changes of a document leave that alone. A text node shows its
text, an element a property and the attribute that goes with it. -/
namespace LiveTree
variable {κ : Type}

inductive Display
  | text (content : Content)
  | field (value : Option Value) (text : Option String)

def Node.display (n : Node) (target : String) : Display :=
  if target = textTarget then .text n.content
  else .field (n.properties.get? target) (n.attributes.get? (attributeOf target))

/-- What a binding shows of a value that has been rendered: a text, or the value as a property and, if the
binding reflects it and it has a text, as an attribute. -/
def Binding.display (b : Binding) (v : Value) : Display :=
  if b.target = textTarget then .text (.text v.display)
  else .field (some v) (if b.reflect then Codec.write (b.attributeKind v) b.nullable v else none)

theorem Binding.display_still {a b : Binding} (same : a.still = b.still) (v : Value) : a.display v = b.display v :=
  (congrArg (fun b : Binding => b.display v) same : a.still.display v = b.still.display v)

namespace Document
variable {d : Document} {x y : NodeId} {target : String}

def display? (d : Document) (x : NodeId) (target : String) : Option Display :=
  (d.node? x).map fun n => n.display target

theorem display?_modify {f : Node → Node} (keeps : y = x → ∀ n : Node, (f n).display target = n.display target) :
    (d.modify y f).display? x target = d.display? x target := by
  rw [display?, node?_modify]
  split
  · next same =>
    rw [Option.map_map]
    exact congrFun (congrArg Option.map (funext (keeps same))) _
  · rfl

theorem display?_modify_self (f : Node → Node) :
    (d.modify x f).display? x target = (d.node? x).map fun n => (f n).display target := by
  rw [display?, node?_modify, if_pos rfl, Option.map_map]
  rfl

theorem display?_detach (d : Document) (y : NodeId) : (d.detach y).display? x target = d.display? x target := by
  unfold detach
  split
  · refine (display?_modify fun _ n => ?_).trans (display?_modify fun _ n => ?_) <;> rfl
  · rfl

theorem display?_appendChild (d : Document) (parent child : NodeId) :
    (d.appendChild parent child).display? x target = d.display? x target := by
  unfold appendChild
  split
  · rfl
  · refine (display?_modify fun _ n => ?_).trans ((display?_modify fun _ n => ?_).trans (display?_detach _ _)) <;> rfl

theorem display?_createText (d : Document) (text : String) (there : x.index < d.size) :
    (d.createText text).2.display? x target = d.display? x target := by
  rw [display?, createText, node?_add, if_neg (Nat.ne_of_lt there), display?]

theorem display?_foldl_detach (xs : List NodeId) (d : Document) :
    (xs.foldl detach d).display? x target = d.display? x target := by
  induction xs generalizing d with
  | nil => rfl
  | cons y rest ih => rw [List.foldl_cons, ih, display?_detach]

/-- The text of a node shows at no other node and through no other target. -/
theorem display?_setText (text : String) (there : x.index < d.size) (other : y ≠ x ∨ target ≠ textTarget) :
    (d.setText y text).display? x target = d.display? x target := by
  unfold setText
  split
  · refine display?_modify fun same n => ?_
    rw [Node.display, Node.display, if_neg (other.resolve_left fun apart => apart same),
      if_neg (other.resolve_left fun apart => apart same)]
  · rw [display?_appendChild, display?_createText, display?_foldl_detach]
    rwa [size_foldl_detach]
  · rfl

theorem display?_setText_self (text : String) (plain : d.isText x = true) :
    (d.setText x text).display? x textTarget = some (.text (.text text)) := by
  unfold isText content? at plain
  cases found : d.node? x with
  | none => rw [found] at plain; cases plain
  | some n =>
    rw [found, Option.map_some] at plain
    unfold setText content?
    rw [found, Option.map_some]
    cases content : n.content with
    | element tag => rw [content] at plain; cases plain
    | text old =>
      dsimp only
      rw [display?_modify_self, found]
      rfl

/-- What a binding shows shows at no other node and through no target with another attribute. -/
theorem display?_show (b : Binding) (v : Value) (other : y ≠ x ∨ attributeOf b.target ≠ attributeOf target) :
    (b.show y v d).display? x target = d.display? x target := by
  have apart (same : y = x) : attributeOf b.target ≠ attributeOf target :=
    other.resolve_left fun apart => apart same
  have field (same : y = x) : target ≠ b.target := fun here => apart same (congrArg attributeOf here.symm)
  unfold Binding.show
  extract_lets attr e
  refine Eq.trans (display?_modify fun same n => ?_) ?_
  · rw [Node.display, Node.display, Keyed.get?_insert_of_ne _ _ (field same)]
  · unfold e
    split
    · refine display?_modify fun same n => ?_
      rw [Node.display, Node.display, Keyed.get?_insert_of_ne _ _ (apart same).symm]
    · refine display?_modify fun same n => ?_
      rw [Node.display, Node.display, Keyed.get?_erase, if_neg (apart same).symm]

theorem display?_show_self {b : Binding} (v : Value) (field : b.target ≠ textTarget) (there : d.contains x = true) :
    (b.show x v d).display? x b.target = some (b.display v) := by
  obtain ⟨n, found⟩ := Option.isSome_iff_exists.mp there
  unfold Binding.show Binding.display
  extract_lets attr e
  rw [if_neg field]
  refine (display?_modify_self _).trans ?_
  unfold e
  split
  · next text written =>
    rw [written, setAttribute, node?_modify, if_pos rfl, found]
    simp only [Option.map_some, Node.display, if_neg field, Keyed.get?_insert_self, attr]
  · next none =>
    rw [none, removeAttribute, node?_modify, if_pos rfl, found]
    simp only [Option.map_some, Node.display, if_neg field, Keyed.get?_insert_self, Keyed.get?_erase, if_pos, attr]

end Document
end LiveTree
