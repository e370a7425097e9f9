import LiveTree.Document

/-! Three partial views of a document: how its nodes hang together, what texts they hold, and what
listeners they have. Most operations leave them alone. -/
namespace LiveTree

def Node.tag? (n : Node) : Option String :=
  match n.content with
  | .element tag => some tag
  | .text _ => none

def Node.text? (n : Node) : Option String :=
  match n.content with
  | .element _ => none
  | .text text => some text

structure Frame where
  tag : Option String
  parent : Option NodeId
  children : List NodeId

def Node.frame (n : Node) : Frame := ⟨n.tag?, n.parent, n.children⟩

namespace Document
variable {β : Type}

def tree (d : Document) : Array Frame := d.nodes.cells.map Node.frame

def texts (d : Document) : Array (Option String) := d.nodes.cells.map Node.text?

def listed (d : Document) (x : NodeId) : List (String × ListenerId) :=
  ((d.node? x).map Node.listeners).getD []

theorem listeners_eq (d : Document) (x : NodeId) (event : String) :
    d.listeners x event = ((d.listed x).filter fun l => l.1 == event).map (·.2) := by
  unfold listeners listed
  cases d.node? x <;> rfl

theorem map_modify_at (d : Document) (x : NodeId) {f : Node → Node} (g : Node → β)
    (keeps : ∀ n, d.node? x = some n → g (f n) = g n) :
    (d.modify x f).nodes.cells.map g = d.nodes.cells.map g := by
  apply Array.ext
  · simp [modify, Arena.modify]
  · intro i left right
    simp only [modify, Arena.modify, Array.getElem_map, Array.getElem_modify]
    split
    · next here =>
      subst here
      exact keeps _ (Array.getElem?_eq_getElem _)
    · rfl

theorem map_modify (d : Document) (x : NodeId) {f : Node → Node} (g : Node → β)
    (keeps : ∀ n, g (f n) = g n) : (d.modify x f).nodes.cells.map g = d.nodes.cells.map g :=
  map_modify_at d x g fun n _ => keeps n

theorem tree_modify (d : Document) (x : NodeId) {f : Node → Node} (keeps : ∀ n, (f n).frame = n.frame) :
    (d.modify x f).tree = d.tree := map_modify d x _ keeps

theorem texts_modify (d : Document) (x : NodeId) {f : Node → Node}
    (keeps : ∀ n, (f n).content = n.content) : (d.modify x f).texts = d.texts :=
  map_modify d x _ fun n => by simp only [Node.text?, keeps]

theorem listed_modify (d : Document) (x : NodeId) {f : Node → Node}
    (keeps : ∀ n, (f n).listeners = n.listeners) : (d.modify x f).listed = d.listed := by
  funext y
  simp only [listed, node?, modify, Arena.get?_modify]
  split
  · rw [Option.map_map, show Node.listeners ∘ f = Node.listeners from funext keeps]
  · rfl

variable (d : Document) (x y : NodeId) (name text : String)

@[simp] theorem tree_setAttribute : (d.setAttribute x name text).tree = d.tree :=
  tree_modify d x fun _ => rfl

@[simp] theorem tree_removeAttribute : (d.removeAttribute x name).tree = d.tree :=
  tree_modify d x fun _ => rfl

@[simp] theorem tree_setProperty (v : Value) : (d.setProperty x name v).tree = d.tree :=
  tree_modify d x fun _ => rfl

@[simp] theorem tree_addListener (l : ListenerId) : (d.addListener x name l).tree = d.tree :=
  tree_modify d x fun _ => rfl

@[simp] theorem tree_removeListener (l : ListenerId) : (d.removeListener x name l).tree = d.tree :=
  tree_modify d x fun _ => rfl

@[simp] theorem texts_setAttribute : (d.setAttribute x name text).texts = d.texts :=
  texts_modify d x fun _ => rfl

@[simp] theorem texts_removeAttribute : (d.removeAttribute x name).texts = d.texts :=
  texts_modify d x fun _ => rfl

@[simp] theorem texts_setProperty (v : Value) : (d.setProperty x name v).texts = d.texts :=
  texts_modify d x fun _ => rfl

@[simp] theorem texts_addListener (l : ListenerId) : (d.addListener x name l).texts = d.texts :=
  texts_modify d x fun _ => rfl

@[simp] theorem texts_removeListener (l : ListenerId) :
    (d.removeListener x name l).texts = d.texts :=
  texts_modify d x fun _ => rfl

/-- A text node stays one. -/
theorem tree_setText {old : String} (here : d.content? x = some (.text old)) :
    (d.setText x text).tree = d.tree := by
  rw [setText, here]
  refine map_modify_at d x _ fun n found => ?_
  rw [content?, found, Option.map_some] at here
  simp only [Node.frame, Node.tag?, Option.some.inj here]

@[simp] theorem texts_detach : (d.detach x).texts = d.texts := by
  unfold detach
  split
  · rw [texts_modify, texts_modify] <;> exact fun _ => rfl
  · rfl

@[simp] theorem texts_appendChild : (d.appendChild x y).texts = d.texts := by
  unfold appendChild
  split
  · rfl
  · rw [texts_modify, texts_modify, texts_detach] <;> exact fun _ => rfl

@[simp] theorem listed_setAttribute : (d.setAttribute x name text).listed = d.listed :=
  listed_modify d x fun _ => rfl

@[simp] theorem listed_removeAttribute : (d.removeAttribute x name).listed = d.listed :=
  listed_modify d x fun _ => rfl

@[simp] theorem listed_setProperty (v : Value) : (d.setProperty x name v).listed = d.listed :=
  listed_modify d x fun _ => rfl

@[simp] theorem listed_detach : (d.detach x).listed = d.listed := by
  unfold detach
  split
  · rw [listed_modify, listed_modify] <;> exact fun _ => rfl
  · rfl

@[simp] theorem listed_appendChild : (d.appendChild x y).listed = d.listed := by
  unfold appendChild
  split
  · rfl
  · rw [listed_modify, listed_modify, listed_detach] <;> exact fun _ => rfl

/-- A new node has no listeners, as if it were not there. -/
@[simp] theorem listed_add (content : Content) : (d.add content).2.listed = d.listed := by
  funext z
  simp only [listed, node?, add, Arena.get?_push]
  split
  · next new =>
    have missing : d.nodes.get? z.index = none := Array.getElem?_eq_none (Nat.le_of_eq new.symm)
    rw [missing]
    rfl
  · rfl

theorem listed_addListener (l : ListenerId) : (d.addListener x name l).listed y = d.listed y ∨
    x = y ∧ (d.addListener x name l).listed y = d.listed y ++ [(name, l)] := by
  obtain ⟨i⟩ := x
  obtain ⟨j⟩ := y
  simp only [listed, node?, addListener, modify, Arena.get?_modify, NodeId.mk.injEq]
  split
  · next same =>
    cases d.nodes.get? j with
    | none => exact .inl rfl
    | some n => exact .inr ⟨same, rfl⟩
  · exact .inl rfl

theorem listed_removeListener (l : ListenerId) :
    ((d.removeListener x name l).listed y).Sublist (d.listed y) := by
  simp only [listed, node?, removeListener, modify, Arena.get?_modify]
  split
  · cases d.nodes.get? y.index with
    | none => exact .refl _
    | some n => exact List.filter_sublist
  · exact .refl _

theorem texts_of_removeChild? {d e : Document} (removed : d.removeChild? x y = some e) :
    e.texts = d.texts := by
  unfold removeChild? at removed
  split at removed
  · cases removed
    exact texts_detach d y
  · cases removed

end Document
end LiveTree
