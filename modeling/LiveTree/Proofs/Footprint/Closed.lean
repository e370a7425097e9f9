import LiveTree.Proofs.Footprint.Life

/-! Properties that most acts have by their footprints. Acts that grow nodes, expand, connect and
move have such a property if the acts do that make elements and that deal with data contexts. -/
namespace LiveTree
variable {κ α β : Type}

def Field.telling : List Field :=
  [.elements, .components, .definitions, .definition, .capabilities, .values, .names, .link,
    .contexts]

structure Act.Closed (P : ∀ {α : Type}, Act κ α → Prop) : Prop where
  of_touches : ∀ {α : Type} {m : Act κ α} {F : List Field} {C : List Call.Kind}, m.Touches F C →
    (∀ f ∈ Field.telling, f ∉ F) → P m
  bind : ∀ {α β : Type} {m : Act κ β} {f : β → Act κ α}, P m → (∀ b, P (f b)) → P (m >>= f)

namespace Act.Closed
variable {P : ∀ {α : Type}, Act κ α → Prop} (closed : Closed @P)
include closed

theorem composes : Composes @P where
  pure a := closed.of_touches (.pure (F := []) (C := []) a) (by simp)
  scene := closed.of_touches (.scene (F := []) (C := [])) (by simp)
  bind := closed.bind

theorem ask (c : Call κ) : P (Act.ask c) :=
  closed.of_touches (.ask (F := []) (C := [c.kind]) c (by simp)) (by simp)

theorem edit (f : Document → Document) (reworks : ∀ d : Document, d.Reworks (f d)) :
    P (Act.edit f : Act κ Unit) :=
  closed.of_touches (.edit (F := [.document, .tree, .texts]) (C := []) reworks (by simp)) (by decide)

theorem detach (id : ComponentId) : P (Act.detach id : Act κ _) :=
  closed.of_touches (.detach id) (by decide)

section Growing
variable (createElement : ∀ tag, P (Act.createElement tag : Act κ _))
include createElement

theorem expand (id : ComponentId) (c : Component κ) (light : List NodeId) :
    P (Act.expand id c light) := by
  have owned (owner : Option ComponentId) :
      P (Act.update fun s : Scene κ => { s with templateOwner := owner }) :=
    closed.of_touches (F := [.templateOwner]) (C := [])
      (.update fun s => .put s .templateOwner owner (by decide)) (by decide)
  have text (text : String) : P (Act.createText text : Act κ _) :=
    closed.of_touches (.createText text) (by decide)
  have noted (id : ComponentId) (fault : Fault) : P (Act.note (some id) fault : Act κ _) :=
    closed.of_touches (.note _ _) (by decide)
  have grown := closed.composes.growBelow closed.edit text createElement
  exact closed.composes.expand closed.edit noted (closed.composes.growTemplate owned grown) id c light

theorem applyTemplate (id : ComponentId) : P (Act.applyTemplate id : Act κ _) := by
  refine closed.composes.applyTemplate (closed.expand createElement) ?_ ?_ ?_ ?_
    (fun _ => closed.ask _) id
  · exact fun _ _ => closed.of_touches (.layOut _ _) (by decide)
  · exact fun _ _ _ => closed.of_touches (.placeLight _ _ _) (by decide)
  · exact fun _ _ _ _ _ =>
      closed.of_touches (C := []) (.modify fun c => .applied c _ _ _ _) (by decide)
  · exact fun _ _ => closed.of_touches (.awaitNested _ _) (by decide)

variable (configure : ∀ id, P (Act.configure id : Act κ _))
include configure

theorem connect (id : ComponentId) : P (Act.connect id : Act κ _) := by
  have queued (ids : Scene κ → List ComponentId) :
      P (Act.update fun s : Scene κ => { s with pending := ids s }) :=
    closed.of_touches (F := [.pending]) (C := [])
      (.update fun s => .put s .pending (ids s) (by decide)) (by decide)
  exact closed.composes.connect queued (configure id) (closed.applyTemplate createElement id)
    (closed.of_touches (.attach id) (by decide))

theorem appendChild (parent child : NodeId) : P (Act.appendChild parent child : Act κ _) :=
  closed.composes.appendChild closed.detach (closed.connect createElement configure) parent child
    (closed.edit _ fun d => d.reworks_appendChild parent child)

theorem finishLoading (resolve : P (Act.resolveWaiting : Act κ _)) :
    P (Act.finishLoading : Act κ _) := by
  have loaded : P (Act.update fun s : Scene κ => { s with loading := false, pending := [] }) :=
    closed.of_touches (F := [.loading, .pending]) (C := []) (.update fun s =>
      (Scene.Alike.put s .loading false (by decide)).trans (.put _ .pending [] (by decide))) (by decide)
  exact closed.composes.finishLoading (closed.connect createElement configure) loaded resolve

end Growing
end Act.Closed
end LiveTree
