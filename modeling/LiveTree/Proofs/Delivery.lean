import LiveTree.Proofs.Subscription

/-! What is delivered. A change of a context goes to those that were its subscribers when it was
made, also if consumer code ties one of them to another context before its turn comes. To bind a
component delivers what the attributes of its host node ask for at that time: what was reflected
into them since asks for nothing. In both cases each value is that of the field when it is taken
over. -/
namespace LiveTree
variable {κ σ : Type}

def Contract.delivering (σ : Type) (context : ContextId) (due : ComponentId → Feed → Prop) :
    Contract κ σ where
  given _ _ := True
  safe _ _ := True
  before call p := ∃ id f, due id f ∧
    call = .write id f.property (f.apply (p.scene.contextField context f.path)) .context
  after _ _ _ _ := True

namespace Act
variable {α β : Type} {context : ContextId} {due : ComponentId → Feed → Prop} {id : ComponentId}
  {p : Point κ σ}

def Delivers (context : ContextId) (due : ComponentId → Feed → Prop) (m : Act κ α)
    (p : Point κ σ) : Prop := m.wp (.delivering σ context due) (fun _ _ => True) p

namespace Delivers

theorem bind {m : Act κ β} {f : β → Act κ α} (first : Delivers context due m p)
    (next : ∀ b q, Delivers context due (f b) (q : Point κ σ)) : Delivers context due (m >>= f) p :=
  (wp_bind _ _).mpr (wp_mono _ (fun b q _ => next b q) first)

theorem each {f : β → Act κ Unit} {items : List β}
    (all : ∀ b ∈ items, ∀ q : Point κ σ, Delivers context due (f b) q) :
    Delivers context due (Act.each items f) p := by
  refine wp_each (fun rest _ => ∀ b ∈ rest, b ∈ items) ?_ (fun _ _ => trivial) items fun _ => id
  intro b rest q left
  exact wp_mono _ (fun _ _ _ other member => left other (List.mem_cons_of_mem _ member))
    (all b (left b List.mem_cons_self) q)

theorem pushFeed {f : Feed} (asked : due id f) :
    Delivers context due (Act.pushFeed id context f) p := by
  unfold Delivers Act.pushFeed
  rw [wp_bind, wp_scene, wp_ite]
  split
  · refine (wp_bind _ _).mpr ((wp_ask _).mpr ⟨⟨id, f, asked, rfl⟩, ?_⟩)
    intro a q _
    exact ⟨trivial, fun _ => trivial⟩
  · trivial

theorem routeChange {root : String} (asked : ∀ f : Feed, f.root = root → due id f) :
    Delivers context due (Act.routeChange id context root) p := by
  refine wp_withComponent (fun c _ => ?_) fun _ => trivial
  split
  · rw [wp_ite]
    split
    · refine each fun f member q => pushFeed (asked f ?_)
      exact beq_iff_eq.mp (List.mem_filter.mp member).2
    · trivial
  · trivial

end Delivers

/-- A change goes to the subscribers there were, and to the properties that fields with that root
feed. -/
theorem delivers_setContextField {c : Context} (there : p.scene.contextAt? context = some c)
    (path : String) (v : Value) :
    Delivers context (fun id f => id ∈ c.subscribers ∧ f.root = (headAndRest path).1)
      (setContextField context path v) p := by
  unfold Delivers setContextField
  rw [wp_bind, wp_scene, there]
  split
  · trivial
  · next d written =>
    have same : d.subscribers = c.subscribers := Context.subscribers_set? written
    refine (wp_bind _ _).mpr ((wp_update _).mpr ⟨trivial, fun _ => ?_⟩)
    refine Delivers.bind (Delivers.each fun id member q => ?_) fun _ _ => trivial
    exact Delivers.routeChange fun f root => ⟨same ▸ member, root⟩

theorem delivers_setContextField_reading : ∃ w c,
    silent.play 20 reading ⟨.ofConfig {} none, ()⟩ = some (true, w) ∧
      w.scene.contextAt? ⟨0⟩ = some c ∧ c.subscribers = [⟨0⟩] ∧
      Delivers ⟨0⟩ (fun id f => id ∈ c.subscribers ∧ f.root = (headAndRest "name").1)
        (setContextField ⟨0⟩ "name" (.string "Bob")) ⟨[], w⟩ := by
  have answered : (silent.play 20 reading ⟨.ofConfig {} none, ()⟩).bind (fun r =>
      (r.2.scene.contextAt? ⟨0⟩).map fun c => (r.1, c.subscribers)) = some (true, [⟨0⟩]) := by
    decide +kernel
  obtain ⟨⟨_, w⟩, played, answered⟩ := Option.bind_eq_some_iff.mp answered
  obtain ⟨c, there, same⟩ := Option.map_eq_some_iff.mp answered
  obtain ⟨rfl, subscribers⟩ := Prod.mk.inj same
  have delivers := delivers_setContextField (p := ⟨[], w⟩) there "name" (.string "Bob")
  exact ⟨w, c, played, there, subscribers, delivers⟩

/-- What a host node asks for is in its attributes, so that listeners make no difference. -/
theorem feedsOf_removeListener (d : Document) (y x : NodeId) (event : String) (l : ListenerId)
    (schema : Schema) : feedsOf (d.removeListener y event l) x schema = feedsOf d x schema := by
  have attributes : ((d.removeListener y event l).node? x).map (·.attributes) =
      (d.node? x).map (·.attributes) := by
    rw [Document.removeListener, Document.node?_modify]
    split
    · cases d.node? x <;> rfl
    · rfl
  have names : (d.removeListener y event l).attributeNames x = d.attributeNames x := by
    have named (o : Option Node) : (o.map (·.attributes.names)).getD [] =
        ((o.map (·.attributes)).map Keyed.names).getD [] := by cases o <;> rfl
    rw [Document.attributeNames, named, attributes, ← named, Document.attributeNames]
  have texts (name : String) :
      (d.removeListener y event l).attribute? x name = d.attribute? x name := by
    have read (o : Option Node) : o.bind (·.attributes.get? name) =
        (o.map (·.attributes)).bind (·.get? name) := by cases o <;> rfl
    rw [Document.attribute?, read, attributes, ← read, Document.attribute?]
  simp only [feedsOf, names, texts]

theorem wp_unbound (c : Component κ) (p : Point κ σ) :
    (unbindContext id).wp (.delivering σ context due) (fun _ q =>
      feedsOf q.scene.document c.node c.schema = feedsOf p.scene.document c.node c.schema) p := by
  refine wp_withComponent (fun e _ => ?_) fun _ => rfl
  refine (wp_modify_bind _ _ _).mpr ⟨trivial, fun _ => ?_⟩
  split
  · next listeners _ =>
    refine (wp_bind _ _).mpr (wp_mono _ (fun _ _ same => ⟨trivial, fun _ => same⟩) ?_)
    refine wp_each (fun _ q => feedsOf q.scene.document c.node c.schema =
      feedsOf p.scene.document c.node c.schema) ?_ (fun _ same => same) listeners rfl
    intro l rest q same
    refine (wp_bind _ _).mpr ((wp_bind _ _).mpr (wp_scene.mpr ((wp_bind _ _).mpr
      ((wp_update _).mpr ⟨trivial, fun _ => ?_⟩))))
    exact (feedsOf_removeListener _ _ _ _ _ _).trans same
  · rfl

/-- To bind a component delivers what the attributes of its host node ask for. -/
theorem delivers_bindContext {c : Component κ} (there : p.scene.component? id = some c) :
    Delivers context (fun x f => x = id ∧ f ∈ feedsOf p.scene.document c.node c.schema)
      (bindContext id context) p := by
  unfold Delivers bindContext
  rw [wp_bind, wp_scene, wp_ite]
  split
  · trivial
  refine wp_withComponent (fun e found => ?_) fun _ => trivial
  cases there.symm.trans found
  refine (wp_bind _ _).mpr (wp_mono _ ?_ (wp_unbound c p))
  intro _ q asked
  refine (wp_bind _ _).mpr (wp_scene.mpr ((wp_bind _ _).mpr (wp_mono _ (fun listeners r _ => ?_)
    (Touches.wp_alone (.listenForContext _ _ _) fun _ _ _ _ _ => trivial))))
  extract_lets feeds
  refine (wp_modify_bind _ _ _).mpr ⟨trivial, fun _ => (wp_bind _ _).mpr ⟨trivial, fun _ => ?_⟩⟩
  refine Delivers.bind (wp_withComponent (fun g here => ?_) fun _ => trivial) fun _ _ => trivial
  have tied : g.link = some (.bound context feeds listeners) := by
    change (r.scene.modify id _).component? id = some g at here
    rw [Scene.component?_modify, if_pos rfl] at here
    obtain ⟨h, -, rfl⟩ := Option.map_eq_some_iff.mp here
    rfl
  rw [tied]
  exact Delivers.each fun f member _ => Delivers.pushFeed ⟨rfl, asked ▸ member⟩

theorem delivers_bindContext_readable : ∃ w c,
    silent.play 20 readable ⟨.ofConfig {} none, ()⟩ = some (⟨0⟩, w) ∧ w.scene.component? ⟨0⟩ = some c ∧
      (feedsOf w.scene.document c.node c.schema).map Feed.property = ["name"] ∧
      Delivers ⟨0⟩ (fun x f => x = ⟨0⟩ ∧ f ∈ feedsOf w.scene.document c.node c.schema) (bindContext ⟨0⟩ ⟨0⟩)
        ⟨[], w⟩ := by
  have answered : (silent.play 20 readable ⟨.ofConfig {} none, ()⟩).bind (fun r =>
      (r.2.scene.component? ⟨0⟩).map fun c =>
        (r.1, (feedsOf r.2.scene.document c.node c.schema).map Feed.property)) = some (⟨0⟩, ["name"]) := by
    decide +kernel
  obtain ⟨⟨_, w⟩, played, answered⟩ := Option.bind_eq_some_iff.mp answered
  obtain ⟨c, there, same⟩ := Option.map_eq_some_iff.mp answered
  obtain ⟨rfl, feeds⟩ := Prod.mk.inj same
  exact ⟨w, c, played, there, feeds, delivers_bindContext (p := ⟨[], w⟩) there⟩

end Act
end LiveTree
