import LiveTree.Proofs.Guards.Raised
import LiveTree.Proofs.Mirror.Growth
import LiveTree.Proofs.Mirror.Naming
import LiveTree.Proofs.Readiness
import LiveTree.Act.Push

/-! The names of properties and those of attributes. They go over into each other without loss unless one of
the spellings is in the way: a capital in front or a dash before a small letter in the name of a property, a
capital or such a dash in front in that of an attribute. So what a template binds through an attribute of a
plain node comes back to this attribute. -/
namespace LiveTree

theorem camel_dash {c : Char} (lower : isLower c = true) (cs : List Char) :
    camel ('-' :: c :: cs) = c.toUpper :: camel cs := by rw [camel, if_pos lower]

/-- All that does not stand for a capital stays. -/
theorem camel_cons {c : Char} {cs : List Char} (plain : ∀ d, isLower d = true → ¬['-', d] <+: c :: cs) :
    camel (c :: cs) = c :: camel cs := by
  by_cases dash : c = '-'
  · subst dash
    cases cs with
    | nil => rfl
    | cons d ds =>
      have other : ¬isLower d = true := fun lower => plain d lower ⟨ds, rfl⟩
      rw [camel, if_neg other]
  · exact camel.eq_2 c cs fun _ _ same => absurd same dash

/-- Dashes are put before capitals, which are small afterwards, so that no other small letter comes to
stand first. -/
theorem prefix_dashedTail {d : Char} (lower : isLower d = true) {cs : List Char} :
    [d] <+: dashedTail cs ↔ [d] <+: cs := by
  cases cs with
  | nil => rfl
  | cons c cs =>
    rw [dashedTail]
    split
    · next upper =>
      have dash : d ≠ '-' := fun same => absurd lower (by rw [same]; decide)
      have capital : d ≠ c := fun same => by
        rw [same] at lower
        rw [not_isUpper_of_isLower lower] at upper
        cases upper
      simp [List.cons_prefix_cons, dash, capital]
    · simp [List.cons_prefix_cons]

theorem camel_dashedTail {cs : List Char} :
    camel (dashedTail cs) = cs ↔ ∀ d, isLower d = true → ¬['-', d] <:+: cs := by
  induction cs with
  | nil => simp [dashedTail, camel]
  | cons c cs ih =>
    by_cases joined : ∃ d, isLower d = true ∧ ['-', d] <+: c :: cs
    · -- The dash and the letter come back as a capital.
      obtain ⟨d, lower, rest, same⟩ := joined
      obtain ⟨rfl, rfl⟩ : c = '-' ∧ cs = d :: rest := List.cons.inj same.symm
      refine iff_of_false (fun back => ?_) fun free => free d lower ⟨[], rest, rfl⟩
      rw [dashedTail, if_neg (by decide), dashedTail,
        if_neg (Bool.eq_false_iff.mp (not_isUpper_of_isLower lower)), camel_dash lower] at back
      have upper := (toUpper_of_isLower lower).1
      rw [(List.cons.inj back).1] at upper
      exact absurd upper (by decide)
    · push Not at joined
      have spread : (∀ d, isLower d = true → ¬['-', d] <:+: c :: cs) ↔ ∀ d, isLower d = true → ¬['-', d] <:+: cs := by
        refine forall₂_congr fun d lower => not_congr ?_
        rw [List.infix_cons_iff, or_iff_right (joined d lower)]
      rw [spread, ← ih, dashedTail]
      split
      · next upper =>
        obtain ⟨lower, back⟩ := toLower_of_isUpper upper
        rw [camel_dash lower, back, List.cons_inj_right]
      · rw [camel_cons, List.cons_inj_right]
        intro d lower here
        obtain ⟨dash, first⟩ := List.cons_prefix_cons.mp here
        exact joined d lower (List.cons_prefix_cons.mpr ⟨dash, (prefix_dashedTail lower).mp first⟩)

theorem camel_dashed {cs : List Char} : camel (dashed cs) = cs ↔
    (∀ c ∈ cs.head?, isUpper c = false) ∧ ∀ d, isLower d = true → ¬['-', d] <:+: cs := by
  cases cs with
  | nil => simp [dashed, camel]
  | cons c cs =>
    by_cases upper : isUpper c = true
    · obtain ⟨lower, -⟩ := toLower_of_isUpper upper
      have free (d : Char) (_ : isLower d = true) : ¬['-', d] <+: c.toLower :: dashedTail cs := fun here => by
        rw [← (List.cons_prefix_cons.mp here).1] at lower
        exact absurd lower (by decide)
      refine iff_of_false (fun back => ?_) fun ⟨first, _⟩ => ?_
      · rw [dashed, camel_cons free] at back
        rw [(List.cons.inj back).1] at lower
        rw [not_isUpper_of_isLower lower] at upper
        cases upper
      · rw [first c rfl] at upper
        cases upper
    · have small := Bool.eq_false_iff.mpr upper
      have same : dashed (c :: cs) = dashedTail (c :: cs) := by
        rw [dashed, dashedTail, toLower_of_not_isUpper small, if_neg upper]
      rw [same, camel_dashedTail, and_iff_right]
      rintro _ ⟨⟩
      exact small

theorem dashedTail_camel {cs : List Char} (small : ∀ c ∈ cs, isUpper c = false) : dashedTail (camel cs) = cs := by
  induction cs using camel.induct with
  | case1 c cs lower ih =>
    obtain ⟨upper, back⟩ := toUpper_of_isLower lower
    rw [camel_dash lower, dashedTail, if_pos upper, back, ih fun d inside => small d (by simp [inside])]
  | case2 c cs other ih =>
    rw [camel, if_neg other, dashedTail, if_neg (by decide), ih fun d inside => small d (List.mem_cons_of_mem _ inside)]
  | case3 c cs plain ih =>
    rw [camel.eq_2 c cs plain, dashedTail, if_neg (Bool.eq_false_iff.mp (small c List.mem_cons_self)),
      ih fun d inside => small d (List.mem_cons_of_mem _ inside)]
  | case4 => rfl

theorem small_toLower (c : Char) : isUpper c.toLower = false := by
  cases upper : isUpper c with
  | true => exact not_isUpper_of_isLower (toLower_of_isUpper upper).1
  | false => rwa [toLower_of_not_isUpper upper]

theorem small_dashedTail {cs : List Char} : ∀ c ∈ dashedTail cs, isUpper c = false := by
  induction cs with
  | nil => simp [dashedTail]
  | cons c cs ih =>
    rw [dashedTail]
    split
    · exact List.forall_mem_cons.mpr ⟨by decide, List.forall_mem_cons.mpr ⟨small_toLower c, ih⟩⟩
    · next other => exact List.forall_mem_cons.mpr ⟨Bool.eq_false_iff.mpr other, ih⟩

theorem small_dashed {cs : List Char} : ∀ c ∈ dashed cs, isUpper c = false := by
  cases cs with
  | nil => simp [dashed]
  | cons c cs => exact List.forall_mem_cons.mpr ⟨small_toLower c, small_dashedTail⟩

theorem dashed_camel {cs : List Char} : dashed (camel cs) = cs ↔
    (∀ c ∈ cs, isUpper c = false) ∧ ∀ d, isLower d = true → ¬['-', d] <+: cs := by
  refine ⟨fun back => ⟨fun c inside => small_dashed c (back.symm ▸ inside), fun d lower joined => ?_⟩,
    fun ⟨small, first⟩ => ?_⟩
  · obtain ⟨rest, rfl⟩ := joined
    have here : dashed (camel ('-' :: d :: rest)) = '-' :: d :: rest := back
    rw [camel_dash lower, dashed, (toUpper_of_isLower lower).2] at here
    rw [(List.cons.inj here).1] at lower
    exact absurd lower (by decide)
  · cases cs with
    | nil => rfl
    | cons c cs =>
      rw [camel_cons first, dashed, toLower_of_not_isUpper (small c List.mem_cons_self),
        dashedTail_camel fun d inside => small d (List.mem_cons_of_mem _ inside)]

variable {κ σ α : Type}

structure CamelName (name : String) : Prop where
  first : ∀ c ∈ name.toList.head?, isUpper c = false
  joined : ∀ d, isLower d = true → ¬['-', d] <:+: name.toList

structure DashedName (attr : String) : Prop where
  small : ∀ c ∈ attr.toList, isUpper c = false
  first : ∀ d, isLower d = true → ¬['-', d] <+: attr.toList

theorem propertyOf_attributeOf {name : String} : propertyOf (attributeOf name) = name ↔ CamelName name := by
  have lists : propertyOf (attributeOf name) = name ↔ camel (dashed name.toList) = name.toList := by
    rw [← String.toList_inj, propertyOf, attributeOf, String.toList_ofList, String.toList_ofList]
  rw [lists, camel_dashed]
  exact ⟨fun ⟨first, joined⟩ => ⟨first, joined⟩, fun ⟨first, joined⟩ => ⟨first, joined⟩⟩

theorem attributeOf_propertyOf {attr : String} : attributeOf (propertyOf attr) = attr ↔ DashedName attr := by
  have lists : attributeOf (propertyOf attr) = attr ↔ LiveTree.dashed (camel attr.toList) = attr.toList := by
    rw [← String.toList_inj, attributeOf, propertyOf, String.toList_ofList, String.toList_ofList]
  rw [lists, dashed_camel]
  exact ⟨fun ⟨small, first⟩ => ⟨small, first⟩, fun ⟨small, first⟩ => ⟨small, first⟩⟩

instance (name : String) : Decidable (CamelName name) := decidable_of_iff _ propertyOf_attributeOf

instance (attr : String) : Decidable (DashedName attr) := decidable_of_iff _ attributeOf_propertyOf

namespace Document

/-- A new node has no attributes. -/
theorem attribute?_add (d : Document) (content : Content) (y : NodeId) (key : String) :
    (d.add content).2.attribute? y key = d.attribute? y key := by
  rw [attribute?, node?_add, attribute?]
  split
  · next new =>
    have none : d.node? y = none := by
      exact Array.getElem?_eq_none (Nat.le_of_eq new.symm)
    rw [none]
    rfl
  · rfl

theorem attribute?_setText (d : Document) (x y : NodeId) (text key : String) :
    (d.setText x text).attribute? y key = d.attribute? y key := by
  unfold setText
  split
  · refine attribute?_of_look (look_modify _ _ _ Node.attributes ?_) key
    exact fun _ => rfl
  · refine (attribute?_of_look (look_appendChild Node.attributes (fun _ _ _ => rfl) _ _ _ y) key).trans ?_
    refine (attribute?_add _ _ y key).trans ?_
    exact attribute?_of_look (look_foldl_detach Node.attributes (fun _ _ _ => rfl) _ d y) key
  · rfl

theorem attribute?_setProperty (d : Document) (x y : NodeId) (name : String) (v : Value) (key : String) :
    (d.setProperty x name v).attribute? y key = d.attribute? y key := by
  rw [attribute?, setProperty, node?_modify, attribute?]
  split
  · rw [Option.bind_map]
    rfl
  · rfl

theorem attribute?_removeAttribute (d : Document) (x y : NodeId) (name key : String) :
    (d.removeAttribute x name).attribute? y key =
      if x = y ∧ name = key then none else d.attribute? y key := by
  rw [attribute?, removeAttribute, node?_modify, attribute?]
  by_cases same : x = y
  · rw [if_pos same]
    cases d.node? y with
    | none => simp
    | some n => simp [same, Keyed.get?_erase, eq_comm]
  · rw [if_neg same, if_neg fun both => same both.1]

end Document

def Binding.written (b : Binding) (v : Value) : Option String :=
  if b.reflect then Codec.write (b.attributeKind v) b.nullable v else none

theorem Binding.attribute?_show (b : Binding) {x : NodeId} (v : Value) {d : Document}
    (there : d.contains x = true) (y : NodeId) (key : String) : (b.show x v d).attribute? y key =
      if y = x ∧ key = attributeOf b.target then b.written v else d.attribute? y key := by
  unfold «show»
  extract_lets attr e
  rw [Document.attribute?_setProperty]
  unfold e
  split
  · next text same =>
    have written : b.written v = some text := same
    rw [Document.attribute?_setAttribute, written]
    by_cases here : y = x ∧ key = attr
    · rw [if_pos here, if_pos ⟨here.1.symm, here.1 ▸ there, here.2.symm⟩]
    · rw [if_neg here, if_neg fun both => here ⟨both.1.symm, both.2.2.symm⟩]
  · next same =>
    have written : b.written v = none := same
    rw [Document.attribute?_removeAttribute, written]
    by_cases here : y = x ∧ key = attr
    · rw [if_pos here, if_pos ⟨here.1.symm, here.2.symm⟩]
    · rw [if_neg here, if_neg fun both => here ⟨both.1.symm, both.2.symm⟩]

def Scene.Ordinary (s : Scene κ) (x : NodeId) : Prop := s.document.isElement x = true ∧ s.componentAt? x = none

/-- Whatever value a binding takes to a plain node, it is the given attribute of the node that gets its text,
or goes if the value has none, and no other. -/
def Environment.WritesAt (env : Environment κ σ) (b : Binding) (x : NodeId) (attr : String) : Prop :=
  ∀ fuel (w : World κ σ) v, w.scene.Ordinary x → ∃ w', (Act.assign x b v).run (env.answer fuel) w = some ((), w') ∧
    ∀ y key, w'.scene.document.attribute? y key =
      if y = x ∧ key = attr then b.written v else w.scene.document.attribute? y key

theorem Environment.writesAt (env : Environment κ σ) {b : Binding} {x : NodeId} (field : b.target ≠ textTarget) :
    env.WritesAt b x (attributeOf b.target) := by
  intro fuel w v plain
  have free : w.scene.declaring? x b.target = none := by
    rw [Scene.declaring?, plain.2]
    rfl
  refine ⟨{ w with scene := w.scene.edit (b.show x v) }, ?_, fun y key => ?_⟩
  · simp only [Act.assign, Act.edit, Act.update, Act.scene, bind, Act.bind, Act.run, if_neg field, free,
      if_pos plain.1]
  · exact b.attribute?_show v (Document.contains_of_isElement plain.1) y key

/-- Whatever value a binding takes to a plain node, it becomes the text of the node, and no attribute changes. -/
def Environment.FillsText (env : Environment κ σ) (b : Binding) (x : NodeId) : Prop :=
  ∀ fuel (w : World κ σ) v, w.scene.document.Sound → w.scene.Ordinary x →
    ∃ w', (Act.assign x b v).run (env.answer fuel) w = some ((), w') ∧
      w'.scene.document.text x = v.display ∧
      ∀ y key, w'.scene.document.attribute? y key = w.scene.document.attribute? y key

theorem Environment.fillsText (env : Environment κ σ) {b : Binding} {x : NodeId} (field : b.target = textTarget) :
    env.FillsText b x := by
  intro fuel w v sound plain
  refine ⟨{ w with scene := w.scene.edit (·.setText x v.display) }, ?_, ?_, fun y key => ?_⟩
  · simp only [Act.assign, Act.edit, Act.update, Act.scene, bind, Act.bind, Act.run, if_pos field]
  · exact Document.text_setText sound plain.1 v.display
  · exact Document.attribute?_setText _ x y _ key

def Document.Spells (d : Document) (x : NodeId) (attr : String) (b : Binding) : Prop :=
  attr ∈ d.attributeNames x ∧ Token.event? attr = none ∧ ∃ text token property,
    d.attribute? x attr = some text ∧ Token.read? text = some token ∧ b = .ofToken (propertyOf attr) token property

namespace BindingTree
variable (s : Surroundings)

namespace Surroundings

theorem attribute?_of_mem {d : Document} {x : NodeId} {attr : String} (there : attr ∈ d.attributeNames x) :
    ∃ text, d.attribute? x attr = some text := by
  unfold Document.attributeNames at there
  cases found : d.node? x with
  | none =>
    rw [found] at there
    cases there
  | some n =>
    rw [found] at there
    obtain ⟨text, held⟩ := Option.isSome_iff_exists.mp ((Keyed.isSome_get? n.attributes attr).mpr there)
    exact ⟨text, by rw [Document.attribute?, found, Option.bind_some, held]⟩

/-- What an attribute adds to the bindings of a plain node is the binding that it stands for. -/
theorem spells_addAttribute {site : Site} {attr : String} (plain : s.schemaAt site.node = none)
    (there : attr ∈ s.document.attributeNames site.node) {target : String} {b : Binding}
    (held : (s.addAttribute site attr).bindings.get? target = some b) :
    site.bindings.get? target = some b ∨ target = propertyOf attr ∧ s.document.Spells site.node attr b := by
  unfold addAttribute at held
  split at held
  · exact .inl held
  dsimp only at held
  split at held
  · exact .inl held
  next free =>
  split at held
  · next token read =>
    have own : s.target site.node attr = propertyOf attr := by
      rw [Surroundings.target, plain]
      rfl
    rw [own] at held
    by_cases same : target = propertyOf attr
    · subst same
      rw [Keyed.get?_insert_self] at held
      cases held
      obtain ⟨words, here⟩ := attribute?_of_mem there
      have read : Token.read? words = some token := by rw [← read, here, Option.getD_some]
      exact .inr ⟨rfl, there, free, words, token, _, here, read, rfl⟩
    · rw [Keyed.get?_insert_of_ne _ _ same] at held
      exact .inl held
  · exact .inl held

/-- The bindings at a plain element are those that its attributes stand for. -/
theorem spells_site? {x : NodeId} {site : Site} (made : s.site? x = some site)
    (element : s.document.isElement x = true) (plain : s.schemaAt x = none) {target : String} {b : Binding}
    (held : site.bindings.get? target = some b) :
    ∃ attr, target = propertyOf attr ∧ s.document.Spells x attr b := by
  unfold Document.isElement at element
  unfold site? at made
  cases content : s.document.content? x with
  | none =>
    rw [content] at element
    cases element
  | some kind =>
    cases kind with
    | text words =>
      rw [content] at element
      cases element
    | element tag =>
      rw [content] at made
      cases made
      refine (List.foldlRecOn (s.document.attributeNames x) s.addAttribute (motive := fun site => site.node = x ∧
        ∀ target b, site.bindings.get? target = some b → ∃ attr, target = propertyOf attr ∧
          s.document.Spells x attr b) ⟨rfl, ?_⟩ ?_).2 target b held
      · rintro _ _ ⟨⟩
      rintro site ⟨rfl, spelled⟩ attr there
      refine ⟨(s.addAttribute_place site attr).1, fun target b held => ?_⟩
      rcases s.spells_addAttribute plain there held with old | new
      · exact spelled target b old
      · exact ⟨attr, new⟩

end Surroundings

/-- The bindings of a template at plain elements are those that attributes stand for. -/
theorem spells_ofTemplate {host : NodeId} {template : List NodeId} {i : Nat} {site : Site}
    (here : (ofTemplate s host template).site? i = some site) (element : s.document.isElement site.node = true)
    (plain : s.schemaAt site.node = none) {target : String} {b : Binding}
    (held : site.bindings.get? target = some b) :
    ∃ attr, target = propertyOf attr ∧ s.document.Spells site.node attr b := by
  refine sites_ofTemplate s (P := fun site => s.document.isElement site.node = true → s.schemaAt site.node = none →
    ∀ target b, site.bindings.get? target = some b → ∃ attr, target = propertyOf attr ∧
      s.document.Spells site.node attr b) ?_ ?_ template i site here element plain target b held
  · intro x site made parent element plain target b held
    obtain ⟨rfl, -⟩ := Surroundings.place_of_site? made
    exact s.spells_site? made element plain held
  · rintro - - _ _ ⟨⟩

end BindingTree

/-- The attribute whose property is the text of the node. -/
theorem propertyOf_eq_textTarget {attr : String} (dashed : DashedName attr) :
    propertyOf attr = textTarget ↔ attr = "text-content" := by
  refine ⟨fun same => ?_, fun same => ?_⟩
  · rw [← attributeOf_propertyOf.mpr dashed, same]
    decide
  · rw [same]
    decide

/-- After a template has been laid out, the bindings at its plain elements are those that attributes stand for. -/
theorem Act.spells_layOut {env : Environment κ σ} {fuel : Nat} {w w' : World κ σ} {host : NodeId}
    {template : List NodeId} {layout : Layout} {tree : BindingTree}
    (laid : (Act.layOut host template).run (env.answer fuel) w = some ((layout, tree), w')) {i : Nat} {site : Site}
    (here : tree.site? i = some site) (plain : w'.scene.Ordinary site.node) {target : String} {b : Binding}
    (held : site.bindings.get? target = some b) :
    ∃ attr, target = propertyOf attr ∧ w'.scene.document.Spells site.node attr b := by
  have laid : some ((_, BindingTree.ofTemplate _ host template), _) = some ((layout, tree), w') := laid
  cases laid
  have none : w.scene.schemaAt site.node = none := by
    have free : w.scene.componentAt? site.node = none := plain.2
    rw [Scene.schemaAt, free]
    rfl
  exact BindingTree.spells_ofTemplate _ here plain.1 none held

/-- The names of properties and of attributes invert each other, exactly where they can be told from each
other, so that properties with such names have attributes of their own. And when a template has been laid
out, each binding at a plain element of it was read from an attribute of the element. It is there that the
binding writes, unless the attribute stands for the text of the element: then the binding writes this, and
no attribute. -/
theorem names_invert (env : Environment κ σ) :
    (∀ name, propertyOf (attributeOf name) = name ↔ CamelName name) ∧
    (∀ attr, attributeOf (propertyOf attr) = attr ↔ DashedName attr) ∧
    (∀ name other, CamelName name → CamelName other → attributeOf name = attributeOf other → name = other) ∧
    ∀ fuel (w w' : World κ σ) host template layout tree,
      (Act.layOut host template).run (env.answer fuel) w = some ((layout, tree), w') →
      ∀ i site target b, tree.site? i = some site → w'.scene.Ordinary site.node →
        site.bindings.get? target = some b → ∃ attr, target = propertyOf attr ∧ w'.scene.document.Spells site.node attr b ∧
          (DashedName attr → attr ≠ "text-content" → env.WritesAt b site.node attr) ∧
          (attr = "text-content" → env.FillsText b site.node) := by
  refine ⟨fun _ => propertyOf_attributeOf, fun _ => attributeOf_propertyOf, ?_, ?_⟩
  · intro name other camel camel' same
    rw [← propertyOf_attributeOf.mpr camel, same, propertyOf_attributeOf.mpr camel']
  · intro fuel w w' host template layout tree laid i site target b here plain held
    obtain ⟨attr, rfl, spells⟩ := Act.spells_layOut laid here plain held
    have own : b.target = propertyOf attr := by
      obtain ⟨-, -, _, _, _, -, -, rfl⟩ := spells
      rfl
    refine ⟨attr, rfl, spells, fun dashed other => ?_, ?_⟩
    · have field : b.target ≠ textTarget := by
        rw [own]
        exact fun same => other ((propertyOf_eq_textTarget dashed).mp same)
      have writes := env.writesAt (x := site.node) field
      rwa [own, attributeOf_propertyOf.mpr dashed] at writes
    · rintro rfl
      exact env.fillsText (own.trans ((propertyOf_eq_textTarget (by decide)).mpr rfl))

def captioned : Document :=
  ([.createElement "x-a", .createElement "p", .edit (.setAttribute ⟨2⟩ "aria-label" "[[label]]"),
    .edit (.setAttribute ⟨2⟩ "text-content" "[[words]]"), .edit (.appendChild ⟨1⟩ ⟨2⟩)] :
      List Document.Operation).foldl (fun d o => o.apply d) .empty

def captioning : Option ((Layout × BindingTree) × World Empty Unit) :=
  (Act.layOut ⟨1⟩ [⟨2⟩]).run (silent.answer 1) ⟨{ document := captioned }, ()⟩

theorem names_invert_label : propertyOf (attributeOf "innerHTML") = "innerHTML" ∧
    attributeOf (propertyOf "aria-label") = "aria-label" ∧
    ∃ layout tree w' site b c, captioning = some ((layout, tree), w') ∧ tree.site? 1 = some site ∧
      w'.scene.Ordinary site.node ∧ site.bindings.get? "ariaLabel" = some b ∧
      site.bindings.get? "textContent" = some c ∧ silent.WritesAt b site.node "aria-label" ∧
      silent.FillsText c site.node := by
  obtain ⟨properties, attributes, -, written⟩ := names_invert silent
  refine ⟨(properties _).mpr (by decide), (attributes _).mpr (by decide), ?_⟩
  have laid : (captioning.bind fun r => (r.1.2.site? 1).map fun site => ((site.bindings.get? "ariaLabel").isSome,
      (site.bindings.get? "textContent").isSome, r.2.scene.document.attributeNames site.node,
      r.2.scene.document.isElement site.node, r.2.scene.componentAt? site.node)) =
        some (true, true, ["aria-label", "text-content", "tessel-id"], true, none) := by
    decide +kernel
  obtain ⟨⟨⟨layout, tree⟩, w'⟩, ran, laid⟩ := Option.bind_eq_some_iff.mp laid
  obtain ⟨site, here, same⟩ := Option.map_eq_some_iff.mp laid
  simp only [Prod.mk.injEq] at same
  obtain ⟨labelled, worded, names, element, free⟩ := same
  have plain : w'.scene.Ordinary site.node := ⟨element, free⟩
  have only : ∀ a ∈ ["aria-label", "text-content", "tessel-id"],
      ("ariaLabel" = propertyOf a → a = "aria-label") ∧ ("textContent" = propertyOf a → a = "text-content") := by
    decide
  obtain ⟨b, label⟩ := Option.isSome_iff_exists.mp labelled
  obtain ⟨attr, own, spells, writes, -⟩ := written 1 _ _ _ _ _ _ ran 1 site _ b here plain label
  obtain rfl := (only attr (names ▸ spells.1)).1 own
  obtain ⟨c, words⟩ := Option.isSome_iff_exists.mp worded
  obtain ⟨attr, own, spells, -, fills⟩ := written 1 _ _ _ _ _ _ ran 1 site _ c here plain words
  obtain rfl := (only attr (names ▸ spells.1)).2 own
  exact ⟨layout, tree, w', site, b, c, ran, here, plain, label, words, writes (by decide) (by decide), fills rfl⟩

/-- A binding that is read from the attribute `text-content` goes to the text of the element, and the attribute
stays as it was. -/
theorem unwritten_text_content : DashedName "text-content" ∧
    ∃ layout tree w' site b, captioning = some ((layout, tree), w') ∧ tree.site? 1 = some site ∧
      w'.scene.Ordinary site.node ∧ site.bindings.get? "textContent" = some b ∧
      w'.scene.document.Spells site.node "text-content" b ∧ ¬silent.WritesAt b site.node "text-content" := by
  have laid : (captioning.bind fun r => (r.1.2.site? 1).bind fun site =>
      (site.bindings.get? "textContent").map fun b => (r.2.scene.document.attributeNames site.node,
        r.2.scene.document.isElement site.node, r.2.scene.componentAt? site.node, b.written (.string "so"),
        ((Act.assign site.node b (.string "so")).run (silent.answer 1) r.2).bind fun u =>
          u.2.scene.document.attribute? site.node "text-content")) =
        some (["aria-label", "text-content", "tessel-id"], true, none, some "so", some "[[words]]") := by
    decide +kernel
  obtain ⟨⟨⟨layout, tree⟩, w'⟩, ran, laid⟩ := Option.bind_eq_some_iff.mp laid
  obtain ⟨site, here, laid⟩ := Option.bind_eq_some_iff.mp laid
  obtain ⟨b, held, same⟩ := Option.map_eq_some_iff.mp laid
  simp only [Prod.mk.injEq] at same
  obtain ⟨names, element, free, text, kept⟩ := same
  have plain : w'.scene.Ordinary site.node := ⟨element, free⟩
  obtain ⟨attr, own, spells⟩ := Act.spells_layOut ran here plain held
  have there : attr ∈ ["aria-label", "text-content", "tessel-id"] := names ▸ spells.1
  have only : ∀ a ∈ ["aria-label", "text-content", "tessel-id"], "textContent" = propertyOf a → a = "text-content" := by
    decide
  obtain rfl := only attr there own
  refine ⟨by decide, layout, tree, w', site, b, ran, here, plain, held, spells, fun writes => ?_⟩
  obtain ⟨u, shown, everywhere⟩ := writes 1 w' (.string "so") plain
  rw [shown, Option.bind_some, everywhere, if_pos ⟨rfl, rfl⟩, text] at kept
  exact absurd kept (by decide)

end LiveTree
