import LiveTree.Proofs.AttributeIndex
import LiveTree.Proofs.Attributes.Lone
import LiveTree.Proofs.Refusal

/-! What is done with a component on its own. A write from its markup takes the value over if the
property admits it and does nothing else, whether the component is ready or not. -/
namespace LiveTree
variable {κ σ α : Type}

/-- Acts that only write to the journal come to an end, for functions always answer. -/
theorem Act.Gives.of_logging {m : Act κ α} (logging : m.Logging) (env : Environment κ σ) (n : Nat)
    (s : Scene κ) : m.Gives (env.answer (n + 1)) s fun _ t => s.Logs t := by
  intro store
  have within := logging s
  have ends : ∃ r, m.run (env.answer (n + 1)) ⟨s, store⟩ = some r := by
    clear logging
    induction m generalizing s store with
    | done a => exact ⟨_, rfl⟩
    | read next ih => exact ih _ _ _ within
    | put t next ih => exact ih _ _ within.2
    | call c next ih =>
      obtain ⟨kind, rest⟩ := within
      cases c with
      | apply f arguments =>
        exact ih _ s (env.apply f arguments store).2 (rest _ s)
      | callback k o => cases o <;> cases kind
      | _ => cases kind
  obtain ⟨⟨a, w⟩, ran⟩ := ends
  exact ⟨a, w, ran, logging.run ran⟩

def Outlook.putting (values : String → Option Value) (name : String) (v : Value) : String → Option Value :=
  fun k => if k = name then (values k).map fun _ => v else values k

theorem Outlook.putting_of_missing {values : String → Option Value} {name : String}
    (missing : values name = none) (v : Value) : Outlook.putting values name v = values := by
  funext k
  unfold Outlook.putting
  split
  · next here => rw [here, missing, Option.map_none]
  · rfl

/-- The values of slots once a value has come to a property from the markup: one that the property
does not admit, and one that is there already, change nothing. -/
def Property.taken (p : Property) (v : Value) (values : String → Option Value) : String → Option Value :=
  if p.readOnly ∨ !p.isAllowed v ∨ ((values p.name).getD .undefined).same v ∨
      !p.kind.accepts p.nullable v then values
  else Outlook.putting values p.name v

theorem Property.taken_of_missing (p : Property) {v : Value} {values : String → Option Value}
    (missing : values p.name = none) : p.taken v values = values := by
  unfold taken
  split
  · rfl
  · exact Outlook.putting_of_missing missing v

namespace Outlook

def calm (stage : Stage) (values : String → Option Value) (attributes : Keyed String) : Outlook where
  stage := stage
  slots name := (values name).map fun v => (v, false)
  attributes := attributes

def writing (stage : Stage) (values : String → Option Value) (attributes : Keyed String)
    (busy : String) : Outlook where
  stage := stage
  slots name := (values name).map fun v => (v, name == busy)
  attributes := attributes

end Outlook

section Acts
variable {env : Environment κ σ} {n : Nat} {d : Definition κ} {codec : Codec} {id : ComponentId}
  {x : NodeId} {o : Outlook} {s t : Scene κ} {p : Property} {v : Value} {stage : Stage}
  {values : String → Option Value} {attributes : Keyed String}

namespace Scene.Lone

theorem logs (lone : s.Lone d codec id x o) (logs : s.Logs t) : t.Lone d codec id x o := by
  obtain ⟨lines, rfl⟩ := logs
  induction lines generalizing s with
  | nil => exact lone
  | cons line rest ih => exact ih (lone.journal _)

/-- A slot is changed. -/
theorem modifySlot (lone : s.Lone d codec id x o) (name : String) {f : Slot → Slot}
    {slots : String → Option (Value × Bool)} (g : Value × Bool → Value × Bool)
    (same : ∀ slot : Slot, ((f slot).value, (f slot).busy) = g (slot.value, slot.busy))
    (come : ∀ k, slots k = if k = name then (o.slots k).map g else o.slots k) :
    (s.modify id fun c => c.modifySlot name f).Lone d codec id x { o with slots := slots } := by
  refine lone.modify (fun c own => { own with slots := fun k => ?_ }) rfl
  dsimp only
  rw [come, ← own.slots k, Component.modifySlot, Keyed.get?_modify]
  by_cases here : k = name
  · subst here
    simp only [if_true, Option.map_map]
    exact congrArg (Option.map · _) (funext same)
  · rw [if_neg here, if_neg here]

theorem property (lone : s.Lone d codec id x o) (name : String) :
    s.property id name = ((o.slots name).map Prod.fst).getD .undefined := by
  obtain ⟨⟨c, found, own⟩, -⟩ := lone
  rw [Scene.property, found, Option.map_some, Option.getD_some, Component.property, Slots.value?,
    ← own.slots name, Option.map_map]
  rfl

/-- The slot is marked, and freed again. -/
theorem mark (lone : s.Lone d codec id x (.calm stage values attributes)) (name : String) :
    (s.modify id fun c => c.modifySlot name fun slot => { slot with busy := true }).Lone d codec id x
      (.writing stage values attributes name) := by
  refine lone.modifySlot name (fun r => (r.1, true)) (fun _ => rfl) fun k => ?_
  by_cases here : k = name
  · simp [Outlook.calm, here, Function.comp_def]
  · simp [Outlook.calm, here, beq_eq_false_iff_ne.mpr here]

theorem free {name : String} (lone : s.Lone d codec id x (.writing stage values attributes name)) :
    (s.modify id fun c => c.modifySlot name fun slot => { slot with busy := false }).Lone d codec id x
      (.calm stage values attributes) := by
  refine lone.modifySlot name (fun r => (r.1, false)) (fun _ => rfl) fun k => ?_
  by_cases here : k = name
  · simp [Outlook.writing, here, Function.comp_def]
  · simp [Outlook.writing, here, beq_eq_false_iff_ne.mpr here]

/-- A value is put into the slot that is being written. -/
theorem put {name : String} (lone : s.Lone d codec id x (.writing stage values attributes name))
    (v : Value) :
    (s.modify id fun c => c.modifySlot name fun slot => { slot with value := v }).Lone d codec id x
      (.writing stage (Outlook.putting values name v) attributes name) := by
  refine lone.modifySlot name (fun r => (v, r.2)) (fun _ => rfl) fun k => ?_
  by_cases here : k = name
  · simp [Outlook.writing, Outlook.putting, here, Function.comp_def]
  · simp [Outlook.writing, Outlook.putting, here]

end Scene.Lone

namespace Act
open Returns
variable {answer : (c : Call κ) → World κ σ → Option (c.Answer × World κ σ)}

theorem returns_logging {m : Act κ α} (logging : m.Logging) :
    m.Returns (env.answer (n + 1)) fun s => s.Lone d codec id x o := fun s lone =>
  (Gives.of_logging logging env n s).mono fun _ _ logs => lone.logs logs

/-- A change of the component that says nothing of what it is on its own by. -/
theorem returns_modify {f : Component κ → Component κ}
    (kept : ∀ c : Component κ, c.Lone d x o → (f c).Lone d x o) :
    (Act.modify id f).Returns answer fun s => s.Lone d codec id x o :=
  .update fun _ lone => lone.modify kept rfl

/-- What is done about the component is done about one on its own. -/
theorem returns_withComponent {a : α} {f : Component κ → Act κ α}
    (body : ∀ c : Component κ, c.Lone d x o → (f c).Returns answer fun s => s.Lone d codec id x o) :
    (Act.withComponent id a f).Returns answer fun s => s.Lone d codec id x o :=
  .withComponent (fun _ lone => lone.component) body

section Spread
variable (passive : d.Passive) (declared : d.schema.get? p.name = some p) {old new : Value}

include passive declared in
theorem returns_tellOfChange :
    (Act.tellOfChange id p old new).Returns answer fun s => s.Lone d codec id x o := by
  refine returns_withComponent fun c own => ?_
  have silent : c.definition.hooks.changed = none := by rw [own.definition, passive.hooks]
  simp only [silent, passive.observer p.name p declared, own.watcher, Option.filter_none]
  refine composes.bind (returns_modify fun c own => { own with }) fun _ => ?_
  exact returns_modify fun c own => { own with }

/-- Nobody hears the news of a change. -/
theorem returns_deliver (e : Event) (stays : e.bubbles = false) :
    (Act.deliver x e).Returns answer fun s => s.Lone d codec id x o := by
  intro s lone
  obtain ⟨m, there, -, -, unheard⟩ := lone.node
  have none : s.document.listeners x e.kind = [] := by
    simp only [Document.listeners, there, unheard, List.filter_nil, List.map_nil]
  refine .scene ?_
  simp only [none, stays]
  exact .bind (R := fun _ t => t.Lone d codec id x o) (.pure lone) fun _ t lone => .scene (.pure lone)

theorem returns_announce :
    (Act.announce x p old new).Returns (env.answer (n + 1)) fun s => s.Lone d codec id x o := by
  refine composes.sceneBind fun s => composes.ite ?_ (composes.pure ())
  exact fun s lone => .ask fun store => returns_deliver _ rfl s lone store

theorem returns_pushBound {changed : Option String} :
    (Act.pushBound id changed).Returns answer fun s => s.Lone d codec id x o := by
  refine returns_withComponent fun c own => ?_
  have none : (c.bindings.map BindingTree.bindings).getD [] = [] := by
    cases tree : c.bindings with
    | none => rfl
    | some t =>
      rw [own.bindings t tree]
      rfl
  simp only [none, List.filter_nil]
  exact composes.ite (composes.pure ()) (composes.pure ())

theorem returns_writeBackProperty {name : String} :
    (Act.writeBackProperty id name).Returns answer fun s => s.Lone d codec id x o := by
  refine returns_withComponent fun c own => ?_
  simp only [own.link]
  exact composes.pure ()

include passive declared in
/-- A value from the markup is told to those that are to be told, and there are none. -/
theorem returns_spread {c : Component κ} {o' : Outlook} (own : c.Lone d x o') (slot : Slot) :
    (Act.spread id p c slot old new .markup).Returns (env.answer (n + 1)) fun s =>
      s.Lone d codec id x o := by
  unfold Act.spread
  extract_lets bound written pushed announced told
  have writing (r) : (written r).Returns (env.answer (n + 1)) fun s => s.Lone d codec id x o :=
    composes.ite returns_writeBackProperty (composes.pure ())
  have pushing (r) : (pushed r).Returns (env.answer (n + 1)) fun s => s.Lone d codec id x o :=
    composes.ite (composes.bind returns_pushBound writing) (writing ())
  have announcing (r) : (announced r).Returns (env.answer (n + 1)) fun s => s.Lone d codec id x o := by
    refine composes.ite (composes.bind ?_ pushing) (pushing ())
    rw [own.node]
    exact returns_announce
  rw [if_neg fun both => both.1 rfl]
  refine composes.sceneBind fun s => composes.ite ?_ (composes.pure ())
  exact composes.ite (composes.bind (returns_tellOfChange passive declared) announcing) (announcing ())

end Spread

/-- The value is in the slot, if there is one. -/
theorem gives_commit (passive : d.Passive) (declared : d.schema.get? p.name = some p) {old : Value}
    (lone : s.Lone d codec id x (.writing stage values attributes p.name)) :
    (Act.commit id p old v .markup).Gives (env.answer (n + 1)) s fun _ t => t.Lone d codec id x
      (.writing stage (Outlook.putting values p.name v) attributes p.name) := by
  obtain ⟨c, found, own⟩ := lone.component
  refine .withComponent found ?_
  cases held : Keyed.get? c.slots p.name with
  | none =>
    have missing : values p.name = none := by
      have slots := own.slots p.name
      rw [held] at slots
      exact Option.map_eq_none_iff.mp slots.symm
    rw [Outlook.putting_of_missing missing]
    exact .pure lone
  | some slot =>
    refine .bind (R := fun _ t => t.Lone d codec id x
      (.writing stage (Outlook.putting values p.name v) attributes p.name)) (.update (lone.put v)) ?_
    refine fun _ t put => .bind (returns_spread passive declared own slot t put) fun _ u put => ?_
    exact .pure put

/-- A value that does not pass the checks is reported, and one that does is put into the slot. -/
theorem gives_attempt (passive : d.Passive) (declared : d.schema.get? p.name = some p)
    (lone : s.Lone d codec id x (.writing stage values attributes p.name)) :
    (Act.attempt id p v .markup).Gives (env.answer (n + 1)) s fun _ t => t.Lone d codec id x
      (.writing stage (p.taken v values) attributes p.name) := by
  have old : s.property id p.name = (values p.name).getD .undefined := by
    rw [lone.property, Outlook.writing, Option.map_map]
    exact congrArg (Option.getD · _) Option.map_id'
  have refused (fault : Fault) (same : p.taken v values = values) :
      (Act.refuse id fault).Gives (env.answer (n + 1)) s fun _ t => t.Lone d codec id x
        (.writing stage (p.taken v values) attributes p.name) := by
    rw [same]
    exact returns_logging (.refuse id fault) s lone
  unfold Act.attempt
  split
  · next barred =>
    rw [Property.taken, if_pos (.inl barred.1)]
    exact .pure lone
  · next free =>
    have writable : p.readOnly ≠ true := fun only => free ⟨only, Origin.noConfusion⟩
    unfold Property.checkAllowed
    split
    · next fault checked =>
      refine refused fault (if_pos (.inr (.inl ?_)))
      split at checked
      · cases checked
      · next out => simpa using out
    · next checked =>
      have allowed : p.isAllowed v = true := by
        split at checked
        · assumption
        · cases checked
      have plain : Act.validated id p (s.property id p.name) v = (pure v : Act κ Value) := by
        unfold Act.validated
        rw [passive.validator p.name p declared]
      refine .scene (.bind (R := fun w t => v = w ∧ s = t) ?_ ?_)
      · rw [plain]
        exact .pure ⟨rfl, rfl⟩
      rintro _ _ ⟨rfl, rfl⟩
      rw [old]
      split
      · next same =>
        rw [Property.taken, if_pos (.inr (.inr (.inl same)))]
        exact .pure lone
      · next fresh =>
        unfold Property.checkKind
        split
        · next fault checked =>
          refine refused fault (if_pos (.inr (.inr (.inr ?_))))
          split at checked
          · cases checked
          · next out => simpa using out
        · next checked =>
          have fits : p.kind.accepts p.nullable v = true := by
            split at checked
            · assumption
            · cases checked
          rw [Property.taken, if_neg (by simp [writable, allowed, fresh, fits])]
          exact gives_commit passive declared lone

/-- A write from the markup takes a value over as the property takes it. -/
theorem gives_write (passive : d.Passive) (declared : d.schema.get? p.name = some p)
    (lone : s.Lone d codec id x (.calm stage values attributes)) :
    (Act.write id p.name v .markup).Gives (env.answer (n + 1)) s fun _ t =>
      t.Lone d codec id x (.calm stage (p.taken v values) attributes) := by
  obtain ⟨c, found, own⟩ := lone.component
  have slots := own.slots p.name
  refine .withComponent found ?_
  rw [show c.schema.get? p.name = some p by rw [Component.schema, own.definition, declared]]
  cases held : Keyed.get? c.slots p.name with
  | none =>
    have missing : values p.name = none := by
      rw [held] at slots
      exact Option.map_eq_none_iff.mp slots.symm
    rw [p.taken_of_missing missing]
    exact .pure lone
  | some slot =>
    have idle : slot.busy = false := by
      rw [held] at slots
      obtain ⟨v, -, both⟩ := Option.map_eq_some_iff.mp slots.symm
      exact (Prod.ext_iff.mp both).2.symm
    dsimp only
    rw [idle, if_neg Bool.false_ne_true]
    refine .bind (R := fun _ t => t.Lone d codec id x (.writing stage values attributes p.name))
      (.update (lone.mark p.name)) fun _ t marked => ?_
    refine .bind (gives_attempt passive declared marked) fun r u tried => ?_
    exact .bind (.update tried.free) fun _ _ freed => .pure freed

end Act

namespace Scene.Lone

theorem attribute? (lone : s.Lone d codec id x o) (attr : String) :
    s.document.attribute? x attr = o.attributes.get? attr := by
  obtain ⟨m, there, named, -⟩ := lone.node
  rw [Document.attribute?, there, Option.bind_some, named]

theorem attributeNames (lone : s.Lone d codec id x o) :
    s.document.attributeNames x = o.attributes.names := by
  obtain ⟨m, there, named, -⟩ := lone.node
  rw [Document.attributeNames, there, Option.map_some, Option.getD_some, named]

theorem setAttribute (lone : s.Lone d codec id x o) (attr text : String) :
    (s.edit (·.setAttribute x attr text)).Lone d codec id x
      { o with attributes := o.attributes.insert attr text } :=
  lone.editHost fun attributes => attributes.insert attr text

theorem removeAttribute (lone : s.Lone d codec id x o) (attr : String) :
    (s.edit (·.removeAttribute x attr)).Lone d codec id x
      { o with attributes := o.attributes.erase attr } :=
  lone.editHost fun attributes => attributes.erase attr

end Scene.Lone

/-- The values of slots once an attribute has come to its property. A text that holds a binding and
one that reads as nothing do not come to it. -/
def Schema.fed (schema : Schema) (codec : Codec) (values : String → Option Value)
    (a : String × String) : String → Option Value :=
  match schema.byAttribute? a.1 with
  | some p =>
    let v := codec.read p.kind p.nullable (some a.2)
    if Token.hasStart a.2 ∨ v.isUndefined then values else p.taken v values
  | none => values

namespace Act

/-- A value that an attribute reads as comes to the property. -/
theorem gives_take (passive : d.Passive) {attr : String} (found : d.schema.byAttribute? attr = some p)
    (lone : s.Lone d codec id x (.calm stage values attributes)) :
    (Act.ask (.write id p.name v .markup)).Gives (env.answer (n + 2)) s fun _ t =>
      t.Lone d codec id x (.calm stage (p.taken v values) attributes) :=
  .ask fun store => gives_write passive (Schema.byAttribute?_eq_some.mp found).2 lone store

/-- An attribute of a component that is configured comes to its property at once. -/
theorem gives_setAttribute (passive : d.Passive) (configured : stage.isConfigured = true)
    (lone : s.Lone d codec id x (.calm stage values attributes)) (attr text : String) :
    (Act.setAttribute x attr text).Gives (env.answer (n + 2)) s fun _ t => t.Lone d codec id x
      (.calm stage (d.schema.fed codec values (attr, text)) (attributes.insert attr text)) := by
  refine .bind (R := fun _ t => t.Lone d codec id x (.calm stage values (attributes.insert attr text)))
    (.update (lone.setAttribute attr text)) fun _ t lone => ?_
  obtain ⟨c, found, own⟩ := lone.component
  have ready : c.stage.isConfigured = true := by rw [own.stage]; exact configured
  refine .scene ?_
  rw [lone.host]
  refine .withComponent found ?_
  rw [ready, Component.schema, own.definition]
  unfold Schema.fed
  dsimp only
  split
  · next bound =>
    have bound : Token.hasStart text = true := bound
    refine .pure ?_
    split
    · rwa [if_pos (.inl bound)]
    · exact lone
  · next plain =>
    have plain : ¬Token.hasStart text = true := plain
    refine .scene ?_
    cases found : d.schema.byAttribute? attr with
    | none => exact .pure lone
    | some p =>
      dsimp only
      rw [lone.codec]
      split
      · next nothing =>
        rw [if_pos (.inr nothing)]
        exact .pure lone
      · next something =>
        rw [if_neg (not_or.mpr ⟨plain, something⟩)]
        exact .bind (gives_take passive found lone) fun r u taken => .pure taken

/-- Before its component is configured an attribute does not come to its property. -/
theorem gives_setAttribute_early {answer : (c : Call κ) → World κ σ → Option (c.Answer × World κ σ)}
    (early : stage.isConfigured = false)
    (lone : s.Lone d codec id x (.calm stage values attributes)) (attr text : String) :
    (Act.setAttribute x attr text).Gives answer s fun _ t => t = s.edit (·.setAttribute x attr text) := by
  have here := lone.setAttribute attr text
  refine .bind (R := fun _ t => t = s.edit (·.setAttribute x attr text)) (.update rfl) ?_
  rintro _ _ rfl
  obtain ⟨c, found, own⟩ := here.component
  have ready : c.stage.isConfigured = false := by rw [own.stage]; exact early
  refine .scene ?_
  rw [here.host]
  refine .withComponent found ?_
  rw [ready]
  exact .pure rfl

/-- The text `false` reads as the empty one does that is put in its place. -/
theorem read_blanked {text : String} (nullable : Bool) {kind : Kind}
    (blank : (kind == .boolean && text == "false") = true) :
    codec.read kind nullable (some "") = codec.read kind nullable (some text) := by
  obtain ⟨boolean, no⟩ := (Bool.and_eq_true _ _).mp blank
  rw [eq_of_beq boolean, eq_of_beq no]
  rfl

/-- At the first connection an attribute comes to its property as it does later. -/
theorem gives_configureAttribute (passive : d.Passive) {a : String × String}
    (there : attributes.get? a.1 = some a.2)
    (lone : s.Lone d codec id x (.calm stage values attributes)) :
    (Act.configureAttribute id x d.schema a.1).Gives (env.answer (n + 2)) s fun _ t =>
      ∃ later : Keyed String, (∀ other, other ≠ a.1 → later.get? other = attributes.get? other) ∧
        t.Lone d codec id x (.calm stage (d.schema.fed codec values a) later) := by
  refine .scene ?_
  rw [lone.attribute?, show (Outlook.calm stage values attributes).attributes = attributes from rfl,
    there, Schema.fed]
  cases found : d.schema.byAttribute? a.1 with
  | none => exact .pure ⟨attributes, fun _ _ => rfl, lone⟩
  | some p =>
    refine dite (Token.hasStart a.2 = true) (fun bound => ?_) fun plain => ?_
    · dsimp only
      rw [if_pos bound, if_pos (.inl bound)]
      exact .pure ⟨attributes, fun _ _ => rfl, lone⟩
    dsimp only
    rw [if_neg plain, lone.codec]
    -- Whatever the attribute is by now, what it said is read.
    have reads {t : Scene κ} {later : Keyed String} {text : String}
        (reads : codec.read p.kind p.nullable (some text) = codec.read p.kind p.nullable (some a.2))
        (rest : ∀ other, other ≠ a.1 → later.get? other = attributes.get? other)
        (lone : t.Lone d codec id x (.calm stage values later)) :
        (if !(codec.read p.kind p.nullable (some text)).isUndefined then do
            let _ ← ask (.write id p.name (codec.read p.kind p.nullable (some text)) .markup)
            pure ()
          else pure () : Act κ Unit).Gives (env.answer (n + 2)) t fun _ u => ∃ later : Keyed String,
            (∀ other, other ≠ a.1 → later.get? other = attributes.get? other) ∧ u.Lone d codec id x
              (.calm stage (if Token.hasStart a.2 = true ∨
                  (codec.read p.kind p.nullable (some a.2)).isUndefined = true then values
                else p.taken (codec.read p.kind p.nullable (some a.2)) values) later) := by
      rw [reads]
      split
      · next something =>
        rw [if_neg (not_or.mpr ⟨plain, by simpa using something⟩)]
        refine .bind (gives_take passive found lone) fun r u taken => .pure ⟨later, rest, taken⟩
      · next nothing =>
        rw [if_pos (.inr (by simpa using nothing))]
        exact .pure ⟨later, rest, lone⟩
    split
    · next blank =>
      refine .bind (R := fun _ t => t.Lone d codec id x (.calm stage values (attributes.insert a.1 "")))
        (.update (lone.setAttribute a.1 "")) fun _ t lone => ?_
      rw [if_pos blank]
      refine reads (read_blanked p.nullable blank) (fun other apart => ?_) lone
      exact Keyed.get?_insert_of_ne _ _ apart
    · next kept =>
      rw [if_neg kept]
      exact reads rfl (fun _ _ => rfl) lone

/-- All attributes come to their properties, one after the other. -/
theorem gives_configureAttributes (passive : d.Passive) (named : Keyed String)
    (distinct : named.names.Nodup) (there : ∀ a ∈ named, attributes.get? a.1 = some a.2)
    (free : attributes.get? contextAttribute = none)
    (lone : s.Lone d codec id x (.calm stage values attributes)) :
    (Act.each named.names (configureAttribute id x d.schema)).Gives (env.answer (n + 2)) s fun _ t =>
      ∃ later : Keyed String, later.get? contextAttribute = none ∧
        t.Lone d codec id x (.calm stage (named.foldl (d.schema.fed codec) values) later) := by
  induction named generalizing s values attributes with
  | nil => exact .pure ⟨attributes, free, lone⟩
  | cons a rest ih =>
    have here := there a List.mem_cons_self
    obtain ⟨alone, distinct⟩ := List.nodup_cons.mp distinct
    refine .bind (gives_configureAttribute passive here lone) ?_
    rintro _ t ⟨later, same, lone⟩
    refine ih distinct (fun b inside => ?_) ?_ lone
    · have apart : b.1 ≠ a.1 := fun clash => alone (List.mem_map.mpr ⟨b, inside, clash⟩)
      exact (same b.1 apart).trans (there b (List.mem_cons_of_mem _ inside))
    · refine (same contextAttribute fun clash => ?_).trans free
      rw [clash, here] at free
      cases free

end Act

def Schema.Nameless (schema : Schema) : Prop :=
  ∀ p ∈ schema.toList, p.reflect = true → p.reflectDefault = true → p.attributeName ≠ contextAttribute

namespace Act

/-- A property that shows itself from the start changes attributes only. -/
theorem gives_reflectDefault {answer : (c : Call κ) → World κ σ → Option (c.Answer × World κ σ)}
    (nameless : p.reflect = true → p.reflectDefault = true → p.attributeName ≠ contextAttribute)
    (free : attributes.get? contextAttribute = none)
    (lone : s.Lone d codec id x (.calm stage values attributes)) :
    (Act.reflectDefault id x p).Gives answer s fun _ t => ∃ later : Keyed String,
      later.get? contextAttribute = none ∧ t.Lone d codec id x (.calm stage values later) := by
  refine .scene ?_
  split
  · next shown =>
    obtain ⟨⟨reflected, early⟩, -⟩ := by simpa using shown
    have apart := (nameless reflected early).symm
    refine .update ?_
    cases Codec.write p.kind p.nullable (s.property id p.name) with
    | none =>
      refine ⟨_, ?_, lone.removeAttribute p.attributeName⟩
      exact (Keyed.get?_erase _ _ _).trans (by rw [if_neg apart]; exact free)
    | some text =>
      exact ⟨_, (Keyed.get?_insert_of_ne _ _ apart).trans free, lone.setAttribute p.attributeName text⟩
  · exact .pure ⟨attributes, free, lone⟩

/-- Configuration takes the attributes over. -/
theorem gives_configure (passive : d.Passive) (nameless : d.schema.Nameless)
    (distinct : attributes.names.Nodup) (free : attributes.get? contextAttribute = none)
    (lone : s.Lone d codec id x (.calm .created values attributes)) :
    (Act.configure id).Gives (env.answer (n + 2)) s fun _ t => ∃ later : Keyed String,
      t.Lone d codec id x (.calm .configured (attributes.foldl (d.schema.fed codec) values) later) := by
  obtain ⟨c, found, own⟩ := lone.component
  have created : c.stage = .created := own.stage
  refine .withComponent found ?_
  rw [if_pos created]
  refine .scene ?_
  rw [own.node, lone.attributeNames, Component.schema, own.definition]
  have there := fun a inside => Keyed.get?_of_mem distinct (e := a) inside
  refine .bind (gives_configureAttributes passive attributes distinct there free lone) ?_
  rintro _ t ⟨later, free, lone⟩
  have settled : (t.modify id fun c => { c with stage := .configured }).Lone d codec id x
      (.calm .configured (attributes.foldl (d.schema.fed codec) values) later) :=
    lone.modify (fun c own => { own with stage := rfl }) rfl
  refine .bind (R := fun _ t => t.Lone d codec id x
    (.calm .configured (attributes.foldl (d.schema.fed codec) values) later)) (.update settled) ?_
  intro _ t lone
  refine .bind (.each (I := fun t => ∃ later : Keyed String, later.get? contextAttribute = none ∧
    t.Lone d codec id x (.calm .configured (attributes.foldl (d.schema.fed codec) values) later))
    d.schema.toList ?_ ⟨later, free, lone⟩) ?_
  · rintro p inside t ⟨later, free, lone⟩
    exact gives_reflectDefault (nameless p inside) free lone
  · rintro _ t ⟨later, free, lone⟩
    obtain ⟨c, found, own⟩ := lone.component
    refine .scene ?_
    rw [found, Option.bind_some, own.node, lone.attribute?]
    dsimp only [Outlook.calm]
    rw [free]
    exact .pure ⟨later, lone⟩

end Act
end Acts
end LiveTree
