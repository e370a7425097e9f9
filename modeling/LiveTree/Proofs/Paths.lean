import Mathlib.Data.List.TakeWhile
import LiveTree.Act.Feed

/-! Paths into values. A write at a path comes to its end exactly if nothing but objects is in its way;
otherwise it leaves no trace. What it makes on the way down are empty objects, in which nothing can be
in the way any more. Who reads finds the new value at the path and all else as it was. Contexts cut
paths at the first name, and what they read and write is what the object of their fields does. -/
namespace LiveTree

namespace Keyed
variable {α : Type}

/-- An entry put in again where it stands changes nothing. -/
theorem insert_of_get? {xs : Keyed α} {key : String} {a : α} (found : get? xs key = some a) :
    insert xs key a = xs := by
  induction xs with
  | nil => cases found
  | cons x rest ih =>
    obtain ⟨name, b⟩ := x
    by_cases same : name = key
    · rw [get?, if_pos same] at found
      cases found
      rw [insert, if_pos same]
    · rw [get?, if_neg same] at found
      rw [insert, if_neg same, ih found]

/-- What is put in twice is there as it was put in last. -/
theorem insert_insertNew (xs : Keyed α) (key : String) (a b : α) :
    insert (insertNew xs key a) key b = insert xs key b := by
  cases taken : contains xs key with
  | true => rw [insertNew, if_pos taken]
  | false =>
    have free : key ∉ names xs := by
      rw [← isSome_get?, ← contains, taken]
      exact Bool.false_ne_true
    rw [insertNew, taken, if_neg Bool.false_ne_true, insert_of_notMem free]
    induction xs with
    | nil => simp [insert]
    | cons x rest ih =>
      obtain ⟨other, later⟩ := not_or.mp fun member => free (List.mem_cons.mpr member)
      have rest_free : contains rest key = false := by
        rw [contains, ← Bool.not_eq_true, isSome_get?]
        exact later
      rw [List.cons_append, insert, if_neg (Ne.symm other), ih rest_free later, List.cons_append]

theorem get?_insertNew_self (xs : Keyed α) (key : String) (a : α) :
    get? (insertNew xs key a) key = some ((get? xs key).getD a) := by
  rw [get?_insertNew, if_pos rfl]
  cases get? xs key <;> rfl

theorem names_prefix_insert (xs : Keyed α) (key : String) (a : α) :
    names xs <+: names (insert xs key a) := by
  rw [names_insert]
  split
  · exact List.prefix_rfl
  · exact List.prefix_append _ _

end Keyed

namespace Value

/-- The write as it goes down in place: an empty object is put where the next one is missing, and the
value at the end. Tells whether it came to the end, and what it has made of the value, also if it was
stopped on the way. -/
def descend : Value → List String → Value → Bool × Value
  | .object members, [name], v => (true, .object (Keyed.insert members name v))
  | .object members, name :: next :: rest, v =>
    let made := Keyed.insertNew members name (.object [])
    let inner := ((Keyed.get? made name).getD .undefined).descend (next :: rest) v
    (inner.1, .object (Keyed.insert made name inner.2))
  | root, _, _ => (false, root)

/-- In an empty object nothing is in the way. -/
theorem isSome_put_empty (name : String) (rest : List String) (v : Value) :
    ((Value.object []).put (name :: rest) v).isSome = true := by
  induction rest generalizing name with
  | nil => rfl
  | cons next rest ih => rw [put, Option.isSome_map]; exact ih next

/-- A descent that comes to its end has made what `put` makes, and one that is stopped has made
nothing: it is not stopped any more once it has put in an empty object. -/
theorem descend_eq (root : Value) (names : List String) (v : Value) :
    root.descend names v = ((root.put names v).isSome, (root.put names v).getD root) := by
  induction names generalizing root with
  | nil => cases root <;> rfl
  | cons name rest ih =>
    cases root with
    | object members =>
      cases rest with
      | nil => rfl
      | cons next rest =>
        simp only [descend, put, Keyed.get?_insertNew_self, Option.getD_some, ih,
          Keyed.insert_insertNew, Option.isSome_map, Prod.mk.injEq, true_and]
        cases written : ((Keyed.get? members name).getD (.object [])).put (next :: rest) v with
        | some inner => rfl
        | none =>
          -- The write was stopped below a member that is there, which it has left as it was.
          cases there : Keyed.get? members name with
          | none =>
            rw [there, Option.getD_none] at written
            exact absurd (isSome_put_empty next rest v) (by rw [written]; decide)
          | some inner => exact congrArg Value.object (Keyed.insert_of_get? there)
    | _ => rfl

theorem follow_cons (members : List (String × Value)) (name : String) (rest : List String) :
    (Value.object members).follow (name :: rest) =
      (Keyed.get? members name).bind (·.follow rest) := rfl

def Clear (root : Value) (names : List String) : Prop :=
  ∀ front x, front <+: names → front ≠ names → root.follow front = some x → x.object?.isSome = true

theorem clear_cons {members : List (String × Value)} {name next : String} {rest : List String} :
    (Value.object members).Clear (name :: next :: rest) ↔
      ∀ inner, Keyed.get? members name = some inner → inner.Clear (next :: rest) := by
  constructor
  · intro clear inner there front x before proper found
    refine clear (name :: front) x (List.cons_prefix_cons.mpr ⟨rfl, before⟩) ?_ ?_
    · exact fun same => proper (List.cons.inj same).2
    · rw [follow_cons, there, Option.bind_some, found]
  · intro clear front x before proper found
    cases front with
    | nil => cases found; rfl
    | cons first front =>
      obtain ⟨rfl, deeper⟩ := List.cons_prefix_cons.mp before
      obtain ⟨inner, there, found⟩ := Option.bind_eq_some_iff.mp found
      exact clear inner there front x deeper (fun same => proper (congrArg _ same)) found

theorem not_clear {root : Value} (scalar : root.object? = none) (name : String)
    (rest : List String) : ¬root.Clear (name :: rest) := by
  intro clear
  have object := clear [] root List.nil_prefix (List.cons_ne_nil _ _).symm rfl
  rw [scalar] at object
  cases object

theorem isSome_put_iff (root : Value) (name : String) (rest : List String) (v : Value) :
    (root.put (name :: rest) v).isSome = true ↔ root.Clear (name :: rest) := by
  induction rest generalizing root name with
  | nil =>
    cases root with
    | object members =>
      refine iff_of_true rfl ?_
      intro front x before proper found
      cases front with
      | nil => cases found; rfl
      | cons first front =>
        obtain ⟨rfl, deeper⟩ := List.cons_prefix_cons.mp before
        rw [List.prefix_nil.mp deeper] at proper
        exact absurd rfl proper
    | _ => exact iff_of_false (by simp [put]) (not_clear rfl name [])
  | cons next rest ih =>
    cases root with
    | object members =>
      rw [clear_cons, put, Option.isSome_map, ih]
      cases there : Keyed.get? members name with
      | none =>
        rw [Option.getD_none, ← ih]
        exact iff_of_true (isSome_put_empty next rest v) nofun
      | some inner => simp
    | _ => exact iff_of_false (by simp [put]) (not_clear rfl name (next :: rest))

/-- The second value is the first one with a value written at a path: it is found there, whatever lies
neither on the path nor below is as it was, and objects keep the order of their members, to which at
most one has been added. -/
structure Puts (root : Value) (names : List String) (v w : Value) : Prop where
  there : w.follow names = some v
  apart : ∀ other, ¬other <+: names → ¬names <+: other → w.follow other = root.follow other
  order : ∀ other xs, ¬names <+: other → root.follow other = some (.object xs) →
    ∃ ys, w.follow other = some (.object ys) ∧ Keyed.names xs <+: Keyed.names ys

theorem Puts.last (members : List (String × Value)) (name : String) (v : Value) :
    (Value.object members).Puts [name] v (.object (Keyed.insert members name v)) where
  there := by rw [follow_cons, Keyed.get?_insert_self]; rfl
  apart other above below := by
    cases other with
    | nil => exact absurd List.nil_prefix above
    | cons first rest =>
      have different : first ≠ name := fun same => below (same ▸ List.prefix_append [first] rest)
      rw [follow_cons, follow_cons, Keyed.get?_insert_of_ne _ _ different]
  order other xs below found := by
    cases other with
    | nil =>
      cases found
      exact ⟨_, rfl, Keyed.names_prefix_insert _ _ _⟩
    | cons first rest =>
      have different : first ≠ name := fun same => below (same ▸ List.prefix_append [first] rest)
      rw [follow_cons] at found
      refine ⟨xs, ?_, List.prefix_rfl⟩
      rw [follow_cons, Keyed.get?_insert_of_ne _ _ different, found]

/-- What has been written below a member, or below an empty object in the place of one. -/
theorem Puts.below {members : List (String × Value)} {name : String} {rest : List String}
    {v inner : Value} (written : ((Keyed.get? members name).getD (.object [])).Puts rest v inner) :
    (Value.object members).Puts (name :: rest) v (.object (Keyed.insert members name inner)) where
  there := by rw [follow_cons, Keyed.get?_insert_self, Option.bind_some, written.there]
  apart other above below := by
    cases other with
    | nil => exact absurd List.nil_prefix above
    | cons first other =>
      rw [follow_cons, follow_cons]
      by_cases same : first = name
      · subst same
        have outer : ¬other <+: rest := fun front => above (List.cons_prefix_cons.mpr ⟨rfl, front⟩)
        have under : ¬rest <+: other := fun front => below (List.cons_prefix_cons.mpr ⟨rfl, front⟩)
        rw [Keyed.get?_insert_self, Option.bind_some, written.apart other outer under]
        cases there : Keyed.get? members first with
        | some old => rfl
        | none =>
          cases other with
          | nil => exact absurd List.nil_prefix outer
          | cons _ _ => rfl
      · rw [Keyed.get?_insert_of_ne _ _ same]
  order other xs below found := by
    cases other with
    | nil =>
      cases found
      exact ⟨_, rfl, Keyed.names_prefix_insert _ _ _⟩
    | cons first other =>
      rw [follow_cons] at found ⊢
      by_cases same : first = name
      · subst same
        obtain ⟨old, there, found⟩ := Option.bind_eq_some_iff.mp found
        rw [there, Option.getD_some] at written
        rw [Keyed.get?_insert_self, Option.bind_some]
        exact written.order other xs (fun front => below (List.cons_prefix_cons.mpr ⟨rfl, front⟩)) found
      · rw [Keyed.get?_insert_of_ne _ _ same]
        exact ⟨xs, found, List.prefix_rfl⟩

theorem puts_of_put {root w v : Value} {names : List String} (written : root.put names v = some w) :
    root.Puts names v w := by
  induction names generalizing root w with
  | nil => cases root <;> cases written
  | cons name rest ih =>
    cases root with
    | object members =>
      cases rest with
      | nil => cases written; exact .last members name v
      | cons next rest =>
        obtain ⟨inner, deeper, rfl⟩ := Option.map_eq_some_iff.mp written
        exact .below (ih deeper)
    | _ => cases written

theorem exists_segments (path : String) : ∃ first rest, segments path = first :: rest :=
  List.exists_cons_of_ne_nil fun empty =>
    Text.splitOn_ne_nil '.' path.toList (List.map_eq_nil_iff.mp empty)

end Value

theorem Text.notMem_of_cutAt {sep : Char} {cs : List Char} (whole : cutAt sep cs = none) :
    sep ∉ cs := by
  intro member
  induction cs with
  | nil => cases member
  | cons c cs ih =>
    unfold cutAt at whole
    split at whole
    · cases whole
    · next other =>
      exact ih (Option.map_eq_none_iff.mp whole) ((List.mem_cons.mp member).resolve_left (Ne.symm other))

/-- The head of a path is what stands before its first dot. -/
theorem fst_headAndRest (path : String) : (headAndRest path).1 = Source.rootName path := by
  have before {cs : List Char} (dotless : '.' ∉ cs) : ∀ c ∈ cs, decide (c ≠ '.') = true := by
    intro c inside
    refine decide_eq_true ?_
    rintro rfl
    exact dotless inside
  unfold headAndRest Source.rootName
  split
  · next head rest cut =>
    obtain ⟨parts, first⟩ := Text.cutAt_eq_some cut
    rw [parts, List.takeWhile_append_of_pos (before first)]
    simp
  · next uncut =>
    rw [List.takeWhile_eq_self_iff.mpr (before (Text.notMem_of_cutAt uncut)), String.ofList_toList]

theorem segments_of_head {path head : String} (whole : headAndRest path = (head, none)) :
    Value.segments path = [head] := by
  unfold headAndRest at whole
  split at whole
  · cases whole
  · next uncut =>
    cases whole
    rw [Value.segments, Text.splitOn_of_notMem (Text.notMem_of_cutAt uncut), List.map_singleton,
      String.ofList_toList]

theorem segments_of_rest {path head rest : String} (cut : headAndRest path = (head, some rest)) :
    Value.segments path = head :: Value.segments rest := by
  unfold headAndRest at cut
  split at cut
  · next before after split =>
    cases cut
    obtain ⟨parts, first⟩ := Text.cutAt_eq_some split
    rw [Value.segments, parts, Text.splitOn_append first, List.map_cons, Value.segments,
      String.toList_ofList]
  · cases cut

namespace Context

/-- The fields of a context, read as one object. -/
theorem get?_eq (c : Context) (path : String) : c.get? path = (Value.object c.fields).get? path := by
  unfold get? Value.get?
  split
  · next head rest cut => rw [segments_of_rest cut, Value.follow_cons]
  · next head whole =>
    rw [segments_of_head whole, Value.follow_cons]
    cases Keyed.get? c.fields head <;> rfl

/-- And written as one object. -/
theorem puts_of_set? {c d : Context} {path : String} {v : Value} (written : c.set? path v = some d) :
    d.subscribers = c.subscribers ∧
      (Value.object c.fields).Puts (Value.segments path) v (.object d.fields) := by
  unfold set? at written
  split at written
  · next head whole =>
    cases written
    rw [segments_of_head whole]
    exact ⟨rfl, .last c.fields head v⟩
  · next head rest cut =>
    obtain ⟨field, there, changed⟩ := Option.bind_eq_some_iff.mp written
    obtain ⟨inner, deeper, same⟩ := Option.bind_eq_some_iff.mp changed
    cases same
    rw [segments_of_rest cut]
    refine ⟨rfl, .below ?_⟩
    rw [show Keyed.get? c.fields head = some field from there]
    exact Value.puts_of_put deeper

/-- The object of the fields stands for itself, but of a longer path it does not make up the first field. -/
theorem isSome_set?_iff (c : Context) (path : String) (v : Value) :
    (c.set? path v).isSome = true ↔
      ((headAndRest path).2.isSome = true → (Keyed.get? c.fields (headAndRest path).1).isSome = true) ∧
        (Value.object c.fields).Clear (Value.segments path) := by
  unfold set?
  split
  · next head whole =>
    rw [whole, segments_of_head whole]
    exact iff_of_true rfl ⟨nofun, (Value.isSome_put_iff _ head [] v).mp rfl⟩
  · next head rest cut =>
    obtain ⟨next, deeper, below⟩ := Value.exists_segments rest
    rw [cut, segments_of_rest cut, below, Value.clear_cons]
    cases there : Keyed.get? c.fields head with
    | none => exact iff_of_false (by simp) fun clear => absurd (clear.1 rfl) (by simp)
    | some field =>
      have inside : (field.set? rest v).isSome = true ↔ field.Clear (next :: deeper) := by
        rw [← Value.isSome_put_iff field next deeper v, Value.set?, below]
      cases written : field.set? rest v <;> simp [← inside, written]

end Context

namespace Scene
variable {κ : Type} {s : Scene κ} {context : ContextId} {path : String} {v : Value}

def modifyContext (s : Scene κ) (context : ContextId) (f : Context → Context) : Scene κ :=
  { s with contexts := s.contexts.modify context.index f }

theorem contextAt?_modifyContext (s : Scene κ) (context other : ContextId) (f : Context → Context) :
    (s.modifyContext context f).contextAt? other =
      if context = other then (s.contextAt? other).map f else s.contextAt? other := by
  obtain ⟨i⟩ := context
  obtain ⟨j⟩ := other
  simp only [modifyContext, contextAt?, Arena.get?_modify, ContextId.mk.injEq]

/-- Through a context that has been written the value is read at the path and all else as before. -/
theorem contextField_of_written {c d : Context} (there : s.contextAt? context = some c)
    (written : c.set? path v = some d) :
    (s.modifyContext context fun _ => d).contextField context path = v ∧
    ∀ other, ¬Value.segments other <+: Value.segments path → ¬Value.segments path <+: Value.segments other →
      (s.modifyContext context fun _ => d).contextField context other = s.contextField context other := by
  obtain ⟨-, puts⟩ := Context.puts_of_set? written
  have read (other : String) : (s.modifyContext context fun _ => d).contextField context other =
      ((Value.object d.fields).get? other).getD .undefined := by
    rw [contextField, contextAt?_modifyContext, if_pos rfl, there, Option.map_some, Option.bind_some,
      Context.get?_eq]
  refine ⟨?_, fun other above below => ?_⟩
  · rw [read, Value.get?, puts.there, Option.getD_some]
  · rw [read, Value.get?, puts.apart _ above below, contextField, there, Option.bind_some, Context.get?_eq,
      Value.get?]

end Scene

section Fields
variable {κ σ : Type} {context : ContextId} {path : String} {v : Value} {w : World κ σ}
  (answer : (c : Call κ) → World κ σ → Option (c.Answer × World κ σ))

theorem Act.run_setContextField_refused
    (refused : (w.scene.contextAt? context).bind (·.set? path v) = none) :
    (setContextField context path v).run answer w = some (false, w) := by
  simp only [setContextField, Bind.bind, scene, Act.bind, run, refused, Pure.pure]

/-- A context that nobody is bound to is written, and nothing else happens. -/
theorem Act.run_setContextField_alone {c d : Context} (there : w.scene.contextAt? context = some c)
    (alone : c.subscribers = []) (written : c.set? path v = some d) :
    (setContextField context path v).run answer w =
      some (true, { w with scene := w.scene.modifyContext context fun _ => d }) := by
  have nobody : d.subscribers = [] := (Context.puts_of_set? written).1.trans alone
  simp only [setContextField, Bind.bind, scene, Act.bind, run, there, Option.bind_some, written,
    update, nobody, each, Pure.pure, Scene.modifyContext]

theorem Act.refused_of_run {w' : World κ σ}
    (ran : (setContextField context path v).run answer w = some (false, w')) :
    (w.scene.contextAt? context).bind (·.set? path v) = none := by
  rw [Option.eq_none_iff_forall_ne_some]
  intro d written
  -- Once the context has been written, the answer is yes, whatever its subscribers do.
  have done : ∀ m : Act κ Unit, ((m.bind fun _ => pure true).run answer
      { w with scene := w.scene.modifyContext context fun _ => d }) ≠ some (false, w') := by
    intro m ended
    rw [run_bind] at ended
    obtain ⟨_, _, last⟩ := Option.bind_eq_some_iff.mp ended
    cases last
  apply done (each d.subscribers fun id => routeChange id context (headAndRest path).1)
  simpa only [setContextField, Bind.bind, scene, Act.bind, run, written, update, Scene.modifyContext] using ran

theorem Act.done_iff {done : Bool} {w' : World κ σ}
    (ran : (setContextField context path v).run answer w = some (done, w')) :
    done = true ↔ ((w.scene.contextAt? context).bind (·.set? path v)).isSome = true := by
  cases done with
  | false =>
    rw [Act.refused_of_run answer ran]
    simp
  | true =>
    refine iff_of_true rfl (Option.isSome_iff_ne_none.mpr fun refused => ?_)
    rw [Act.run_setContextField_refused answer refused] at ran
    cases ran

end Fields

/-- A write at a dotted path, as it goes down in place, comes to its end exactly if the root and all
that it meets on its way are objects. If it does not, the root is as it was; if it does, the value is
found at the path, what lies neither on the path nor below is found as before, and the members of
objects keep their order. A write to a context is done exactly if there is the context, with the first
field of a longer path, and nothing but objects in the way, whoever is bound to it. One that is refused
changes nothing at all, and one to a context that nobody is bound to is answered by just this change. -/
theorem path_write_exact {κ σ : Type} (root : Value) (path : String) (v : Value) (context : ContextId)
    (answer : (c : Call κ) → World κ σ → Option (c.Answer × World κ σ)) (w : World κ σ) :
    let names := Value.segments path
    let descended := root.descend names v
    (descended.1 = true ↔ ∀ front x, front <+: names → front ≠ names →
      root.follow front = some x → x.object?.isSome = true) ∧
    (descended.1 = false → descended.2 = root) ∧
    (descended.1 = true → descended.2.get? path = some v ∧
      (∀ other, ¬Value.segments other <+: names → ¬names <+: Value.segments other →
        descended.2.get? other = root.get? other) ∧
      ∀ other xs, ¬names <+: other → root.follow other = some (.object xs) →
        ∃ ys, descended.2.follow other = some (.object ys) ∧ Keyed.names xs <+: Keyed.names ys) ∧
    root.set? path v = (if descended.1 then some descended.2 else none) ∧
    (∀ w', (Act.setContextField context path v).run answer w = some (false, w') → w' = w) ∧
    (∀ done w', (Act.setContextField context path v).run answer w = some (done, w') →
      (done = true ↔ ∃ c, w.scene.contextAt? context = some c ∧
        ((headAndRest path).2.isSome = true →
          (Keyed.get? c.fields (headAndRest path).1).isSome = true) ∧
        ∀ front x, front <+: names → front ≠ names →
          (Value.object c.fields).follow front = some x → x.object?.isSome = true)) ∧
    ∀ c, w.scene.contextAt? context = some c → c.subscribers = [] →
      ∃ done w', (Act.setContextField context path v).run answer w = some (done, w') ∧
        (done = true →
          w'.scene.contextField context path = v ∧
          (∀ other, ¬Value.segments other <+: names → ¬names <+: Value.segments other →
            w'.scene.contextField context other = w.scene.contextField context other) ∧
          (∀ other xs, ¬names <+: other → (Value.object c.fields).follow other = some (.object xs) →
            ∃ d ys, w'.scene.contextAt? context = some d ∧
              (Value.object d.fields).follow other = some (.object ys) ∧
              Keyed.names xs <+: Keyed.names ys) ∧
          (∀ other, other ≠ context → w'.scene.contextAt? other = w.scene.contextAt? other) ∧
          w' = { w with scene := { w.scene with contexts := w'.scene.contexts } }) := by
  intro names descended
  have made : descended = ((root.put names v).isSome, (root.put names v).getD root) :=
    root.descend_eq names v
  obtain ⟨first, rest, split⟩ : ∃ first rest, names = first :: rest := Value.exists_segments path
  refine ⟨?_, ?_, ?_, ?_, ?_, ?_, ?_⟩
  · rw [made, split]
    exact root.isSome_put_iff first rest v
  · rw [made]
    intro stopped
    rw [Option.not_isSome_iff_eq_none.mp (Bool.eq_false_iff.mp stopped), Option.getD_none]
  · rw [made]
    intro ended
    obtain ⟨t, written⟩ := Option.isSome_iff_exists.mp ended
    rw [written, Option.getD_some]
    have puts := Value.puts_of_put written
    exact ⟨puts.there, fun other => puts.apart _, puts.order⟩
  · rw [made, Value.set?]
    cases root.put names v <;> rfl
  · intro w' ran
    rw [Act.run_setContextField_refused answer (Act.refused_of_run answer ran)] at ran
    cases ran
    rfl
  · intro done w' ran
    rw [Act.done_iff answer ran, Option.isSome_iff_exists]
    refine ⟨?_, ?_⟩
    · rintro ⟨d, written⟩
      obtain ⟨c, there, written⟩ := Option.bind_eq_some_iff.mp written
      exact ⟨c, there, (c.isSome_set?_iff path v).mp (Option.isSome_of_eq_some written)⟩
    · rintro ⟨c, there, clear⟩
      rw [there, Option.bind_some, ← Option.isSome_iff_exists]
      exact (c.isSome_set?_iff path v).mpr clear
  · intro c there alone
    cases written : c.set? path v with
    | none =>
      have refused : (w.scene.contextAt? context).bind (·.set? path v) = none := by
        rw [there, Option.bind_some, written]
      exact ⟨false, w, Act.run_setContextField_refused answer refused, nofun⟩
    | some d =>
      refine ⟨true, _, Act.run_setContextField_alone answer there alone written, fun _ => ?_⟩
      obtain ⟨value, apart⟩ := Scene.contextField_of_written there written
      refine ⟨value, apart, fun other xs below found => ?_, fun other different => ?_, rfl⟩
      · obtain ⟨ys, found, order⟩ := (Context.puts_of_set? written).2.order other xs below found
        exact ⟨d, ys, by rw [Scene.contextAt?_modifyContext, if_pos rfl, there, Option.map_some], found, order⟩
      · rw [Scene.contextAt?_modifyContext, if_neg (Ne.symm different)]

end LiveTree
