import LiveTree.Proofs.Footprint.Fields
import LiveTree.Act.Deliver

/-! The footprints of the acts that write, push, feed and deliver. -/
namespace LiveTree.Act.Touches
variable {κ : Type}

theorem localize (id : ComponentId) (key : String) (arguments : List (String × String)) :
    (Act.localize id key arguments : Act κ _).Touches [] [.apply] := by
  unfold Act.localize
  refine .bind .scene fun s => ?_
  split
  · exact .pure _
  · split
    · refine .bind (.ask _ rfl) fun v => ?_
      split <;> exact .pure _
    · exact .pure _

theorem report (id : Option ComponentId) (fault : Fault) :
    (Act.report id fault : Act κ _).Touches [.journal] [.apply] := by
  unfold Act.report
  extract_lets told
  have later (text) : (told text).Touches [.journal] [.apply] :=
    .bind .scene fun s => .ite
      (.bind (.update fun s => .put s .journal _ (by decide)) fun _ => .pure _) (.pure _)
  split
  · exact .bind ((localize _ _ _).mono (by decide)) later
  · exact .bind .scene fun s => .bind (.pure _) later

theorem note (id : Option ComponentId) (fault : Fault) :
    (Act.note id fault : Act κ _).Touches [.journal] [.apply] :=
  .bind (report id fault) fun _ => .pure _

/-- A fault that is no component's is put into words by the catalog alone. -/
theorem note_none (fault : Fault) : (Act.note none fault : Act κ _).Touches [.journal] [] := by
  have written (text : String) :
      (Act.update fun s : Scene κ => s.write fault.level text).Touches [.journal] [] :=
    .update fun s => .put s .journal _ (by decide)
  unfold Act.note Act.report
  refine .bind (.bind .scene fun s => .bind (.pure _) fun text => .bind .scene fun t => ?_) fun _ =>
    .pure _
  exact .ite (.bind (written _) fun _ => .pure _) (.pure _)

theorem log (id : ComponentId) (level : Level) (text : String) :
    (Act.log id level text : Act κ _).Touches [.journal] [] :=
  .withComponent fun _ => .bind .scene fun _ => .ite
    (.bind (.update fun s => .put s .journal _ (by decide)) fun _ => .pure _) (.pure _)

theorem noteFailure (id : ComponentId) (callback : String) (failure : Failure) :
    (Act.noteFailure id callback failure : Act κ _).Touches [.journal] [] :=
  .update fun s => .put s .journal _ (by decide)

theorem callbackAt (k : κ) (o : Occasion) : (Act.callback k o).Touches [] [o.kind] :=
  fun _ => ⟨List.mem_singleton_self o.kind, fun _ _ => trivial⟩

theorem callback (k : κ) (o : Occasion) (plain : o.kind = .callback := by rfl) :
    (Act.callback k o).Touches [] [.callback] := plain ▸ callbackAt k o

theorem registered (k : κ) : (Act.callback k .registered).Touches [] [.registered] :=
  callbackAt k .registered

theorem guardedAt (id : ComponentId) (name : String) (k : κ) (o : Occasion) :
    (Act.guarded id name k o).Touches [.journal] [o.kind] := by
  refine .bind ((callbackAt k o).mono (by simp)) fun r => ?_
  split
  · exact .pure _
  · exact (noteFailure _ _ _).mono (by simp)

theorem guarded (id : ComponentId) (name : String) (k : κ) (o : Occasion)
    (plain : o.kind = .callback := by rfl) :
    (Act.guarded id name k o).Touches [.journal] [.callback] := plain ▸ guardedAt id name k o

theorem hooked (id : ComponentId) (name : String) (k : κ) (whose : ComponentId) :
    (Act.guarded id name k (.hook whose)).Touches [.journal] [.hook] :=
  guardedAt id name k (.hook whose)

theorem listen (x : NodeId) (event : String) (l : Listener κ) :
    (Act.listen x event l).Touches [.document, .listeners] [] := by
  -- The number is that of the scene that was looked at; no call comes in between.
  refine .sceneBind fun s => ⟨?_, trivial⟩
  exact .enrol s (by simp) (by simp) (.listen s x event l)

theorem unlisten (x : NodeId) (event : String) (l : ListenerId) :
    (Act.unlisten x event l : Act κ _).Touches [.document, .listeners] [] := by
  refine .bind .scene fun _ => .bind (.update fun s => ?_) fun _ => .pure _
  exact .enrol s (by simp) (by simp) (.unlisten s x event l)

theorem unlistenAll (ls : List (NodeId × String × ListenerId)) :
    (Act.unlistenAll ls : Act κ _).Touches [.document, .listeners] [] :=
  .each ls fun _ => .bind (unlisten _ _ _) fun _ => .pure _

theorem invoke (id : ComponentId) (name : String) (arguments : List Value) :
    (Act.invoke id name arguments : Act κ _).Touches [] [.callback, .service] := by
  refine .bind .scene fun s => ?_
  split
  · exact .ask _ rfl
  · exact .ask _ rfl
  · exact .pure _

theorem notify (id : ComponentId) (name : String) (arguments : List Value) :
    (Act.notify id name arguments : Act κ _).Touches [.journal] [.callback, .service] := by
  refine .bind ((invoke id name arguments).mono (by decide)) fun r => ?_
  split
  · exact .pure _
  · exact (noteFailure _ _ _).mono (by decide)

theorem dispatch (x : NodeId) (e : Event) : (Act.dispatch x e : Act κ _).Touches [] [.deliver] :=
  .ask _ rfl

theorem modifyBinding (id : ComponentId) (site : Nat) (target : String) {f : Binding → Binding}
    (keeps : ∀ b, (f b).still = b.still) :
    (Act.modifyBinding id site target f : Act κ _).Touches [.flow] [] :=
  .modify fun c => .flow c site target keeps

theorem evaluate (id : ComponentId) (source : Source) :
    (Act.evaluate id source : Act κ _).Touches [] [.callback, .service] := by
  refine .bind .scene fun s => ?_
  split
  · exact .pure _
  · exact .pure _
  · refine .bind (invoke _ _ _) fun r => ?_
    split <;> exact .pure _

theorem modifyNotify (id : ComponentId) (name : String) :
    (Act.modify id fun c : Component κ => c.modifySlot name fun slot =>
      { slot with notify := true }).Touches [.notify] [] :=
  .modify fun c => .slotNotify c name fun _ => ⟨rfl, rfl⟩

def pushed : List Field := [.notify, .document, .tree, .texts, .listeners, .flow]

theorem installWriteBack (id : ComponentId) (site : Nat) (x : NodeId) (b : Binding) :
    (Act.installWriteBack id site x b : Act κ _).Touches pushed [] := by
  refine .bind .scene fun s => ?_
  split
  · exact .pure _
  · extract_lets installed
    have later : (installed ()).Touches pushed [] :=
      .bind ((listen _ _ _).mono (by decide)) fun _ =>
        .mono (modifyBinding _ _ _ fun _ => rfl) (by decide)
    split
    · exact .bind ((modifyNotify _ _).mono (by decide)) fun _ => later
    · exact later

theorem uninstallWriteBack (b : Binding) :
    (Act.uninstallWriteBack b : Act κ _).Touches [.document, .listeners] [] := unlistenAll _

theorem assign (x : NodeId) (b : Binding) (v : Value) :
    (Act.assign x b v : Act κ _).Touches [.document, .tree, .texts] [.write] := by
  refine .bind .scene fun s => .ite (.edit (fun d => by simp) (by decide)) ?_
  split
  · exact .bind (.ask _ rfl) fun _ => .pure _
  · exact .ite (.edit (fun d => by simp) (by decide)) (.pure _)

theorem push (id : ComponentId) (site : Nat) (target : String) :
    (Act.push id site target : Act κ _).Touches pushed [.callback, .service, .write] := by
  refine .bind .scene fun s => ?_
  extract_lets found
  clear_value found
  rcases found with _ | ⟨x, b⟩
  · exact .pure _
  · refine .ite (.pure _) ?_
    extract_lets ready marked
    have pushing (r) : (ready r).Touches pushed [.callback, .service, .write] :=
      .bind ((evaluate _ _).mono (by decide)) fun v => .ite (.pure _) <|
        .bind (.mono (modifyBinding _ _ _ fun _ => rfl) (by decide)) fun _ =>
          .bind ((assign _ _ _).mono (by decide)) fun _ =>
            .mono (modifyBinding _ _ _ fun _ => rfl) (by decide)
    have marking (r) : (marked r).Touches pushed [.callback, .service, .write] :=
      .bind (.mono (modifyBinding _ _ _ fun _ => rfl) (by decide)) pushing
    exact .ite (.ite (.bind ((installWriteBack _ _ _ _).mono (by decide)) marking) (marking ())) (pushing ())

theorem writePath (id : ComponentId) (path : String) (v : Value) :
    (Act.writePath id path v : Act κ _).Touches [] [.write] := by
  unfold Act.writePath
  split
  · exact .bind (.ask _ rfl) fun _ => .pure _
  · refine .bind .scene fun s => ?_
    split
    · exact .bind (.ask _ rfl) fun _ => .pure _
    · exact .pure _

theorem pushTexts (id : ComponentId) :
    (Act.pushTexts id : Act κ _).Touches (.lightText :: pushed) [.callback, .service, .write] := by
  refine .withComponent fun c => .bind (.modify fun c => .put c .lightText _ (by decide)) fun _ =>
    .bind .scene fun s => ?_
  extract_lets sites texts written
  have later (r) : (written r).Touches (.lightText :: pushed) [.callback, .service, .write] :=
    .each _ fun _ => ((push _ _ _).mono (by decide))
  split
  · exact .ite (.bind ((writePath _ _ _).mono (by decide)) later) (later ())
  · exact later ()

theorem pushBound (id : ComponentId) (changed : Option String) :
    (Act.pushBound id changed : Act κ _).Touches pushed [.callback, .service, .write] :=
  .withComponent fun _ => .ite (.each _ fun _ => push _ _ _) (.pure _)

theorem pushFirst (id : ComponentId) :
    (Act.pushFirst id : Act κ _).Touches (.bindingsReady :: .lightText :: pushed)
      [.callback, .service, .write] :=
  .bind (.modify fun c => .put c .bindingsReady _ (by decide)) fun _ => .bind ((pushTexts id).mono (by decide)) fun _ => (pushBound id none).mono (by decide)

theorem carryBack (id : ComponentId) (site : Nat) (target path : String) (v : Value) :
    (Act.carryBack id site target path v : Act κ _).Touches [.flow] [.write] :=
  .bind (.mono (modifyBinding _ _ _ fun _ => rfl) (by decide)) fun _ =>
    .bind ((writePath _ _ _).mono (by decide)) fun _ =>
      .mono (modifyBinding _ _ _ fun _ => rfl) (by decide)

theorem writeBack (id : ComponentId) (site : Nat) (target : String) (e : Event) :
    (Act.writeBack id site target e : Act κ _).Touches [.flow] [.write] := by
  refine .bind .scene fun s => ?_
  split
  · exact .pure _
  · exact .ite (carryBack _ _ _ _ _) (.pure _)

def rebound : List Field := .bindings :: .boundProperties :: pushed

theorem addBinding (id : ComponentId) (expression target stableId : String) :
    (Act.addBinding id expression target stableId : Act κ _).Touches rebound
      [.callback, .service, .write] := by
  unfold Act.addBinding
  extract_lets text
  split
  · exact .pure _
  · refine .withComponent fun c => ?_
    split
    · exact .pure _
    · refine .bind (.modify fun c => (Component.Alike.rebound c _).mono (by decide)) fun _ => ?_
      refine .bind (.each _ fun b => ((uninstallWriteBack b).mono (by decide))) fun _ => ?_
      exact .ite (.bind ((push _ _ _).mono (by decide)) fun _ => .pure _) (.pure _)

theorem removeBinding (id : ComponentId) (expression target stableId : String) :
    (Act.removeBinding id expression target stableId : Act κ _).Touches rebound [] := by
  refine .withComponent fun c => ?_
  split
  · exact .pure _
  · split
    · exact .pure _
    · have erased := Component.Alike.rebound (κ := κ)
      exact .ite (.bind (.modify fun c => (erased c _).mono (by decide)) fun _ => .bind ((uninstallWriteBack _).mono (by decide)) fun _ => .pure _)
        (.pure _)

theorem createContext (fields : Keyed Value) :
    (Act.createContext fields : Act κ _).Touches [.contexts] [] :=
  .bind .scene fun _ => .bind (.update fun s => .put s .contexts _ (by decide)) fun _ => .pure _

theorem pushFeed (id : ComponentId) (context : ContextId) (f : Feed) :
    (Act.pushFeed id context f : Act κ _).Touches [] [.write] :=
  .bind .scene fun _ => .ite (.bind (.ask _ rfl) fun _ => .pure _) (.pure _)

theorem routeChange (id : ComponentId) (context : ContextId) (root : String) :
    (Act.routeChange id context root : Act κ _).Touches [] [.write] := by
  refine .withComponent fun c => ?_
  split
  · exact .ite (.each _ fun f => pushFeed id context f) (.pure _)
  · exact .pure _

theorem setContextField (context : ContextId) (path : String) (v : Value) :
    (Act.setContextField context path v : Act κ _).Touches [.contexts] [.write] := by
  refine .bind .scene fun s => ?_
  split
  · exact .pure _
  · exact .bind (.update fun s => .put s .contexts _ (by decide)) fun _ =>
      .bind (.each _ fun id => ((routeChange id _ _).mono (by decide))) fun _ =>
      .pure _

theorem pushFeeds (id : ComponentId) : (Act.pushFeeds id : Act κ _).Touches [] [.write] := by
  refine .withComponent fun c => ?_
  split
  · exact .each _ fun f => pushFeed _ _ f
  · exact .done _

theorem writeBackProperty (id : ComponentId) (property : String) :
    (Act.writeBackProperty id property : Act κ _).Touches [.writingBack, .contexts] [.write] := by
  refine .withComponent fun c => ?_
  split
  · split
    · have marking (b : Bool) : (Act.modify id fun c : Component κ => { c with writingBack := b }).Touches
          [.writingBack, .contexts] [.write] := .modify fun c => .put c .writingBack _ (by decide)
      exact .ite (.bind (marking _) fun _ => .bind ((setContextField _ _ _).mono (by decide)) fun _ => marking _) (.pure _)
    · exact .pure _
  · exact .pure _

def tied : List Field := [.link, .document, .listeners, .contexts]

theorem unbindContext (id : ComponentId) : (Act.unbindContext id : Act κ _).Touches tied [] := by
  refine .withComponent fun c => .bind (.modify fun c => .put c .link _ (by decide)) fun _ => ?_
  split
  · exact .bind ((unlistenAll _).mono (by decide)) fun _ => .update fun s => .put s .contexts _ (by decide)
  · exact .pure _

theorem listenForContext (x : NodeId) (context : ContextId) (events : List (String × String)) :
    (Act.listenForContext x context events : Act κ _).Touches [.document, .listeners] [] := by
  induction events with
  | nil => exact .pure _
  | cons e rest ih => exact .bind (listen _ _ _) fun _ => .bind ih fun _ => .pure _

theorem bindContext (id : ComponentId) (context : ContextId) :
    (Act.bindContext id context : Act κ _).Touches tied [.write] := by
  refine .bind .scene fun s => .ite (.pure _) (.withComponent fun c => ?_)
  refine .bind ((unbindContext id).mono (by decide)) fun _ => .bind .scene fun s => ?_
  refine .bind ((listenForContext _ _ _).mono (by decide)) fun ls =>
    .bind (.modify fun c => .put c .link _ (by decide)) fun _ => ?_
  exact .bind (.update fun s => .put s .contexts _ (by decide)) fun _ => .bind ((pushFeeds id).mono (by decide)) fun _ => .pure _

theorem resolveContext (id : ComponentId) :
    (Act.resolveContext id : Act κ _).Touches tied [.write] := by
  refine .bind .scene fun s => ?_
  split
  · exact .pure _
  · split
    · exact .bind (bindContext _ _) fun _ => .pure _
    · exact .modify fun c => .put c .link _ (by decide)

theorem registerContext (name : String) (context : ContextId) :
    (Act.registerContext name context : Act κ _).Touches (.namedContexts :: tied) [.write] :=
  .bind (.update fun s => .put s .namedContexts _ (by decide)) fun _ => .bind .scene fun _ =>
    .each _ fun _ => .bind ((bindContext _ _).mono (by decide)) fun _ => .pure _

theorem resolveWaiting : (Act.resolveWaiting : Act κ _).Touches tied [.write] := by
  refine .bind .scene fun s => .each _ fun w => .bind .scene fun s => ?_
  split
  · exact .bind (bindContext _ _) fun _ => .pure _
  · exact .pure _

theorem refresh (id : ComponentId) :
    (Act.refresh id : Act κ _).Touches (.lightText :: pushed) [.callback, .service, .write] :=
  .withComponent fun _ => .ite
    (.bind (pushTexts id) fun _ => .bind ((pushBound id none).mono (by decide)) fun _ => (pushFeeds id).mono (by decide))
    (.pure _)

theorem refuse (id : ComponentId) (fault : Fault) :
    (Act.refuse id fault : Act κ _).Touches [.journal] [.apply] :=
  .bind (report _ _) fun _ => .pure _

theorem validated (id : ComponentId) (p : Property) (old v : Value) :
    (Act.validated id p old v : Act κ _).Touches [.journal] [.callback, .service] := by
  unfold Act.validated
  split
  · exact .pure _
  · refine .bind ((invoke _ _ _).mono (by decide)) fun r => ?_
    split
    · exact .pure _
    · exact .bind ((noteFailure _ _ _).mono (by decide)) fun _ => .pure _

theorem reflect (x : NodeId) (p : Property) (v : Value) :
    (Act.reflect x p v : Act κ _).Touches [.document] [] := by
  unfold Act.reflect
  cases Codec.write p.kind p.nullable v with
  | none => exact .mark (by simp) (by simp) (by simp) (by decide)
  | some text => exact .mark (by simp) (by simp) (by simp) (by decide)

theorem tellOfChange (id : ComponentId) (p : Property) (old new : Value) :
    (Act.tellOfChange id p old new : Act κ _).Touches [.changing, .journal]
      [.callback, .service] := by
  refine .withComponent fun c => .bind (.modify fun c => .put c .changing _ (by decide)) fun _ => ?_
  extract_lets restored watched observed
  have restoring (r) : (restored r).Touches [.changing, .journal] [.callback, .service] :=
    .modify fun c => .put c .changing _ (by decide)
  have watching (r) : (watched r).Touches [.changing, .journal] [.callback, .service] := by
    unfold watched
    split
    · exact .bind ((callback _ _).mono (by decide)) fun _ => restoring ()
    · exact restoring ()
  have observing (r) : (observed r).Touches [.changing, .journal] [.callback, .service] := by
    unfold observed
    split
    · exact .bind ((notify _ _ _).mono (by decide)) watching
    · exact watching ()
  split
  · exact .bind ((guarded _ _ _ _).mono (by decide)) observing
  · exact observing ()

theorem announce (x : NodeId) (p : Property) (old new : Value) :
    (Act.announce x p old new : Act κ _).Touches [] [.deliver] :=
  .bind .scene fun _ => .ite (dispatch _ _) (.pure _)

def spreading : List Field := .changing :: .journal :: .writingBack :: .contexts :: pushed

theorem spread (id : ComponentId) (p : Property) (c : Component κ) (slot : Slot) (old v : Value)
    (origin : Origin) : (Act.spread id p c slot old v origin).Touches spreading
      [.callback, .service, .deliver, .write] :=
  composes.spread ((reflect _ _ _).mono (by decide)) ((tellOfChange _ _ _ _).mono (by decide))
    ((announce _ _ _ _).mono (by decide)) ((pushBound _ _).mono (by decide))
    ((writeBackProperty _ _).mono (by decide)) slot

theorem modifyValue (id : ComponentId) (name : String) {f : Slot → Slot}
    (keeps : ∀ slot, (f slot).notify = slot.notify) :
    (Act.modify id fun c : Component κ => c.modifySlot name f).Touches [.values] [] :=
  .modify fun c => .slotValues c name keeps

theorem commit (id : ComponentId) (p : Property) (old v : Value) (origin : Origin) :
    (Act.commit id p old v origin : Act κ _).Touches (.values :: spreading)
      [.callback, .service, .deliver, .write] :=
  composes.commit (.mono (modifyValue _ _ fun _ => rfl) (by decide)) fun _ _ =>
    (spread _ _ _ _ _ _ _).mono (by decide)

theorem attempt (id : ComponentId) (p : Property) (v : Value) (origin : Origin) :
    (Act.attempt id p v origin : Act κ _).Touches (.values :: spreading)
      [.apply, .callback, .service, .deliver, .write] :=
  composes.attempt (fun _ => (refuse _ _).mono (by decide))
    (fun _ => (validated _ _ _ _).mono (by decide)) fun _ _ => (commit _ _ _ _ _).mono (by decide)

theorem write (id : ComponentId) (property : String) (v : Value) (origin : Origin) :
    (Act.write id property v origin : Act κ _).Touches (.values :: spreading)
      [.apply, .callback, .service, .deliver, .write] :=
  composes.write (fun _ => .mono (modifyValue _ _ fun _ => rfl) (by decide)) fun _ => attempt _ _ _ _

theorem attributeChanged (id : ComponentId) (attr : String) (text : Option String) :
    (Act.attributeChanged id attr text : Act κ _).Touches [] [.write] := by
  refine .withComponent fun c => .ite (.pure _) (.bind .scene fun s => ?_)
  split
  · exact .pure _
  · exact .ite (.pure _) (.bind (.ask _ rfl) fun _ => .pure _)

theorem setAttribute (x : NodeId) (attr text : String) :
    (Act.setAttribute x attr text : Act κ _).Touches [.document] [.write] := by
  refine .bind (.mark (by simp) (by simp) (by simp) (by decide)) fun _ => .bind .scene fun s => ?_
  split
  · exact (attributeChanged _ _ _).mono (by decide)
  · exact .pure _

theorem removeAttribute (x : NodeId) (attr : String) :
    (Act.removeAttribute x attr : Act κ _).Touches [.document] [.write] := by
  refine .bind .scene fun s => .bind (.mark (by simp) (by simp) (by simp) (by decide)) fun _ => ?_
  split
  · exact (attributeChanged _ _ _).mono (by decide)
  · exact .pure _

theorem hear (l : Listener κ) (e : Event) :
    (Act.hear l e).Touches [.flow, .journal] [.callback, .service, .write, .apply] := by
  unfold Act.hear
  split
  · exact .bind ((callback _ _).mono (by decide)) fun _ => .pure _
  · exact (notify _ _ _).mono (by decide)
  · exact (writeBack _ _ _ _).mono (by decide)
  · refine .bind .scene fun s => ?_
    split
    · exact .bind (.ask _ rfl) fun _ => .pure _
    · exact .pure _

theorem deliver (x : NodeId) (e : Event) :
    (Act.deliver x e : Act κ _).Touches [.flow, .journal]
      [.callback, .service, .write, .apply, .deliver] := by
  unfold Act.deliver
  extract_lets e'
  refine .bind .scene fun s => .bind (.each _ fun id => .bind .scene fun s => ?_) fun _ =>
    .bind .scene fun s => .ite ?_ (.pure _)
  · split
    · exact (hear _ _).mono (by decide)
    · exact .pure _
  · split
    · exact .ask _ rfl
    · exact .pure _

theorem addMessages (id : ComponentId) (locale : String) (added : Keyed Value) :
    (Act.addMessages id locale added : Act κ _).Touches [] [.write] := by
  refine .bind .scene fun s => .bind (.ask _ rfl) fun r => ?_
  split <;> exact .pure _

theorem service (s : Service) (id : ComponentId) (arguments : List Value) :
    (Act.service s id arguments : Act κ _).Touches (.journal :: rebound)
      [.apply, .write, .callback, .service] := by
  unfold Act.service
  extract_lets text
  split
  · exact .bind ((log _ _ _).mono (by decide)) fun _ => .pure _
  · exact .bind ((localize _ _ _).mono (by decide)) fun _ => .pure _
  · split
    · exact (addMessages _ _ _).mono (by decide)
    · exact .pure _
  · exact .bind ((addBinding _ _ _ _).mono (by decide)) fun _ => .pure _
  · exact .bind ((removeBinding _ _ _ _).mono (by decide)) fun _ => .pure _

end LiveTree.Act.Touches
