import LiveTree.Proofs.Footprint.Acts
import LiveTree.Request

/-! The footprints of the acts that expand, complete, connect and register. -/
namespace LiveTree.Act.Touches
variable {κ : Type}

theorem setStage (id : ComponentId) (stage : Stage) :
    (Act.setStage id stage : Act κ _).Touches [.stage] [] :=
  .modify fun c => .put c .stage _ (by decide)

theorem tellParts (id : ComponentId) (m : Moment) :
    (Act.tellParts id m : Act κ _).Touches [.parts, .journal] [.callback] := by
  refine .withComponent fun c => .bind (.modify fun c => (Component.Alike.mark c m).mono (by decide))
    fun _ => .each _ fun p => ?_
  split
  · exact (guarded _ _ _ _).mono (by decide)
  · exact .pure _

theorem runHook (id : ComponentId) (name : String) (pick : Hooks κ → Option κ) :
    (Act.runHook id name pick : Act κ _).Touches [.journal] [.hook] := by
  refine .withComponent fun c => ?_
  split
  · exact hooked _ _ _ _
  · exact .pure _

def made : List Field := [.components, .stage, .parts, .journal]

theorem instantiate (x : NodeId) (d : Definition κ) (owner : Option ComponentId) :
    (Act.instantiate x d owner : Act κ _).Touches made [.callback, .hook] := by
  refine .bind .scene fun s => .bind (.update fun s => (Scene.Alike.push s _).mono (by decide)) fun _ => ?_
  exact .bind ((setStage _ _).mono (by decide)) fun _ => .bind ((tellParts _ _).mono (by decide)) fun _ =>
      .bind ((runHook _ _ _).mono (by decide)) fun _ => .pure _

theorem createText (text : String) :
    (Act.createText text : Act κ _).Touches [.document, .tree, .texts] [] :=
  .sceneBind fun s => Touches.editTo (.edit s (Document.reworks_createText _ _)) (.pure _)

def grown : List Field := .document :: .tree :: .elements :: .texts :: made

theorem createElement (tag : String) :
    (Act.createElement tag : Act κ _).Touches grown [.callback, .hook] := by
  refine .sceneBind fun s => ?_
  have added := Scene.Alike.extend s (Document.follows_createElement s.document tag)
    (Document.listed_add _ _)
  refine Touches.editTo (added.mono (by decide)) ?_
  split
  · exact .bind ((instantiate _ _ _).mono (by decide)) fun _ => .pure _
  · exact .pure _

mutual
theorem grow (m : Markup) : (Act.grow m : Act κ _).Touches grown [.callback, .hook] := by
  cases m with
  | text text => exact (createText text).mono (by decide)
  | element tag attributes children =>
    unfold Act.grow
    have named (x : NodeId) (d : Document) :
        d.Reworks (attributes.foldl (fun d a => d.setAttribute x a.1 a.2) d) :=
      .foldl (fun d a => d.reworks_setAttribute x a.1 a.2) attributes d
    refine .bind (createElement tag) fun x => .bind (.edit (named x) (by decide)) fun _ => ?_
    exact .bind (growBelow x children) fun _ => .pure _

theorem growBelow (parent : NodeId) (ms : List Markup) :
    (Act.growBelow parent ms : Act κ _).Touches grown [.callback, .hook] := by
  cases ms with
  | nil => unfold Act.growBelow; exact .pure _
  | cons m rest =>
    unfold Act.growBelow
    refine .bind (grow m) fun x => .bind (.edit (fun d => by simp) (by decide)) fun _ => ?_
    exact .bind (growBelow parent rest) fun _ => .pure _
end

theorem growTemplate (id : ComponentId) (x : NodeId) (template : List Markup) :
    (Act.growTemplate id x template : Act κ _).Touches (.templateOwner :: grown) [.callback, .hook] :=
  .bind .scene fun _ => .bind (.update fun s => .put s .templateOwner _ (by decide)) fun _ =>
    .bind ((growBelow x template).mono (by decide)) fun _ =>
      .bind (.update fun s => .put s .templateOwner _ (by decide)) fun _ => .pure _

theorem expand (id : ComponentId) (c : Component κ) (light : List NodeId) :
    (Act.expand id c light).Touches (.templateOwner :: grown) [.callback, .hook, .apply] := by
  unfold Act.expand
  split
  · exact .pure _
  · exact .bind ((note _ _).mono (by decide)) fun _ => .pure _
  · have emptied (d : Document) :
        d.Reworks (light.foldl (fun d x => (d.removeChild? c.node x).getD d) d) :=
      .foldl (fun d x => d.reworks_removeChild c.node x) light d
    exact .bind (.edit emptied (by decide)) fun _ => .bind ((growTemplate _ _ _).mono (by decide)) fun _ =>
      .pure _

theorem layOut (x : NodeId) (template : List NodeId) :
    (Act.layOut x template : Act κ _).Touches [.document, .tree, .texts] [] :=
  .sceneBind fun s => Touches.editTo (.edit s (Document.reworks_ofTemplate _ x _ _)) (.pure _)

theorem placeLight (light : List NodeId) (content : NodeId) (t : BindingTree) :
    (Act.placeLight light content t : Act κ _).Touches [.document, .tree, .texts] [] :=
  have filled (d : Document) : d.Reworks (light.foldl (fun d x => d.appendChild content x) d) :=
    .foldl (fun d x => d.reworks_appendChild content x) light d
  .bind .scene fun _ => .ite (.pure _) (.bind (.edit filled (by decide)) fun _ => .pure _)

theorem configureAttribute (id : ComponentId) (x : NodeId) (schema : Schema) (attr : String) :
    (Act.configureAttribute id x schema attr : Act κ _).Touches [.document] [.write] := by
  refine .bind .scene fun s => ?_
  split
  · refine .ite (.pure _) ?_
    extract_lets blank v configured
    have later (r) : (configured r).Touches [.document] [.write] :=
      .ite (.bind (.ask _ rfl) fun _ => .pure _) (.pure _)
    exact .ite (.bind (.mark (by simp) (by simp) (by simp) (by decide)) later) (later ())
  · exact .pure _

theorem reflectDefault (id : ComponentId) (x : NodeId) (p : Property) :
    (Act.reflectDefault id x p : Act κ _).Touches [.document] [] :=
  .bind .scene fun _ => .ite (reflect _ _ _) (.pure _)

theorem configure (id : ComponentId) :
    (Act.configure id : Act κ _).Touches (.stage :: tied) [.write] :=
  .withComponent fun _ => .ite
    (.bind .scene fun _ => .bind (.each _ fun _ => (configureAttribute _ _ _ _).mono (by decide)) fun _ =>
      .bind ((setStage _ _).mono (by decide)) fun _ => .bind (.each _ fun _ => (reflectDefault _ _ _).mono (by decide))
        fun _ => (resolveContext id).mono (by decide))
    (.pure _)

theorem await (id child : ComponentId) :
    (Act.await id child : Act κ _).Touches [.waiters, .barrier] [] :=
  .withComponent fun _ => .ite (.bind (.modify fun c => .put c .waiters _ (by decide)) fun _ =>
    .modify fun c => .put c .barrier _ (by decide)) (.pure _)

theorem awaitNested (id : ComponentId) (x : NodeId) :
    (Act.awaitNested id x : Act κ _).Touches [.waiters, .barrier] [.connect] :=
  .bind .scene fun _ => .bind (.each _ fun _ => (await _ _).mono (by decide)) fun _ => .each _ fun _ => .ask _ rfl

def templated : List Field := .templateOwner :: .stage :: .bindings :: .flow :: .boundProperties ::
  .refs :: .content :: .lightText :: .barrier :: .waiters :: grown

theorem applyTemplate (id : ComponentId) :
    (Act.applyTemplate id : Act κ _).Touches templated [.callback, .hook, .apply, .connect, .release] := by
  refine .withComponent fun c => .ite ?_ (.pure _)
  refine .bind .scene fun s => .bind ((expand _ _ _).mono (by decide)) fun template => ?_
  refine .bind ((layOut _ _).mono (by decide)) fun laid => ?_
  obtain ⟨layout, tree⟩ := laid
  dsimp -zeta only
  extract_lets placed
  have later (text) :
      (placed text).Touches templated [.callback, .hook, .apply, .connect, .release] :=
    .bind (.modify fun c => (Component.Alike.applied c _ _ _ _).mono (by decide)) fun _ => .bind ((awaitNested _ _).mono (by decide)) fun _ => .ask _ rfl
  exact .ite (.bind ((placeLight _ _ _).mono (by decide)) later) (later _)

theorem wireEach (id : ComponentId) (ls : List (NodeId × String × String)) :
    (Act.wireEach id ls : Act κ _).Touches [.document, .listeners] [] := by
  induction ls with
  | nil => exact .pure _
  | cons l rest ih => exact .bind (listen _ _ _) fun _ => .bind ih fun _ => .pure _

theorem wire (id : ComponentId) :
    (Act.wire id : Act κ _).Touches [.wired, .document, .listeners] [] :=
  .withComponent fun _ => .ite (.bind ((wireEach _ _).mono (by decide)) fun _ =>
    .modify fun c => .put c .wired _ (by decide)) (.pure _)

theorem unwire (id : ComponentId) :
    (Act.unwire id : Act κ _).Touches [.wired, .document, .listeners] [] :=
  .withComponent fun _ => .bind (.modify fun c => .put c .wired _ (by decide)) fun _ => (unlistenAll _).mono (by decide)

theorem noteMissing (id : ComponentId) (d : Definition κ) :
    (Act.noteMissing id d).Touches [.journal] [.apply] := by
  unfold Act.noteMissing
  split
  · exact .pure _
  · exact note _ _

theorem pushOwner (owner : ComponentId) :
    (Act.pushOwner owner : Act κ _).Touches (.bindingsReady :: .lightText :: pushed)
      [.callback, .service, .write] :=
  .withComponent fun _ => .ite (pushFirst _) (.pure _)

def entered : List Field := [.stage, .parts, .journal, .wired, .document, .listeners]

theorem enter (id : ComponentId) : (Act.enter id : Act κ _).Touches entered [.callback, .hook] :=
  .bind ((setStage _ _).mono (by decide)) fun _ => .bind ((tellParts _ _).mono (by decide)) fun _ =>
    .bind ((runHook _ _ _).mono (by decide)) fun _ => (wire _).mono (by decide)

theorem tellWaiting (id : ComponentId) :
    (Act.tellWaiting id : Act κ _).Touches [.whenReady, .waiters, .journal] [.hook, .release] :=
  .bind (.withComponent fun _ => .bind (.modify fun c => .put c .whenReady _ (by decide)) fun _ =>
    .each _ fun _ => (hooked _ _ _ _).mono (by decide)) fun _ =>
  .withComponent fun _ => .bind (.modify fun c => .put c .waiters _ (by decide)) fun _ =>
    .each _ fun _ => .ask _ rfl

def fulfilled : List Field := .completed :: .whenReady :: .waiters :: .bindingsReady ::
  .lightText :: .stage :: .parts :: .journal :: .wired :: pushed

theorem complete (id : ComponentId) : (Act.complete id : Act κ _).Touches fulfilled
    [.apply, .callback, .hook, .service, .write, .release] := by
  refine .withComponent fun c => .ite (.bind .scene fun s => ?_) (.pure _)
  refine .bind ((noteMissing _ _).mono (by decide)) fun _ => .bind (.each _ fun o => (pushOwner o).mono (by decide)) fun _ => ?_
  refine .bind ((pushFirst _).mono (by decide)) fun _ => .bind ((setStage _ _).mono (by decide)) fun _ => ?_
  refine .bind ((tellParts _ _).mono (by decide)) fun _ => .bind ((runHook _ _ _).mono (by decide)) fun _ => ?_
  refine .bind ((enter _).mono (by decide)) fun _ =>
    .bind (.modify fun c => .put c .completed _ (by decide)) fun _ => ?_
  exact .bind ((runHook _ _ _).mono (by decide)) fun _ => (tellWaiting _).mono (by decide)

theorem hold (id : ComponentId) : (Act.hold id : Act κ _).Touches [.barrier] [] := by
  refine .modify fun c => ?_
  split
  · exact .refl c
  · exact .put c .barrier _ (by decide)

theorem release (id : ComponentId) : (Act.release id : Act κ _).Touches (.barrier :: fulfilled)
    [.apply, .callback, .hook, .service, .write, .release] :=
  .withComponent fun _ => .bind (.modify fun c => .put c .barrier _ (by decide)) fun _ =>
    .ite ((complete _).mono (by decide)) (.pure _)

theorem whenReady (id : ComponentId) (k : κ) :
    (Act.whenReady id k).Touches [.whenReady, .journal] [.hook] :=
  .withComponent fun _ => .ite ((hooked _ _ _ _).mono (by decide)) (.modify fun c => .put c .whenReady _ (by decide))

theorem modifyStrays (id : ComponentId) (f : List ComponentId → List ComponentId) :
    (Act.modify id fun o : Component κ => { o with strays := f o.strays }).Touches [.strays] [] :=
  .modify fun c => .put c .strays _ (by decide)

theorem addStray (id stray : ComponentId) :
    (Act.modify id fun o : Component κ => if o.strays.contains stray then o
      else { o with strays := o.strays ++ [stray] }).Touches [.strays] [] := by
  refine .modify fun o => ?_
  split
  · exact .refl o
  · exact .put o .strays _ (by decide)

theorem attach (id : ComponentId) :
    (Act.attach id : Act κ _).Touches (.strays :: entered) [.callback, .hook] := by
  refine .withComponent fun c => .bind ((enter id).mono (by decide)) fun _ => .bind .scene fun s => ?_
  split
  · exact .ite ((modifyStrays _ _).mono (by decide)) (.pure _)
  · exact .pure _

theorem detach (id : ComponentId) :
    (Act.detach id : Act κ _).Touches (.strays :: .pending :: entered) [.callback, .hook] := by
  refine .withComponent fun c => ?_
  extract_lets left
  have later (r) : (left r).Touches (.strays :: .pending :: entered) [.callback, .hook] := by
    refine .bind (.update fun s => .put s .pending _ (by decide)) fun _ => .bind .scene fun s => ?_
    split
    · exact .ite ((addStray _ _).mono (by decide)) (.pure _)
    · exact .pure _
  refine .ite ?_ (later ())
  exact .bind ((unwire _).mono (by decide)) fun _ => .bind ((setStage _ _).mono (by decide)) fun _ =>
    .bind ((tellParts _ _).mono (by decide)) fun _ => .bind ((runHook _ _ _).mono (by decide)) later

def connected : List Field := .pending :: .strays :: .wired :: .link :: .listeners ::
  .contexts :: templated

theorem connect (id : ComponentId) : (Act.connect id : Act κ _).Touches connected
    [.write, .callback, .hook, .apply, .connect, .release] := by
  refine .withComponent fun c => ?_
  split
  · refine .bind .scene fun s => .ite (.update fun s => .put s .pending _ (by decide)) ?_
    exact .bind ((configure _).mono (by decide)) fun _ => (applyTemplate _).mono (by decide)
  · exact (attach _).mono (by decide)
  · exact .pure _

theorem appendChild (parent child : NodeId) : (Act.appendChild parent child : Act κ _).Touches
    connected [.write, .callback, .hook, .apply, .connect, .release] := by
  refine .bind .scene fun s => .bind (.edit (fun d => by simp) (by decide)) fun _ => .bind .scene fun t => .ite ?_ (.pure _)
  extract_lets inside moved
  have later (r) :
      (moved r).Touches connected [.write, .callback, .hook, .apply, .connect, .release] :=
    .bind .scene fun s => .ite (.each _ fun _ => connect _) (.pure _)
  exact .ite (.bind (.each _ fun _ => (detach _).mono (by decide)) later) (later ())

theorem removeChild (parent child : NodeId) : (Act.removeChild parent child : Act κ _).Touches
    (.tree :: .strays :: .pending :: entered) [.callback, .hook] := by
  refine .sceneBind fun s => ?_
  split
  · trivial
  · next d removed =>
    have taken := Scene.Alike.move s (Document.reworks_of_removeChild? removed)
      (Document.texts_of_removeChild? _ _ removed)
    refine ⟨taken.mono (by decide), ?_⟩
    extract_lets ended
    have later (r) :
        (ended r).Touches (.tree :: .strays :: .pending :: entered) [.callback, .hook] := .pure _
    refine Touches.ite ?_ (later ()) _
    exact .bind .scene fun s => .bind (.each _ fun _ => (detach _).mono (by decide)) later

theorem beginLoading : (Act.beginLoading : Act κ _).Touches [.loading] [] :=
  .update fun s => .put s .loading _ (by decide)

theorem finishLoading : (Act.finishLoading : Act κ _).Touches (.loading :: connected)
    [.write, .callback, .hook, .apply, .connect, .release] := by
  refine .bind .scene fun s => .ite (.bind (.update fun s =>
    (Scene.Alike.put s .loading false (by decide)).trans (.put _ .pending [] (by decide))) fun _ => ?_) (.pure _)
  refine .bind (.each _ fun id => .withComponent fun c => ?_) fun _ => resolveWaiting.mono (by decide)
  exact .bind .scene fun s => .ite ((connect id).mono (by decide)) (.pure _)

theorem upgrade (d : Definition κ) (xs : List NodeId) :
    (Act.upgrade d xs).Touches made [.callback, .hook] := by
  induction xs with
  | nil => exact .pure _
  | cons x rest ih =>
    exact .bind .scene fun _ => .bind (instantiate _ _ _) fun _ => .bind ih fun _ => .pure _

theorem register (d : Definition κ) :
    (Act.register d).Touches (.definitions :: .waiting :: connected)
      [.write, .callback, .hook, .registered, .apply, .connect, .release] := by
  refine .bind .scene fun s => .ite (.pure _) ?_
  refine .bind (.each _ fun _ => (note _ _).mono (by decide)) fun _ => ?_
  refine .bind (.update fun s => ((Scene.Alike.define s _ _).mono (by decide)).trans (.put _ .waiting _ (by decide))) fun _ => ?_
  refine .bind (.each _ fun k => .bind ((registered k).mono (by decide)) fun _ => .pure _) fun _ => ?_
  refine .bind .scene fun s => .bind ((upgrade _ _).mono (by decide)) fun ids => ?_
  exact .bind (.each _ fun _ => (connect _).mono (by decide)) fun _ => .pure _

theorem whenRegistered (tag : String) (k : κ) :
    (Act.whenRegistered tag k).Touches [.waiting] [.registered] :=
  .bind .scene fun _ => .ite (.bind ((registered _).mono (by decide)) fun _ => .pure _)
    (.update fun s => .put s .waiting _ (by decide))

/-- A new capability changes the definition, the parts and the slots of components. -/
theorem addCapability (tag : String) (c : Capability κ) : (Act.addCapability tag c).Touches
    [.definitions, .definition, .values, .names, .notify, .capabilities, .parts] [] := by
  refine .bind .scene fun s => ?_
  split
  · exact .pure _
  · exact .bind (.update fun s => (Scene.Alike.define s _ _).mono (by decide)) fun _ =>
      .bind (.each _ fun _ => .modify fun c => (Component.Alike.adopt c _ _).mono (by decide)) fun _ => .pure _

theorem refuseCall (id : ComponentId) (fault : Fault) :
    (Act.refuseCall id fault : Act κ _).Touches [.journal] [.apply] :=
  .bind (report _ _) fun _ => .pure _

theorem callChecked (id : ComponentId) (name : String) (signature : Option Signature)
    (arguments : List Value) : (Act.callChecked id name signature arguments : Act κ _).Touches
      [.journal] [.apply, .callback, .service] := by
  refine .bind ((invoke _ _ _).mono (by decide)) fun r => ?_
  split
  · exact .bind ((noteFailure _ _ _).mono (by decide)) fun _ => .pure _
  · split
    · exact .bind ((report _ _).mono (by decide)) fun _ => .pure _
    · exact .pure _

theorem callMethod (id : ComponentId) (name : String) (arguments : List Value) :
    (Act.callMethod id name arguments : Act κ _).Touches [.journal]
      [.apply, .callback, .service] := by
  refine .withComponent fun c => .ite ((refuseCall _ _).mono (by decide)) (.ite ((refuseCall _ _).mono (by decide)) ?_)
  extract_lets signature
  split
  · exact (refuseCall _ _).mono (by decide)
  · exact callChecked _ _ _ _

def requested : Request κ → List Field
  | .register _ => .definitions :: .waiting :: connected
  | .whenRegistered .. => [.waiting]
  | .addCapability .. =>
    [.definitions, .definition, .values, .names, .notify, .capabilities, .parts]
  | .setDefaults _ => [.defaults]
  | .createElement _ => grown
  | .createText _ | .edit _ => [.document, .tree, .texts]
  | .appendChild .. => connected
  | .removeChild .. => .tree :: .strays :: .pending :: entered
  | .setAttribute .. | .removeAttribute .. => [.document]
  | .beginLoading => [.loading]
  | .finishLoading => .loading :: connected
  | .watch .. | .unwatch _ => [.watcher]
  | .hold _ => [.barrier]
  | .whenReady .. => [.whenReady, .journal]
  | .refresh _ => .lightText :: pushed
  | .listen .. | .unlisten .. => [.document, .listeners]
  | .createContext _ | .setContextField .. => [.contexts]
  | .registerContext .. => .namedContexts :: tied
  | .bindContext .. | .unbindContext _ => tied
  | .addBinding .. | .removeBinding .. => rebound
  | .call .. | .report .. | .log .. => [.journal]
  | .setCatalog _ => [.catalog]
  | .addGlobal .. => [.codec]
  | .set .. | .force .. | .release _ | .dispatch .. | .localize .. => []

def calling : Request κ → List Call.Kind
  | .register _ => [.write, .callback, .hook, .registered, .apply, .connect, .release]
  | .appendChild .. | .finishLoading => [.write, .callback, .hook, .apply, .connect, .release]
  | .createElement _ | .removeChild .. => [.callback, .hook]
  | .release _ => [.release]
  | .whenReady .. => [.hook]
  | .whenRegistered .. => [.registered]
  | _ => [.write, .callback, .apply, .service, .deliver]

theorem request (r : Request κ) : r.act.Touches (requested r) (calling r) := by
  cases r <;> dsimp only [requested, calling]
  case register d => exact (register d).mono (by decide)
  case whenRegistered tag k => exact (whenRegistered tag k).mono (by decide)
  case addCapability tag c => exact (addCapability tag c).mono (by decide)
  case setDefaults cs => exact .update fun s => .put s .defaults _ (by decide)
  case createElement tag => exact (createElement tag).mono (by decide)
  case createText text => exact (createText text).mono (by decide)
  case appendChild parent child => exact (appendChild parent child).mono (by decide)
  case removeChild parent child => exact (removeChild parent child).mono (by decide)
  case setAttribute x name text => exact (setAttribute x name text).mono (by decide)
  case removeAttribute x name => exact (removeAttribute x name).mono (by decide)
  case edit e => exact .edit (fun d => by simp) (by decide)
  case beginLoading => exact beginLoading.mono (by decide)
  case finishLoading => exact finishLoading.mono (by decide)
  case set => exact .ask _ rfl
  case force => exact .ask _ rfl
  case watch => exact .modify fun c => .put c .watcher _ (by decide)
  case unwatch => exact .modify fun c => .put c .watcher _ (by decide)
  case call id method arguments => exact (callMethod id method arguments).mono (by decide)
  case hold id => exact (hold id).mono (by decide)
  case release id => exact .ask _ rfl
  case whenReady id k => exact (whenReady id k).mono (by decide)
  case refresh id => exact (refresh id).mono (by decide)
  case listen x event k => exact (listen x event _).mono (by decide)
  case unlisten x event l => exact (unlisten x event l).mono (by decide)
  case dispatch x e => exact (dispatch x e).mono (by decide)
  case createContext fields => exact (createContext fields).mono (by decide)
  case registerContext name context => exact (registerContext name context).mono (by decide)
  case setContextField context path v => exact (setContextField context path v).mono (by decide)
  case bindContext id context => exact (bindContext id context).mono (by decide)
  case unbindContext id => exact (unbindContext id).mono (by decide)
  case addBinding id e target stableId => exact (addBinding id e target stableId).mono (by decide)
  case removeBinding id e target stableId => exact (removeBinding id e target stableId).mono (by decide)
  case localize id key arguments => exact (localize id key arguments).mono (by decide)
  case report id fault => exact (report id fault).mono (by decide)
  case log id level text => exact (log id level text).mono (by decide)
  case setCatalog c => exact .update fun s => .put s .catalog _ (by decide)
  case addGlobal name v => exact .update fun s => .put s .codec _ (by decide)

end LiveTree.Act.Touches
