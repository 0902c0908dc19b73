import Apiary.Host.Call
import Apiary.Proofs.Host.Step

/-!
Properties that the host functions inherit from the few acts that they are made of. Three of the functions do
more than that: remembering and sleeping can break a run by themselves, and signals are read.
-/

namespace Apiary

open DeskAct

theorem ImageError.message_ne (what : String) (e : ImageError) : what ++ e.message ≠ "Invalid assignment target" := by
  cases e <;> exact ne_badTarget_of_tail (by decide)

/-- A property of acts that binding keeps, and that the acts have which all host functions are made of. An act
may look at the context of its run and change it, but not at the number of the run; it takes no array away. -/
structure DeskAct.Inherited {τ : Type} (st : Station τ) (P : ∀ ⦃α : Type⦄, DeskAct τ α → Prop) :
    Prop where
  ret {α : Type} (x : α) : P (pure x : DeskAct τ α)
  bind {α β : Type} {a : DeskAct τ α} {f : α → DeskAct τ β} : P a → (∀ x, P (f x)) → P (a >>= f)
  interrupt {α : Type} {e : Interrupt} : e.Plain → e ≠ .badTarget → P (throw e : DeskAct τ α)
  convert {α : Type} (values : List Value) (f : Heap → Option α) :
    P (HostAct.convert values f : DeskAct τ α)
  alloc {α : Type} (f : Heap → α × Heap) (hf : ∀ h : Heap, h.arrays.size ≤ (f h).2.arrays.size) :
    P (HostAct.alloc f : DeskAct τ α)
  context {α : Type} {k : RunContext Nat → DeskAct τ α} :
    (∀ c, P (k c)) → (∀ c n, k { c with run := n } = k c) → P (context >>= k)
  setContext {α : Type} {f : RunContext Nat → α × RunContext Nat} :
    (∀ c : RunContext Nat, c.Alike (f c).2) →
    (∀ c n, f { c with run := n } = ((f c).1, { (f c).2 with run := n })) →
    P (setContext f : DeskAct τ α)
  served : P st.served
  time : P (time st)
  isRunning : P (isRunning st)
  emit (kind : LogKind) (message : String) : P (st.emit kind message)
  tellPlot (e : PlotEvent) : P (tell (st.sink.plot e))
  tellCheckpoint (model path : String) (image : Bytes) :
    P (do
      let c ← DeskAct.context
      tell (st.sink.checkpoint ⟨UInt64.ofNat c.run, model, path, image⟩))
  ask (message : String) : P (ask st message)
  adopt (code : CodeBuffer) : P (adopt st (pure ()) code)
  adoptNoted (kind : LogKind) (message : String) (code : CodeBuffer) :
    P (DeskAct.adopt st (st.emit kind message) code)

namespace DeskAct.Inherited

variable {τ α : Type} {st : Station τ} {P : ∀ ⦃α : Type⦄, DeskAct τ α → Prop} (hP : Inherited st P)

include hP

section Step

theorem map {β : Type} (f : α → β) {a : DeskAct τ α} (ha : P a) : P (f <$> a) := by
  rw [map_eq_pure_bind]
  exact hP.bind ha fun x => hP.ret (f x)

theorem fail {text : String} (hne : text ≠ "Invalid assignment target") :
    P (HostAct.fail text : DeskAct τ α) :=
  hP.interrupt trivial fun h => hne (by cases h; rfl)

theorem look (f : Heap → α) : P (HostAct.look f : DeskAct τ α) := 
  hP.alloc (fun h => (f h, h)) fun _ => Nat.le_refl _

theorem update (f : Heap → Heap) (hf : ∀ h : Heap, h.arrays.size ≤ (f h).arrays.size) :
    P (HostAct.update f : DeskAct τ Unit) :=
  hP.alloc (fun h => ((), f h)) hf

theorem number (v : Value) : P (HostAct.number v : DeskAct τ Double) := hP.convert _ _

theorem single (v : Value) : P (HostAct.single v : DeskAct τ Single) :=
  hP.bind (hP.number v) fun _ => hP.ret _

theorem display (v : Value) : P (HostAct.display v : DeskAct τ String) := hP.convert _ _

theorem json (v : Value) : P (HostAct.json v : DeskAct τ Json) := hP.convert _ _

theorem ofShape (r : Except ShapeError α) : P (HostAct.ofShape r : DeskAct τ α) := by
  cases r with
  | ok a => exact hP.ret a
  | error e => exact hP.fail e.message_ne

theorem modifyContext {f : RunContext Nat → RunContext Nat} (ha : ∀ c : RunContext Nat, c.Alike (f c))
    (hn : ∀ c n, f { c with run := n } = { f c with run := n }) : P (modifyContext f : DeskAct τ Unit) :=
  hP.setContext ha fun c n => congrArg (Prod.mk ()) (hn c n)

theorem draw (f : Prng → α × Prng) : P (draw f : DeskAct τ α) :=
  hP.setContext (fun _ => ⟨rfl, rfl, rfl, rfl⟩) fun _ _ => rfl

theorem drawShape (f : Prng → Except ShapeError (α × Prng)) : P (drawShape f : DeskAct τ α) := by
  refine hP.context (fun c => hP.bind (hP.ofShape (f c.generator)) fun (a, g) => ?_) fun _ _ => rfl
  exact hP.bind (hP.modifyContext (fun _ => ⟨rfl, rfl, rfl, rfl⟩) fun _ _ => rfl) fun _ => hP.ret a

end Step

section Argument

theorem fieldOf (v : Value) (key : String) : P (fieldOf v key) := by
  unfold DeskAct.fieldOf
  split
  · exact hP.look _
  · exact hP.ret _

theorem sizeOr (default : Nat) (v : Value) : P (sizeOr default v) :=
  hP.bind (hP.number v) fun _ => hP.ret _

theorem numberOr (default : Double) (v : Value) : P (numberOr default v) := by
  unfold DeskAct.numberOr
  split
  · exact hP.number v
  · exact hP.ret _

theorem difficulty (task : Value) : P (difficulty task) :=
  hP.bind (hP.fieldOf task _) fun v => hP.numberOr 0 v

theorem networkConfig (v : Value) : P (networkConfig v) := by
  refine hP.bind (hP.fieldOf v _) fun x => hP.bind (hP.sizeOr _ x) fun inputs => ?_
  refine hP.bind (hP.fieldOf v _) fun x => hP.bind (hP.sizeOr _ x) fun outputs => ?_
  refine hP.bind (hP.fieldOf v _) fun x => hP.bind (hP.sizeOr _ x) fun hidden => ?_
  refine hP.bind (hP.fieldOf v _) fun x => hP.bind (hP.numberOr _ x) fun capacity => ?_
  refine hP.bind (hP.fieldOf v _) fun x => ?_
  dsimp only
  split
  · exact hP.bind (hP.single x) fun _ => hP.ret _
  · exact hP.bind (hP.ret _) fun _ => hP.ret _

theorem numbers (v : Value) : P (numbers v) := by
  unfold DeskAct.numbers
  split
  · exact hP.convert _ _
  · exact hP.look _
  · exact hP.ret _

theorem shape (v : Value) : P (shape v) := by
  unfold DeskAct.shape
  dsimp only
  split
  case' h_1 => refine hP.bind (hP.ret _) ?_
  case' h_2 => refine hP.bind (hP.numbers _) ?_
  all_goals
    intro dims
    split
    · exact hP.ret _
    · exact hP.ofShape _

theorem singles (v : Value) : P (singles v) := hP.bind (hP.convert _ _) fun _ => hP.ret _

theorem fieldsOf (v : Value) : P (fieldsOf v) := by
  unfold DeskAct.fieldsOf
  split
  · exact hP.look _
  · exact hP.ret _

theorem network? (v : Value) : P (network? v) := by
  unfold DeskAct.network?
  split
  · exact hP.look _
  · exact hP.ret _

theorem textOf? (v : Value) (key : String) : P (textOf? v key) := by
  refine hP.bind (hP.fieldOf v key) fun f => ?_
  split
  · exact hP.ret _
  · exact hP.map _ (hP.display f)

theorem newObject (fields : List (String × Value)) : P (newObject fields) := hP.alloc _ fun _ => by simp

theorem newArray (items : List Value) : P (newArray items) := hP.alloc _ fun _ => by simp

theorem newBuffer (xs : List Single) : P (newBuffer xs) := hP.alloc _ fun _ => by simp

theorem newStrings (texts : List String) : P (newStrings texts) := hP.newArray _

theorem setNetwork (cell : Nat) (n : Network) : P (setNetwork cell n) := hP.update _ fun _ => by simp

theorem drawExample (x : Double) : P (drawExample x) := hP.draw _

end Argument

section Mind

theorem changeNetwork (v : Value) {f : Network → DeskAct τ Network}
    (hf : ∀ n, P (f n)) : P (changeNetwork v f) := by
  refine hP.bind (hP.network? v) fun found => ?_
  cases found with
  | none => exact hP.ret _
  | some found => exact hP.bind (hf _) fun n => hP.bind (hP.setNetwork _ n) fun _ => hP.ret _

theorem setGoal (args : List Value) : P (setGoal args) :=
  hP.changeNetwork _ fun _ => hP.bind (hP.json _) fun _ => hP.ret _

theorem reward (args : List Value) : P (reward args) :=
  hP.changeNetwork _ fun _ => hP.bind (hP.single _) fun _ => hP.ret _

theorem selfEvaluate (args : List Value) : P (selfEvaluate args) := by
  refine hP.bind (hP.network? _) fun found => ?_
  cases found <;> exact hP.ret _

theorem retrieve (args : List Value) : P (retrieve args) := by
  refine hP.bind (hP.network? _) fun found => ?_
  cases found with
  | none => exact hP.ret _
  | some found =>
    refine hP.bind (hP.display _) fun key => ?_
    split
    · exact hP.alloc _ (Heap.size_ofJson _)
    · exact hP.ret _

theorem forget (args : List Value) : P (forget args) := by
  refine hP.bind (hP.network? _) fun found => ?_
  cases found with
  | none => exact hP.ret _
  | some found =>
    dsimp only
    split
    · exact hP.bind (hP.setNetwork _ _) fun _ => hP.ret _
    · exact hP.bind (hP.setNetwork _ _) fun _ => hP.ret _

theorem optimizeObjective (args : List Value) : P (optimizeObjective args) :=
  hP.changeNetwork _ fun _ => hP.ret _

theorem distill (args : List Value) : P (distill args) := by
  refine hP.bind (hP.network? _) fun source => hP.bind (hP.network? _) fun student => ?_
  split
  · exact hP.bind (hP.setNetwork _ _) fun _ => hP.ret _
  · exact hP.ret _

theorem overclock (args : List Value) : P (overclock st args) := by
  refine hP.bind (hP.network? _) fun found => ?_
  cases found with
  | none => exact hP.ret _
  | some found => exact hP.bind (hP.setNetwork _ _) fun _ => hP.bind (hP.emit _ _) fun _ => hP.ret _

theorem createNode (args : List Value) : P (createNode args) :=
  hP.bind (hP.display _) fun _ => hP.bind (hP.json _) fun _ =>
    hP.bind (hP.modifyContext (fun _ => ⟨rfl, rfl, rfl, rfl⟩) fun _ _ => rfl) fun _ => hP.ret _

theorem link (args : List Value) : P (link args) := by
  unfold DeskAct.link
  dsimp only
  split
  case' h_1 => refine hP.bind (hP.ret _) ?_
  case' h_2 => refine hP.bind (hP.number _) ?_
  all_goals
    intro weight
    refine hP.bind (hP.display _) fun source => hP.bind (hP.display _) fun target => ?_
    refine hP.bind (hP.display _) fun relation => ?_
    exact hP.bind (hP.modifyContext (fun _ => ⟨rfl, rfl, rfl, rfl⟩) fun _ _ => rfl) fun _ => hP.ret _

theorem queryGraph (args : List Value) : P (queryGraph args) :=
  hP.bind (hP.display _) fun _ => hP.bind (hP.display _) fun _ =>
    hP.context (fun _ => hP.newStrings _) fun _ _ => rfl

end Mind

section Model

theorem makeNetwork (name : String) (c : NetworkConfig) : P (makeNetwork name c) :=
  hP.bind (hP.draw _) fun _ => hP.ofShape _

theorem newNetwork (name : String) (c : NetworkConfig) : P (newNetwork name c) :=
  hP.bind (hP.makeNetwork name c) fun _ => hP.alloc _ fun _ => by simp

theorem newTensor (init : TensorInit) (args : List Value) : P (newTensor init args) :=
  hP.bind (hP.shape _) fun _ => hP.bind (hP.drawShape _) fun _ => hP.alloc _ fun _ => by simp

theorem newLinear (config : Value) : P (newLinear config) :=
  hP.bind (hP.fieldOf config _) fun v => hP.bind (hP.sizeOr _ v) fun _ =>
    hP.bind (hP.fieldOf config _) fun v => hP.bind (hP.sizeOr _ v) fun _ =>
      hP.bind (hP.drawShape _) fun _ => hP.alloc _ fun _ => by simp

theorem newMind (args : List Value) : P (newMind args) := by
  refine hP.bind (hP.display _) fun name => hP.bind (hP.networkConfig _) fun config => ?_
  refine hP.bind (hP.newNetwork name config) fun v => ?_
  dsimp only
  split
  · exact hP.bind (hP.modifyContext (fun _ => ⟨rfl, rfl, rfl, rfl⟩) fun _ _ => rfl) fun _ => hP.ret _
  · exact hP.bind (hP.ret _) fun _ => hP.ret _

theorem orFail (what : String) (r : Except ImageError α) : P (orFail what r) := by
  cases r with
  | ok a => exact hP.ret a
  | error e => exact hP.fail (e.message_ne what)

theorem saveNetwork (n : Network) (path : String) : P (saveNetwork st n path) := by
  refine hP.bind (hP.orFail _ _) fun image => ?_
  exact hP.bind (hP.modifyContext (fun _ => ⟨rfl, rfl, rfl, rfl⟩) fun _ _ => rfl) fun _ =>
    hP.tellCheckpoint n.name path image

theorem saveModel (args : List Value) : P (saveModel st args) := by
  refine hP.bind (hP.display _) fun path => hP.bind (hP.network? _) fun found => ?_
  cases found with
  | none => exact hP.bind (hP.ret _) fun _ => hP.bind (hP.emit _ _) fun _ => hP.ret _
  | some found =>
    refine hP.bind (hP.saveNetwork _ _) fun _ => hP.bind (hP.ret _) fun name => ?_
    exact hP.bind (hP.emit _ _) fun _ => hP.ret _

theorem loadModel (args : List Value) : P (loadModel st args) := by
  refine hP.bind (hP.display _) fun path => hP.context (fun c => ?_) fun _ _ => rfl
  split
  · exact hP.ret _
  · exact hP.bind (hP.orFail _ _) fun _ => hP.alloc _ fun _ => by simp

theorem makeAgents (c : NetworkConfig) (i : Nat) (generators : List Prng) :
    P (makeAgents c i generators) := by
  induction generators generalizing i with
  | nil => exact hP.ret _
  | cons g rest ih => exact hP.bind (hP.ofShape _) fun _ => hP.bind (ih (i + 1)) fun _ => hP.ret _

theorem allocNetworks (ns : List Network) : P (allocNetworks ns) := by
  induction ns with
  | nil => exact hP.ret _
  | cons n rest ih => exact hP.bind (hP.alloc _ fun _ => by simp) fun _ => hP.bind ih fun _ => hP.ret _

theorem newPopulation (args : List Value) : P (newPopulation args) := by
  refine hP.bind (hP.number _) fun x => iteInduction (fun _ => hP.fail ?_) fun _ => ?_
  · simp only [String.append_assoc]
    exact ne_badTarget_of_head (by decide)
  refine hP.bind (hP.networkConfig _) fun config => hP.bind (hP.draw _) fun generators => ?_
  exact hP.bind (hP.makeAgents _ _ _) fun agents =>
    hP.bind (hP.allocNetworks agents) fun vs => hP.newArray vs

theorem mutateNetwork (args : List Value) : P (mutateNetwork args) := by
  refine hP.bind (hP.network? _) fun found => ?_
  cases found with
  | none => exact hP.ret _
  | some found => exact hP.bind (hP.single _) fun _ => hP.bind (hP.setNetwork _ _) fun _ => hP.ret _

theorem givenTarget (task : Value) : P (givenTarget task) := by
  refine hP.bind (hP.fieldOf task _) fun t => ?_
  split
  · exact hP.bind (hP.fieldOf t _) fun _ => hP.singles _
  · refine hP.bind (hP.fieldOf task _) fun v => ?_
    split
    · exact hP.ret _
    · exact hP.bind (hP.number _) fun _ => hP.bind (hP.drawExample _) fun _ => hP.ret _

theorem taskExample (n : Network) (task : Value) : P (taskExample n task) := by
  refine hP.bind (hP.fieldOf task _) fun v => hP.bind (hP.fieldOf v _) fun input => ?_
  split
  · exact hP.bind (hP.difficulty task) fun x => hP.bind (hP.drawExample x) fun _ => hP.ret _
  · exact hP.bind (hP.singles input) fun _ => hP.bind (hP.givenTarget task) fun _ => hP.ret _

theorem trainOn (cell : Nat) (n : Network) (task : Value) : P (trainOn cell n task) := by
  refine hP.bind (hP.taskExample n task) fun e => hP.bind (hP.ofShape _) fun (step, trained) => ?_
  refine hP.bind (hP.setNetwork cell trained) fun _ => hP.bind (hP.difficulty task) fun x => ?_
  exact hP.bind (hP.drawExample x) fun insight => hP.bind (hP.newBuffer _) fun _ => hP.newObject _

theorem trainTask (args : List Value) : P (trainTask args) := by
  refine hP.bind (hP.network? _) fun found => ?_
  cases found with
  | none => exact hP.ret _
  | some found => exact hP.trainOn _ _ _

theorem autoExpand (args : List Value) : P (autoExpand st args) := by
  refine hP.bind (hP.network? _) fun found => ?_
  cases found with
  | none => exact hP.ret _
  | some found =>
    refine hP.bind hP.time fun now => hP.bind (hP.setNetwork _ _) fun _ => ?_
    exact hP.bind (hP.ofShape _) fun _ => hP.ret _

theorem sparring (model : Value) (e : Example) : P (sparring model e) := by
  unfold DeskAct.sparring
  split
  · refine hP.bind (hP.look _) fun n => ?_
    cases n with
    | none => exact hP.ret _
    | some n => exact hP.bind (hP.ofShape _) fun _ => hP.ret _
  · refine hP.bind (hP.look _) fun l => ?_
    cases l with
    | none => exact hP.ret _
    | some l => exact hP.bind (hP.ofShape _) fun _ => hP.ret _
  · exact hP.fail (by decide)

theorem spar (args : List Value) : P (spar args) :=
  hP.bind (hP.drawExample 0) fun e => hP.bind (hP.sparring _ e) fun _ => hP.newObject _

end Model

section Live

theorem reload (x : Double) (cells : List Nat) : P (reload st x cells) := by
  induction cells with
  | nil => exact hP.ret _
  | cons cell rest ih => exact hP.bind (hP.update _ fun _ => by simp) fun _ => hP.bind (hP.emit _ _) fun _ => ih

theorem selfEdit (args : List Value) : P (selfEdit st args) := by
  refine hP.bind (hP.display _) fun target => hP.bind (hP.display _) fun replacement => ?_
  refine hP.context (fun c => ?_) fun _ _ => rfl
  split
  · exact hP.bind (hP.emit _ _) fun _ => hP.ret _
  · refine hP.bind (hP.adoptNoted _ _ _) fun _ => ?_
    dsimp only
    split
    · split
      · exact hP.context (fun _ => hP.bind (hP.reload _ _) fun _ => hP.ret _) fun _ _ => rfl
      · exact hP.bind (hP.ret _) fun _ => hP.ret _
    · exact hP.bind (hP.ret _) fun _ => hP.ret _

theorem rollback : P (rollback st) := by
  refine hP.context (fun c => ?_) fun _ _ => rfl
  split
  · exact hP.ret _
  · exact hP.bind (hP.adopt _) fun _ => hP.bind (hP.emit _ _) fun _ => hP.ret _

theorem plot (args : List Value) : P (plot st args) := by
  have hplot (v : Value) : P (plotOf v) := by
    refine hP.bind (hP.textOf? v _) fun title => hP.bind (hP.textOf? v _) fun kind => ?_
    refine hP.bind (hP.fieldOf v _) fun series => hP.bind (hP.json series) fun series => ?_
    refine hP.bind (hP.fieldOf v _) fun data => hP.bind (hP.json data) fun data => ?_
    exact hP.bind (hP.textOf? v _) fun x => hP.bind (hP.textOf? v _) fun y => hP.ret _
  exact hP.bind (hplot _) fun e => hP.bind (hP.tellPlot e) fun _ => hP.ret _

theorem requestConfirmation (args : List Value) : P (requestConfirmation st args) := by
  refine hP.bind (hP.display _) fun message => hP.bind (hP.ask message) fun slot => ?_
  split
  · exact hP.ret _
  · split
    · exact hP.ret _
    · refine hP.bind hP.isRunning fun running => ?_
      split
      · exact hP.interrupt trivial nofun
      · exact hP.interrupt trivial nofun

end Live

section Call

theorem extended (v : Value) (key : String) (value : Value) : P (extended v key value) :=
  hP.bind (hP.fieldsOf v) fun _ => hP.newObject _

theorem generateData (args : List Value) : P (generateData args) :=
  hP.bind (hP.number _) fun x => hP.bind (hP.drawExample x) fun _ => hP.bind (hP.newBuffer _) fun _ =>
    hP.bind (hP.newBuffer _) fun _ => hP.newObject _

theorem observe (args : List Value) : P (observe args) :=
  hP.bind (hP.difficulty _) fun x => hP.bind (hP.drawExample x) fun _ => hP.newBuffer _

theorem computeAdvantage (args : List Value) : P (computeAdvantage args) :=
  hP.bind (hP.numbers _) fun _ => hP.bind (hP.numbers _) fun _ => hP.newArray _

theorem sampleAction (args : List Value) : P (sampleAction args) :=
  hP.bind (hP.draw _) fun _ => hP.bind (hP.numbers _) fun _ => hP.ret _

theorem optimizeSwarm : P (optimizeSwarm (τ := τ)) := hP.bind (hP.draw _) fun _ => hP.ret _

theorem archive (args : List Value) : P (archive args) := by
  unfold DeskAct.archive
  split
  · refine hP.bind (hP.newObject _) fun entry => hP.bind (hP.fieldOf _ _) fun memory => ?_
    split
    · exact hP.bind (hP.update _ fun _ => by simp) fun _ => hP.ret _
    · exact hP.bind (hP.newArray _) fun _ => hP.bind (hP.update _ fun _ => by simp) fun _ => hP.ret _
  · exact hP.ret _

theorem normal (args : List Value) : P (normal args) := by
  have hend (mean deviation : Double) :
      P (do pure (.number (← DeskAct.draw (Prng.normal mean deviation))) : DeskAct τ Value) :=
    hP.bind (hP.draw _) fun _ => hP.ret _
  unfold DeskAct.normal
  dsimp only
  split
  · refine hP.bind (hP.ret _) fun mean => ?_
    split
    · exact hP.bind (hP.ret _) fun deviation => hend mean deviation
    · exact hP.bind (hP.number _) fun deviation => hend mean deviation
  · refine hP.bind (hP.number _) fun mean => ?_
    split
    · exact hP.bind (hP.ret _) fun deviation => hend mean deviation
    · exact hP.bind (hP.number _) fun deviation => hend mean deviation

theorem quantize (args : List Value) : P (quantize st args) :=
  hP.bind (hP.display _) fun _ => hP.bind (hP.emit _ _) fun _ => hP.ret _

theorem emitted (kind : LogKind) (message : String) (v : Value) :
    P (emitted st kind message v) := hP.bind (hP.emit _ _) fun _ => hP.ret _

theorem onFiles (args : List Value) (f : List FileNode → String → α) :
    P (onFiles st args f) := hP.bind (hP.display _) fun _ => hP.bind hP.served fun _ => hP.ret _

theorem call (f : HostFunction) (args : List Value) (hremember : f = .memoryLongTermStore → P (remember args))
    (hsignal : f = .controlGetSignal → P (getSignal st)) (hsleep : f = .utilsSleep → P (sleep st args)) :
    P (DeskAct.call st f args) := by
  have hnamed : P (call.named f args : DeskAct τ Value) :=
    hP.bind (hP.networkConfig _) fun _ => hP.newNetwork _ _
  cases f with
  | tensor | zeros | rand => exact hP.newTensor _ _
  | train | evaluate | agentsCommunicate | rlUpdatePolicy | systemAllocateThreads | visualHeatmap
  | visualPlotWeights | randomOpsPerturb | randomOpsSample | autoDiffGrad | hiveIsAlreadyRunning
  | agentsNegotiate => exact hP.ret _
  | saveModel => exact hP.saveModel args
  | loadModel => exact hP.loadModel args
  | modulesLinear => exact hP.newLinear _
  | modulesMlp | modulesTransformer | modulesCnn | modulesWorldModel | modelsWorldModel => exact hnamed
  | worldCreateEnvironment => exact hP.extended _ _ _
  | worldGenerateData => exact hP.generateData args
  | worldObserve => exact hP.observe args
  | worldAct | hiveSuperCluster => exact hP.newObject _
  | goalsSetGoal => exact hP.setGoal args
  | goalsReward => exact hP.reward args
  | goalsGenerateSubgoals | hiveScanLocalAgents => exact hP.newStrings _
  | goalsSelfEvaluate => exact hP.selfEvaluate args
  | memoryLongTermStore => exact hremember rfl
  | memoryRetrieve => exact hP.retrieve args
  | memoryForget => exact hP.forget args
  | codeSelfEdit => exact hP.selfEdit args
  | codeRollback => exact hP.rollback
  | metaOptimizeObjective => exact hP.optimizeObjective args
  | graphCreateNode => exact hP.createNode args
  | graphLink => exact hP.link args
  | graphQuery => exact hP.queryGraph args
  | graphFindPath | evoSpeciate => exact hP.newArray _
  | evoCreatePopulation => exact hP.newPopulation args
  | evoMutate => exact hP.mutateNetwork args
  | evoCrossover => exact hP.newNetwork _ _
  | rlComputeAdvantage => exact hP.computeAdvantage args
  | rlSampleAction => exact hP.sampleAction args
  | quantQuantize => exact hP.quantize args
  | quantDistill => exact hP.distill args
  | systemClearVram | gpuInit => exact hP.emitted _ _ _
  | systemOverclock => exact hP.overclock args
  | gpuDispatch => exact hP.fail (by decide)
  | filesList => exact hP.bind (hP.onFiles _ _) fun _ => hP.newStrings _
  | filesRead => exact hP.bind (hP.onFiles _ _) fun _ => hP.ret _
  | filesExists | filesIsDirectory => exact hP.map _ (hP.onFiles _ _)
  | hiveMind => exact hP.newMind args
  | hiveTrainTask => exact hP.trainTask args
  | hiveOptimizeSwarm => exact hP.optimizeSwarm
  | hiveAutoExpand => exact hP.autoExpand args
  | achaCreateCoder => exact hP.bind (hP.newArray _) fun _ => hP.extended _ _ _
  | achaArchive => exact hP.archive args
  | achaSpar => exact hP.spar args
  | utilsLog => exact hP.bind (hP.display _) fun _ => hP.emitted _ _ _
  | utilsSleep => exact hsleep rfl
  | utilsTimer => exact hP.bind hP.time fun _ => hP.ret _
  | visualPlot => exact hP.plot args
  | controlGetSignal => exact hsignal rfl
  | controlRequestConfirmation => exact hP.requestConfirmation args
  | randomOpsNormal => exact hP.normal args

end Call

end DeskAct.Inherited

end Apiary
