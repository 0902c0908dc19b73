import Apiary.Host.Live
import Apiary.Host.Mind
import Apiary.Host.Model

/-!
What each host function does, and the host of a run that is made of them.
-/

namespace Apiary

namespace DeskAct

variable {τ : Type}

def extended (v : Value) (key : String) (value : Value) : DeskAct τ Value := do
  newObject (setField key value (← fieldsOf v))

def generateData (args : List Value) : DeskAct τ Value := do
  let e ← drawExample (← HostAct.number (argAt args 0))
  let input ← newBuffer e.input
  let target ← newBuffer e.target
  newObject [("input", input), ("target", target)]

def observe (args : List Value) : DeskAct τ Value := do
  let e ← drawExample (← difficulty (argAt args 1))
  newBuffer e.input

/-- Differences of two lists of numbers; a missing number is none. -/
def advantages : List Double → List Double → List Value
  | [], _ => []
  | r :: rs, vs => .number (r - vs.headD Double.nan) :: advantages rs vs.tail

def computeAdvantage (args : List Value) : DeskAct τ Value := do
  let values ← numbers (argAt args 1)
  let rewards ← numbers (argAt args 0)
  newArray (advantages rewards values)

def pick (r : Double) : Nat → Double → List Double → Option Nat
  | _, _, [] => none
  | i, sum, p :: rest => if r ≤ sum + p then some i else pick r (i + 1) (sum + p) rest

def sampleAction (args : List Value) : DeskAct τ Value := do
  let r ← draw Prng.unit64
  let ps ← numbers (argAt args 0)
  pure (.ofNat ((pick r 0 0 ps).getD 0))

def optimizeSwarm : DeskAct τ Value := do
  let u ← draw Prng.unit64
  pure (.number (0.5 + 0.5 * u))

def archive (args : List Value) : DeskAct τ Value := do
  match argAt args 0 with
  | .object cell =>
    let entry ← newObject [("label", argAt args 2), ("data", argAt args 1)]
    match ← fieldOf (.object cell) "memory" with
    | .array items => HostAct.update (·.modifyArray items (·.push entry))
    | _ =>
      let memory ← newArray [entry]
      HostAct.update (·.modifyObject cell (setField "memory" memory))
    pure .undefined
  | _ => pure .undefined

def normal (args : List Value) : DeskAct τ Value := do
  let mean ← match argAt args 0 with
    | .undefined => pure 0
    | v => HostAct.number v
  let deviation ← match argAt args 1 with
    | .undefined => pure 1
    | v => HostAct.number v
  let x ← draw (Prng.normal mean deviation)
  pure (.number x)

def quantize (st : Station τ) (args : List Value) : DeskAct τ Value := do
  let bits ← HostAct.display (argAt args 1)
  st.emit .info ("[Quant] Compressed model to " ++ bits ++ "-bit precision.")
  pure .undefined

def emitted (st : Station τ) (kind : LogKind) (message : String) (v : Value) : DeskAct τ Value := do
  st.emit kind message
  pure v

def onFiles {α : Type} (st : Station τ) (args : List Value) (f : List FileNode → String → α) :
    DeskAct τ α := do
  let path ← HostAct.display (argAt args 0)
  pure (f (← st.served) path)

def call (st : Station τ) (f : HostFunction) (args : List Value) : DeskAct τ Value := do
  match f with
  | .tensor => newTensor (initOf (argAt args 1)) args
  | .zeros => newTensor .zeros args
  | .rand => newTensor .random args
  | .train => pure .undefined
  | .evaluate => pure .undefined
  | .saveModel => saveModel st args
  | .loadModel => loadModel st args
  | .modulesLinear => newLinear (argAt args 0)
  | .modulesMlp => named
  | .modulesTransformer => named
  | .modulesCnn => named
  | .modulesWorldModel => named
  | .modelsWorldModel => named
  | .worldCreateEnvironment => extended (argAt args 0) "step" (.number 0)
  | .worldGenerateData => generateData args
  | .worldObserve => observe args
  | .worldAct => newObject [("reward", .number 0), ("done", .bool false)]
  | .goalsSetGoal => setGoal args
  | .goalsReward => reward args
  | .goalsGenerateSubgoals => newStrings ["solve_task"]
  | .goalsSelfEvaluate => selfEvaluate args
  | .memoryLongTermStore => remember args
  | .memoryRetrieve => retrieve args
  | .memoryForget => forget args
  | .codeSelfEdit => selfEdit st args
  | .codeRollback => rollback st
  | .agentsCommunicate => pure .undefined
  | .agentsNegotiate => pure (.bool true)
  | .metaOptimizeObjective => optimizeObjective args
  | .graphCreateNode => createNode args
  | .graphLink => link args
  | .graphQuery => queryGraph args
  | .graphFindPath => newArray []
  | .evoCreatePopulation => newPopulation args
  | .evoMutate => mutateNetwork args
  | .evoCrossover => newNetwork "Offspring" offspringConfig
  | .evoSpeciate => newArray [argAt args 0]
  | .rlComputeAdvantage => computeAdvantage args
  | .rlSampleAction => sampleAction args
  | .rlUpdatePolicy => pure .undefined
  | .quantQuantize => quantize st args
  | .quantDistill => distill args
  | .systemAllocateThreads => pure .undefined
  | .systemClearVram => emitted st .system "VRAM Garbage Collection Triggered." .undefined
  | .systemOverclock => overclock st args
  | .gpuInit => emitted st .error "[WebGPU] Not supported." (.bool false)
  | .gpuDispatch => HostAct.fail "GPU not initialized."
  | .filesList => do newStrings (← onFiles st args FileNode.list)
  | .filesRead => do
    let text ← onFiles st args FileNode.read
    pure ((text.map Value.string).getD .null)
  | .filesExists => Value.bool <$> onFiles st args FileNode.exists?
  | .filesIsDirectory => Value.bool <$> onFiles st args FileNode.isDirectory
  | .hiveMind => newMind args
  | .hiveTrainTask => trainTask args
  | .hiveScanLocalAgents => newStrings ["agi.gb", "llm.gb", "optimization.gb"]
  | .hiveSuperCluster => newObject [("name", .string "SuperCluster"), ("agents", argAt args 0)]
  | .hiveOptimizeSwarm => optimizeSwarm
  | .hiveIsAlreadyRunning => pure (.bool false)
  | .hiveAutoExpand => autoExpand st args
  | .achaCreateCoder => do extended (argAt args 0) "memory" (← newArray [])
  | .achaArchive => archive args
  | .achaSpar => spar args
  | .utilsLog => do emitted st .info (← HostAct.display (argAt args 0)) .undefined
  | .utilsSleep => sleep st args
  | .utilsTimer => do pure (.ofNat (← time st))
  | .visualPlot => plot st args
  | .visualHeatmap => pure .undefined
  | .visualPlotWeights => pure .undefined
  | .controlGetSignal => getSignal st
  | .controlRequestConfirmation => requestConfirmation st args
  | .randomOpsNormal => normal args
  | .randomOpsPerturb => pure .undefined
  | .randomOpsSample => pure .undefined
  | .autoDiffGrad => pure (.number 0.01)
where
  named : DeskAct τ Value := do
    newNetwork f.name (← networkConfig (argAt args 0))

end DeskAct

namespace Station

variable {τ : Type}

/-- Whether the run still goes on, as far as it can see now. -/
def goesOn (st : Station τ) : EStateM Interrupt (Desk τ) Bool := fun d =>
  let s := st.sink.meanwhile d.shared
  .ok s.controls.running ⟨d.context, s⟩

def checkpoint (st : Station τ) : EStateM Interrupt (Desk τ) Unit := do
  if ← st.goesOn then pure () else throw .stopped

def random (d : Desk τ) : Double × Desk τ :=
  let (x, g) := d.context.generator.unit64
  (x, { d with context := { d.context with generator := g } })

def logLine (st : Station τ) (kind : LogKind) (message : String) :
    EStateM Interrupt (Desk τ) Unit := fun d =>
  match st.emit kind message ⟨{}, d⟩ with
  | .ok () s => .ok () s.host
  | .error e s => .error e s.host

def host (st : Station τ) : Host (Desk τ) where
  call := DeskAct.call st
  checkpoint := st.checkpoint
  random := random
  clock d := st.clock.now d.shared.client
  log := st.logLine .info

end Station

end Apiary
