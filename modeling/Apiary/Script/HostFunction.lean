import Apiary.Text.Pieces

/-!
The functions a script finds under its global `GB`, each with its dotted path. What they do is up to the
host that runs the script.
-/

namespace Apiary

inductive HostFunction
  | tensor
  | zeros
  | rand
  | train
  | evaluate
  | saveModel
  | loadModel
  | modulesLinear
  | modulesMlp
  | modulesTransformer
  | modulesCnn
  | modulesWorldModel
  | modelsWorldModel
  | worldCreateEnvironment
  | worldGenerateData
  | worldObserve
  | worldAct
  | goalsSetGoal
  | goalsReward
  | goalsGenerateSubgoals
  | goalsSelfEvaluate
  | memoryLongTermStore
  | memoryRetrieve
  | memoryForget
  | codeSelfEdit
  | codeRollback
  | agentsCommunicate
  | agentsNegotiate
  | metaOptimizeObjective
  | graphCreateNode
  | graphLink
  | graphQuery
  | graphFindPath
  | evoCreatePopulation
  | evoMutate
  | evoCrossover
  | evoSpeciate
  | rlComputeAdvantage
  | rlSampleAction
  | rlUpdatePolicy
  | quantQuantize
  | quantDistill
  | systemAllocateThreads
  | systemClearVram
  | systemOverclock
  | gpuInit
  | gpuDispatch
  | filesList
  | filesRead
  | filesExists
  | filesIsDirectory
  | hiveMind
  | hiveTrainTask
  | hiveScanLocalAgents
  | hiveSuperCluster
  | hiveOptimizeSwarm
  | hiveIsAlreadyRunning
  | hiveAutoExpand
  | achaCreateCoder
  | achaArchive
  | achaSpar
  | utilsLog
  | utilsSleep
  | utilsTimer
  | visualPlot
  | visualHeatmap
  | visualPlotWeights
  | controlGetSignal
  | controlRequestConfirmation
  | randomOpsNormal
  | randomOpsPerturb
  | randomOpsSample
  | autoDiffGrad
  deriving DecidableEq, Repr

namespace HostFunction

def path : HostFunction → String
  | .tensor => "Tensor"
  | .zeros => "zeros"
  | .rand => "rand"
  | .train => "train"
  | .evaluate => "evaluate"
  | .saveModel => "saveModel"
  | .loadModel => "loadModel"
  | .modulesLinear => "Modules.Linear"
  | .modulesMlp => "Modules.MLP"
  | .modulesTransformer => "Modules.Transformer"
  | .modulesCnn => "Modules.CNN"
  | .modulesWorldModel => "Modules.WorldModel"
  | .modelsWorldModel => "Models.WorldModel"
  | .worldCreateEnvironment => "World.createEnvironment"
  | .worldGenerateData => "World.generateData"
  | .worldObserve => "World.observe"
  | .worldAct => "World.act"
  | .goalsSetGoal => "Goals.setGoal"
  | .goalsReward => "Goals.reward"
  | .goalsGenerateSubgoals => "Goals.generateSubgoals"
  | .goalsSelfEvaluate => "Goals.selfEvaluate"
  | .memoryLongTermStore => "Memory.longTermStore"
  | .memoryRetrieve => "Memory.retrieve"
  | .memoryForget => "Memory.forget"
  | .codeSelfEdit => "Code.selfEdit"
  | .codeRollback => "Code.rollback"
  | .agentsCommunicate => "Agents.communicate"
  | .agentsNegotiate => "Agents.negotiate"
  | .metaOptimizeObjective => "Meta.optimizeObjective"
  | .graphCreateNode => "Graph.createNode"
  | .graphLink => "Graph.link"
  | .graphQuery => "Graph.query"
  | .graphFindPath => "Graph.findPath"
  | .evoCreatePopulation => "Evo.createPopulation"
  | .evoMutate => "Evo.mutate"
  | .evoCrossover => "Evo.crossover"
  | .evoSpeciate => "Evo.speciate"
  | .rlComputeAdvantage => "RL.computeAdvantage"
  | .rlSampleAction => "RL.sampleAction"
  | .rlUpdatePolicy => "RL.updatePolicy"
  | .quantQuantize => "Quant.quantize"
  | .quantDistill => "Quant.distill"
  | .systemAllocateThreads => "System.allocateThreads"
  | .systemClearVram => "System.clearVRAM"
  | .systemOverclock => "System.overclock"
  | .gpuInit => "GPU.init"
  | .gpuDispatch => "GPU.dispatch"
  | .filesList => "FileSystem.list"
  | .filesRead => "FileSystem.read"
  | .filesExists => "FileSystem.exists"
  | .filesIsDirectory => "FileSystem.isDirectory"
  | .hiveMind => "hive.HiveMind"
  | .hiveTrainTask => "hive.trainTask"
  | .hiveScanLocalAgents => "hive.scanLocalAgents"
  | .hiveSuperCluster => "hive.SuperCluster"
  | .hiveOptimizeSwarm => "hive.optimizeSwarm"
  | .hiveIsAlreadyRunning => "hive.isAlreadyRunning"
  | .hiveAutoExpand => "hive.HiveMind.autoExpandIfReady"
  | .achaCreateCoder => "ACHA.createCoder"
  | .achaArchive => "ACHA.archive"
  | .achaSpar => "ACHA.spar"
  | .utilsLog => "Utils.log"
  | .utilsSleep => "Utils.sleep"
  | .utilsTimer => "Utils.timer"
  | .visualPlot => "Visual.plot"
  | .visualHeatmap => "Visual.heatmap"
  | .visualPlotWeights => "Visual.plotWeights"
  | .controlGetSignal => "Control.getSignal"
  | .controlRequestConfirmation => "Control.requestConfirmation"
  | .randomOpsNormal => "RandomOps.normal"
  | .randomOpsPerturb => "RandomOps.perturb"
  | .randomOpsSample => "RandomOps.sample"
  | .autoDiffGrad => "AutoDiff.grad"

def all : List HostFunction :=
  [.tensor, .zeros, .rand, .train, .evaluate, .saveModel, .loadModel, .modulesLinear,
   .modulesMlp, .modulesTransformer, .modulesCnn, .modulesWorldModel, .modelsWorldModel,
   .worldCreateEnvironment, .worldGenerateData, .worldObserve, .worldAct, .goalsSetGoal,
   .goalsReward, .goalsGenerateSubgoals, .goalsSelfEvaluate, .memoryLongTermStore,
   .memoryRetrieve, .memoryForget, .codeSelfEdit, .codeRollback, .agentsCommunicate,
   .agentsNegotiate, .metaOptimizeObjective, .graphCreateNode, .graphLink, .graphQuery,
   .graphFindPath, .evoCreatePopulation, .evoMutate, .evoCrossover, .evoSpeciate,
   .rlComputeAdvantage, .rlSampleAction, .rlUpdatePolicy, .quantQuantize, .quantDistill,
   .systemAllocateThreads, .systemClearVram, .systemOverclock, .gpuInit, .gpuDispatch,
   .filesList, .filesRead, .filesExists, .filesIsDirectory, .hiveMind, .hiveTrainTask,
   .hiveScanLocalAgents, .hiveSuperCluster, .hiveOptimizeSwarm, .hiveIsAlreadyRunning,
   .hiveAutoExpand, .achaCreateCoder, .achaArchive, .achaSpar, .utilsLog, .utilsSleep,
   .utilsTimer, .visualPlot, .visualHeatmap, .visualPlotWeights, .controlGetSignal,
   .controlRequestConfirmation, .randomOpsNormal, .randomOpsPerturb, .randomOpsSample,
   .autoDiffGrad]

theorem mem_all (f : HostFunction) : f ∈ all := by cases f <;> decide

def segments (f : HostFunction) : List String := splitText "." f.path

def name (f : HostFunction) : String := f.segments.getLast?.getD f.path

def member? : HostFunction → String → Option HostFunction
  | .hiveMind, "autoExpandIfReady" => some .hiveAutoExpand
  | _, _ => none

end HostFunction

end Apiary
