import Apiary.Script.Globals
import Apiary.Script.Grammar
import Mathlib.Data.List.Basic

/-!
What a given script starts with: its program, read from the characters of its text, and the tree of host functions, which
has a folder for the first part of every dotted path. Both are brought to forms that are quick to evaluate.
-/

namespace Apiary

def hostLeaves : List (String × HostFunction) :=
  [("Tensor", .tensor), ("zeros", .zeros), ("rand", .rand), ("train", .train), ("evaluate", .evaluate),
     ("saveModel", .saveModel), ("loadModel", .loadModel)]

def hostFolders : List (String × List (String × HostFunction)) :=
  [("Modules", [("Linear", .modulesLinear), ("MLP", .modulesMlp), ("Transformer", .modulesTransformer),
     ("CNN", .modulesCnn), ("WorldModel", .modulesWorldModel)]),
   ("Models", [("WorldModel", .modelsWorldModel)]),
   ("World", [("createEnvironment", .worldCreateEnvironment), ("generateData", .worldGenerateData),
      ("observe", .worldObserve), ("act", .worldAct)]),
   ("Goals", [("setGoal", .goalsSetGoal), ("reward", .goalsReward), ("generateSubgoals", .goalsGenerateSubgoals),
      ("selfEvaluate", .goalsSelfEvaluate)]),
   ("Memory", [("longTermStore", .memoryLongTermStore), ("retrieve", .memoryRetrieve), ("forget", .memoryForget)]),
   ("Code", [("selfEdit", .codeSelfEdit), ("rollback", .codeRollback)]),
   ("Agents", [("communicate", .agentsCommunicate), ("negotiate", .agentsNegotiate)]),
   ("Meta", [("optimizeObjective", .metaOptimizeObjective)]),
   ("Graph", [("createNode", .graphCreateNode), ("link", .graphLink), ("query", .graphQuery),
      ("findPath", .graphFindPath)]),
   ("Evo", [("createPopulation", .evoCreatePopulation), ("mutate", .evoMutate), ("crossover", .evoCrossover),
      ("speciate", .evoSpeciate)]),
   ("RL", [("computeAdvantage", .rlComputeAdvantage), ("sampleAction", .rlSampleAction),
      ("updatePolicy", .rlUpdatePolicy)]),
   ("Quant", [("quantize", .quantQuantize), ("distill", .quantDistill)]),
   ("System", [("allocateThreads", .systemAllocateThreads), ("clearVRAM", .systemClearVram),
      ("overclock", .systemOverclock)]),
   ("GPU", [("init", .gpuInit), ("dispatch", .gpuDispatch)]),
   ("FileSystem", [("list", .filesList), ("read", .filesRead), ("exists", .filesExists),
      ("isDirectory", .filesIsDirectory)]),
   ("hive", [("HiveMind", .hiveMind), ("trainTask", .hiveTrainTask), ("scanLocalAgents", .hiveScanLocalAgents),
      ("SuperCluster", .hiveSuperCluster), ("optimizeSwarm", .hiveOptimizeSwarm),
      ("isAlreadyRunning", .hiveIsAlreadyRunning)]),
   ("ACHA", [("createCoder", .achaCreateCoder), ("archive", .achaArchive), ("spar", .achaSpar)]),
   ("Utils", [("log", .utilsLog), ("sleep", .utilsSleep), ("timer", .utilsTimer)]),
   ("Visual", [("plot", .visualPlot), ("heatmap", .visualHeatmap), ("plotWeights", .visualPlotWeights)]),
   ("Control", [("getSignal", .controlGetSignal), ("requestConfirmation", .controlRequestConfirmation)]),
   ("RandomOps", [("normal", .randomOpsNormal), ("perturb", .randomOpsPerturb), ("sample", .randomOpsSample)]),
   ("AutoDiff", [("grad", .autoDiffGrad)])]

/-- The functions of the tree with the names that lead to them. -/
def hostPaths : List (HostFunction × List String) :=
  (hostLeaves.map fun (name, f) => (f, [name])) ++
    hostFolders.flatMap fun (folder, fields) => fields.map fun (name, f) => (f, [folder, name])

theorem hostPaths_functions : hostPaths.map Prod.fst = HostFunction.all.filter (· ≠ .hiveAutoExpand) := by decide

theorem splitText_dot (cs : List Char) : splitText "." (String.ofList cs) = (splitChars ['.'] cs).map String.ofList := by
  have hdot : ".".toList = ['.'] := String.toList_ofList
  rw [splitText, hdot, String.toList_ofList]

theorem hostPaths_segments : ∀ p ∈ hostPaths, p.1.segments = p.2 := by
  simp only [hostPaths, hostLeaves, hostFolders, List.map_cons, List.map_nil, List.flatMap_cons, List.flatMap_nil,
    List.cons_append, List.nil_append, List.forall_mem_cons, List.not_mem_nil, false_imp_iff, implies_true, and_true]
  and_intros <;> exact (splitText_dot _).trans rfl

def hostFields (fields : List (String × HostFunction)) : List (String × Value) :=
  fields.map fun (name, f) => (name, .host f)

/-- The objects of the tree, of which the root comes first. -/
def hostObjects (root : Nat) : List (List (String × Value)) :=
  (hostFields hostLeaves ++ hostFolders.mapIdx fun i (folder, _) => (folder, .object (root + 1 + i))) ::
    hostFolders.map fun (_, fields) => hostFields fields

namespace Heap

theorem childObject_objects (parent : Nat) (name : String) (h : Heap) :
    (h.childObject parent name).2 = { h with objects := (h.childObject parent name).2.objects } := by
  unfold childObject
  split <;> rfl

theorem placeHostFunction_objects (f : HostFunction) (path : List String) (cell : Nat) (h : Heap) :
    placeHostFunction f path cell h = { h with objects := (placeHostFunction f path cell h).objects } := by
  induction path generalizing cell h with
  | nil => rfl
  | cons name rest ih =>
    cases rest with
    | nil => rfl
    | cons next rest =>
      simp only [placeHostFunction]
      rw [ih, childObject_objects]

theorem foldl_placeHostFunction_objects (paths : List (HostFunction × List String)) (cell : Nat) (h : Heap) :
    paths.foldl (fun h p => placeHostFunction p.1 p.2 cell h) h =
      { h with objects := (paths.foldl (fun h p => placeHostFunction p.1 p.2 cell h) h).objects } := by
  induction paths generalizing h with
  | nil => rfl
  | cons p paths ih =>
    rw [List.foldl_cons, ih, placeHostFunction_objects]

def start : Heap := { objects := (globalObjects.map Prod.snd ++ hostObjects 5).toArray }

theorem hostPaths_placed : (hostPaths.foldl (fun h p => placeHostFunction p.1 p.2 5 h)
    { objects := (globalObjects.map Prod.snd ++ [[]]).toArray }).objects.toList =
      globalObjects.map Prod.snd ++ hostObjects 5 := by
  decide +kernel

theorem newHostTree_start : newHostTree { objects := (globalObjects.map Prod.snd).toArray } = (.object 5, start) := by
  have hpaths : ((HostFunction.all.filter (· ≠ .hiveAutoExpand)).foldl (fun h f => placeHostFunction f f.segments 5 h)
      { objects := (globalObjects.map Prod.snd ++ [[]]).toArray }) = hostPaths.foldl (fun h p => placeHostFunction p.1 p.2 5 h)
      { objects := (globalObjects.map Prod.snd ++ [[]]).toArray } := by
    rw [← hostPaths_functions, List.foldl_map]
    exact List.foldl_ext _ _ _ fun h p hp => by rw [hostPaths_segments p hp]
  have hplaced : hostPaths.foldl (fun h p => placeHostFunction p.1 p.2 5 h)
      { objects := (globalObjects.map Prod.snd ++ [[]]).toArray } = start := by
    have hobjects := congrArg List.toArray hostPaths_placed
    rw [Array.toArray_toList] at hobjects
    rw [foldl_placeHostFunction_objects, hobjects]
    rfl
  exact congrArg (Prod.mk _) (hpaths.trans hplaced)

end Heap

section Start

variable {σ : Type}

def World.onHost (host : σ) (w : World Unit) : World σ := ⟨⟨w.heap, host⟩, w.closures, w.scopes, w.depth⟩

/-- What the globals of the language do to a world does not depend on its host. -/
theorem World.start_eq (host : σ) : World.start host = (World.start ()).onHost host := by
  have hobjects (w : World Unit) :
      globalObjects.foldl (fun w p => w.addConstant p.1 (Heap.newObject p.2)) (w.onHost host) =
        (globalObjects.foldl (fun w p => w.addConstant p.1 (Heap.newObject p.2)) w).onHost host :=
    List.foldl_hom _ fun _ _ => rfl
  have hvalues (w : World Unit) :
      globalValues.foldl (fun w p => w.declareGlobal p.1 p.2 true) (w.onHost host) =
        (globalValues.foldl (fun w p => w.declareGlobal p.1 p.2 true) w).onHost host :=
    List.foldl_hom _ fun _ _ => rfl
  have hstart := hvalues (globalObjects.foldl (fun w p => w.addConstant p.1 (Heap.newObject p.2))
    ⟨⟨{}, ()⟩, #[], #[⟨[], true⟩], 0⟩)
  rw [← hobjects] at hstart
  exact hstart

def startScopes : Scopes := (World.start ()).scopes.declare Scopes.globalCell "GB" (.object 5) false

/-- The start of a script, with the tree as it stands. -/
def World.started (host : σ) : World σ := ⟨⟨Heap.start, host⟩, #[], startScopes, 0⟩

theorem World.startWithHost_eq (host : σ) : World.startWithHost host = World.started host := by
  have hheap : (World.start ()).heap = { objects := (globalObjects.map Prod.snd).toArray } := rfl
  rw [startWithHost, start_eq, define, onHost]
  dsimp only
  rw [hheap, Heap.newHostTree_start]
  rfl

def Act.worldAfter? : EStateM.Result Interrupt (World σ) Unit → Option (World σ)
  | .ok () w => some w
  | .error _ _ => none

theorem Act.ended_of_map {r : EStateM.Result Interrupt (World σ) Unit} {β : Type} {f : World σ → β} {b : β}
    (h : (worldAfter? r).map f = some b) : ∃ w, r = .ok () w ∧ f w = b := by
  cases r with
  | error e w => cases h
  | ok u w => exact ⟨w, rfl, Option.some.inj h⟩

end Start

def parseChars (cs : List Char) : Except SourceError Program := do
  let tokens ← Cursor.tokens (cs.length + 1) [] (.ofChars cs .start)
  let fuel := cs.length + 2
  let (body, _) ← (Rules.level fuel).program fuel tokens
  pure body

theorem parse_ofList (cs : List Char) : parse (String.ofList cs) = parseChars cs := by
  rw [parse, tokenize, tokenizeAt, String.length_ofList, String.toList_ofList]
  rfl

end Apiary
