import Apiary.Proofs.Script.Simple

/-!
Properties, methods and functions of the language that call nothing back stay inside the world of a script.
-/

namespace Apiary.Act.Plain

variable {σ : Type}

theorem newArray (items : Array Value) : Plain (Act.newArray items : Act σ Value) := alloc _ fun _ => by simp

theorem newLayers (layers : List Layer) : Plain (Act.newLayers layers : Act σ (List Value)) := by
  induction layers with
  | nil => exact ret []
  | cons l rest ih => exact (alloc _ fun _ => by simp).bind fun v => ih.bind fun vs => ret (v :: vs)

theorem tensorProperty (cell : Nat) (key : String) :
    Plain (Act.tensorProperty cell key : Act σ Value) := by
  unfold Act.tensorProperty
  refine (look _).bind fun t => ?_
  split
  · exact newArray _
  all_goals exact ret _

theorem layerProperty (l : Layer) (key : String) :
    Plain (Act.layerProperty l key : Act σ Value) := by
  unfold Act.layerProperty
  split
  case h_3 | h_4 => exact alloc _ fun _ => by simp
  all_goals exact ret _

theorem networkProperty (n : Network) (key : String) :
    Plain (Act.networkProperty n key : Act σ Value) := by
  unfold Act.networkProperty
  split
  case h_6 => exact (newLayers _).bind fun vs => newArray _
  all_goals exact ret _

theorem getProperty (obj : Value) (key : String) :
    Plain (Act.getProperty obj key : Act σ Value) := by
  unfold Act.getProperty
  cases obj with
  | undefined => exact fail (ne_badTarget_of_tail (by decide))
  | null => exact fail (ne_badTarget_of_tail (by decide))
  | object cell => exact look _
  | array cell => exact look _
  | floats b => exact look _
  | tensor cell => exact tensorProperty cell key
  | layer cell =>
    refine (look _).bind fun l => ?_
    cases l with
    | none => exact ret _
    | some l => exact layerProperty l key
  | network cell =>
    refine (look _).bind fun n => ?_
    cases n with
    | none => exact ret _
    | some n => exact networkProperty n key
  | _ => exact ret _

theorem getIndex (obj key : Value) : Plain (Act.getIndex obj key : Act σ Value) := by
  unfold Act.getIndex
  split
  · exact look _
  · exact look _
  · exact (display _).bind fun k => getProperty _ k

theorem setItem (cell i : Nat) (value : Value) :
    Plain (Act.setItem cell i value : Act σ Unit) := by
  unfold Act.setItem
  split
  · exact fail (by decide)
  · exact update _ fun _ => by simp

theorem setNamedItem (cell i : Nat) (value : Value) :
    Plain (Act.setNamedItem cell i value : Act σ Unit) := by
  unfold Act.setNamedItem
  by_cases hi : Double.ofNat i < 9.0e15
  · simpa only [hi, if_true] using setItem cell i value
  · simp only [hi, if_false]
    split
    · exact position hi
    · exact ret ()

theorem setLength (cell : Nat) (value : Value) :
    Plain (Act.setLength cell value : Act σ Unit) := by
  unfold Act.setLength
  split
  · split
    · exact update _ fun _ => by simp
    · exact fail (by decide)
  · exact fail (by decide)

theorem setNetworkProperty (cell : Nat) (key : String) (value : Value) :
    Plain (Act.setNetworkProperty cell key value : Act σ Unit) := by
  unfold Act.setNetworkProperty
  split
  · exact (single _).bind fun x => update _ fun _ => by simp
  · exact (single _).bind fun x => update _ fun _ => by simp
  · exact (number _).bind fun x => update _ fun _ => by simp
  · exact ret ()

theorem setProperty (obj : Value) (key : String) (value : Value) :
    Plain (Act.setProperty obj key value : Act σ Unit) := by
  unfold Act.setProperty
  cases obj with
  | undefined => exact fail (ne_badTarget_of_tail (by decide))
  | null => exact fail (ne_badTarget_of_tail (by decide))
  | object cell => exact update _ fun _ => by simp
  | array cell =>
    dsimp only
    split
    · exact setLength cell value
    · split
      · exact setNamedItem cell _ value
      · exact ret ()
  | floats b =>
    dsimp only
    split
    · exact (single _).bind fun x => update _ fun _ => by simp
    · exact ret ()
  | network cell => exact setNetworkProperty cell key value
  | _ => exact ret ()

theorem setIndex (obj key value : Value) : Plain (Act.setIndex obj key value : Act σ Unit) := by
  unfold Act.setIndex
  split
  · exact setItem _ _ _
  · exact (single _).bind fun x => update _ fun _ => by simp
  · exact (display _).bind fun k => setProperty _ k value

theorem displayArgOr (default : String) (args : List Value) (i : Nat) :
    Plain (Act.displayArgOr default args i : Act σ String) := by
  unfold Act.displayArgOr
  split
  · exact ret _
  · exact display _

theorem positionArg (position : Double → Nat) (default : Nat) (args : List Value) (i : Nat) :
    Plain (Act.positionArg position default args i : Act σ Nat) := by
  unfold Act.positionArg
  split
  · exact ret _
  · exact (number _).bind fun x => ret (position x)

theorem numberMethod (x : Double) (name : String) (args : List Value) :
    Plain (Act.numberMethod x name args : Act σ (Option Value)) := by
  unfold Act.numberMethod
  split
  · exact (number _).bind fun _ => ret _
  · exact (positionArg _ _ _ _).bind fun _ => ret _
  · exact ret _
  · exact ret _

theorem newStrings (pieces : List (List Char)) :
    Plain (Act.newStrings pieces : Act σ Value) := newArray _

theorem repeatMethod (s : String) (args : List Value) :
    Plain (Act.repeatMethod s args : Act σ Value) := by
  unfold Act.repeatMethod
  refine (number _).bind fun n => ?_
  split
  · exact fail (ne_badTarget_of_head (by decide))
  · dsimp only
    split
    · exact ret _
    · exact fail (by decide)

theorem padMethod (atStart : Bool) (s : String) (args : List Value) :
    Plain (Act.padMethod atStart s args : Act σ Value) := by
  unfold Act.padMethod
  refine (number _).bind fun target => ?_
  dsimp only
  split
  · exact fail (by decide)
  · refine (displayArgOr _ _ _).bind fun fill => ?_
    split
    · exact ret _
    · exact ret _

theorem sliceMethod (s : String) (args : List Value) :
    Plain (Act.sliceMethod s args : Act σ Value) :=
  (positionArg _ _ _ _).bind fun _ => (positionArg _ _ _ _).bind fun _ => ret _

theorem substringMethod (s : String) (args : List Value) :
    Plain (Act.substringMethod s args : Act σ Value) :=
  (positionArg _ _ _ _).bind fun _ => (positionArg _ _ _ _).bind fun _ => ret _

theorem charMethod (s : String) (args : List Value) (found : Char → Value) (missing : Value) :
    Plain (Act.charMethod s args found missing : Act σ Value) :=
  (number _).bind fun _ => ret _

theorem splitMethod (s : String) (args : List Value) :
    Plain (Act.splitMethod s args : Act σ Value) := by
  unfold Act.splitMethod
  split
  · exact newArray _
  · exact (display _).bind fun sep => newStrings _

theorem displayAll (args : List Value) : Plain (Act.displayAll args : Act σ (List String)) := by
  induction args with
  | nil => exact ret []
  | cons v rest ih => exact (display v).bind fun s => ih.bind fun ss => ret (s :: ss)

theorem stringMethod (s : String) (name : String) (args : List Value) :
    Plain (Act.stringMethod s name args : Act σ (Option Value)) := by
  unfold Act.stringMethod
  dsimp only
  split
  case h_13 => exact (sliceMethod s args).map _
  case h_14 => exact (substringMethod s args).map _
  case h_15 | h_16 => exact (charMethod s args _ _).map _
  case h_17 => exact (splitMethod s args).map _
  case h_18 | h_19 => exact (display _).bind fun _ => (display _).bind fun _ => ret _
  case h_20 => exact (repeatMethod s args).map _
  case h_21 | h_22 => exact (padMethod _ s args).map _
  case h_23 => exact (displayAll args).bind fun texts => ret _
  -- What is left only reads the string, or makes a text of one argument.
  all_goals first | exact ret _ | exact (display _).bind fun _ => ret _

theorem displayItems (items : List Value) :
    Plain (Act.displayItems items : Act σ (List String)) := by
  induction items with
  | nil => exact ret []
  | cons v rest ih =>
    unfold Act.displayItems
    dsimp only
    split
    · exact (ret _).bind fun s => ih.bind fun ss => ret (s :: ss)
    · exact (display v).bind fun s => ih.bind fun ss => ret (s :: ss)

theorem popMethod (cell : Nat) : Plain (Act.popMethod cell : Act σ Value) :=
  (look _).bind fun _ => (update _ fun _ => by simp).bind fun _ => ret _

theorem shiftMethod (cell : Nat) : Plain (Act.shiftMethod cell : Act σ Value) :=
  (look _).bind fun _ => (update _ fun _ => by simp).bind fun _ => ret _

theorem sliceArray (cell : Nat) (args : List Value) :
    Plain (Act.sliceArray cell args : Act σ Value) :=
  (look _).bind fun _ => (positionArg _ _ _ _).bind fun _ => (positionArg _ _ _ _).bind fun _ =>
    newArray _

theorem pushSingles (buffer : Nat) (args : List Value) :
    Plain (Act.pushSingles buffer args : Act σ Unit) := by
  induction args with
  | nil => exact ret ()
  | cons v rest ih =>
    exact (apart buffer v).bind fun _ => (single v).bind fun x => (update _ fun _ => by simp).bind fun _ => ih

theorem toBuffer (v : Value) : Plain (Act.toBuffer v : Act σ Value) := by
  unfold Act.toBuffer
  refine bind (convertOne fun _ => Heap.circular_of_numericItems) fun xs => ?_
  cases xs with
  | none => exact ret v
  | some xs => exact alloc _ fun _ => by simp

theorem newError (message : String) : Plain (Act.newError message : Act σ Value) := alloc _ fun _ => by simp

theorem extreme (pick : Double → Double → Double) (best : Double) (args : List Value) :
    Plain (Act.extreme pick best args : Act σ Double) := by
  induction args generalizing best with
  | nil => exact ret best
  | cons v rest ih =>
    unfold Act.extreme
    refine (number v).bind fun x => ?_
    split
    · exact ret _
    · exact ih _

theorem stringify (args : List Value) : Plain (Act.stringify args : Act σ Value) := by
  unfold Act.stringify
  dsimp only
  split
  · exact ret _
  · exact bind (convertOne fun _ => Heap.circular_of_json) fun j => ret _

theorem parseJson (args : List Value) : Plain (Act.parseJson args : Act σ Value) := by
  unfold Act.parseJson
  refine (display _).bind fun s => ?_
  dsimp only
  split
  · exact alloc _ (Heap.size_ofJson _)
  · exact fail (ne_badTarget_of_head (by decide))

theorem inspectAll (args : List Value) : Plain (Act.inspectAll args : Act σ (List String)) := by
  induction args with
  | nil => exact ret []
  | cons v rest ih =>
    exact bind (convertOne fun _ => Heap.circular_of_inspect) fun s =>
      ih.bind fun ss => ret (s :: ss)

theorem parseIntArgs (args : List Value) : Plain (Act.parseIntArgs args : Act σ Value) := by
  unfold Act.parseIntArgs
  dsimp only
  split
  · exact (ret _).bind fun radix => (display _).bind fun s => ret _
  · exact (number _).bind fun x => (ret _).bind fun radix => (display _).bind fun s => ret _

theorem errorArgs (args : List Value) : Plain (Act.errorArgs args : Act σ Value) :=
  (displayArgOr _ _ _).bind fun message => newError message

theorem forwardNetwork (cell : Nat) (args : List Value) :
    Plain (Act.forwardNetwork cell args : Act σ Value) := by
  unfold Act.forwardNetwork
  refine (numericItems _ _).bind fun input => (look _).bind fun n => ?_
  cases n with
  | none => exact ret _
  | some n => exact (ofShape _).bind fun out => alloc _ fun _ => by simp

theorem pruneNetwork (cell : Nat) (threshold : Single) :
    Plain (Act.pruneNetwork cell threshold : Act σ Value) := by
  unfold Act.pruneNetwork
  refine (look _).bind fun n => ?_
  cases n with
  | none => exact ret _
  | some n => exact (update _ fun _ => by simp).bind fun _ => ret _

theorem mutateNetwork (cell : Nat) (rate : Single) :
    Plain (Act.mutateNetwork cell rate : Act σ Value) :=
  (update _ fun _ => by simp).bind fun _ => ret _

theorem forwardLayer (cell : Nat) (args : List Value) :
    Plain (Act.forwardLayer cell args : Act σ Value) := by
  unfold Act.forwardLayer
  refine (numericItems _ _).bind fun input => (look _).bind fun l => ?_
  cases l with
  | none => exact ret _
  | some l => exact (ofShape _).bind fun out => alloc _ fun _ => by simp

theorem pruneLayer (cell : Nat) (threshold : Single) :
    Plain (Act.pruneLayer cell threshold : Act σ Value) := by
  unfold Act.pruneLayer
  refine (look _).bind fun l => ?_
  cases l with
  | none => exact ret _
  | some l => exact (update _ fun _ => by simp).bind fun _ => ret _

theorem layerMethod (cell : Nat) (name : String) (args : List Value) :
    Plain (Act.layerMethod cell name args : Act σ (Option Value)) := by
  unfold Act.layerMethod
  split
  · exact (forwardLayer cell args).map _
  · exact (single _).bind fun threshold => (pruneLayer cell threshold).map _
  · exact ret _

end Apiary.Act.Plain

/-!
The steps of code that evaluate no further code: operators, places, declarations, and the opening of scopes
for loops and calls.
-/

namespace Apiary.Act

variable {σ α : Type}

namespace Plain

theorem applyBinary (op : BinaryOp) (v w : Value) :
    Plain (Act.applyBinary op v w : Act σ Value) := by
  refine convert fun h hn => ?_
  rcases Heap.circular_of_result hn with hc | hc
  · exact ⟨v, by simp, hc⟩
  · exact ⟨w, by simp, hc⟩

theorem applyUnary (op : UnaryOp) (v : Value) : Plain (Act.applyUnary op v : Act σ Value) := by
  cases op with
  | not | typeof | void => exact ret _
  | neg | plus | bitNot => exact (number v).bind fun x => ret _

theorem itemsOf (v : Value) (what : String) :
    Plain (Act.itemsOf v what : Act σ (List Value)) := by
  unfold Act.itemsOf
  split
  · exact look _
  · exact look _
  · exact ret _
  · exact fail (ne_badTarget_of_tail (by decide))

theorem keysIn (v : Value) : Plain (Act.keysIn v : Act σ (List Value)) := by
  unfold Act.keysIn
  split
  · exact look _
  · exact look _
  · exact look _
  · exact ret _
  · exact ret _

theorem thrownMessage (v : Value) : Plain (Act.thrownMessage v : Act σ String) := by
  unfold Act.thrownMessage
  dsimp only
  split
  · refine (look _).bind fun message => ?_
    split
    · exact ret _
    · exact display _
  · refine (ret _).bind fun message => ?_
    split
    · exact ret _
    · exact display _

theorem throwValue (v : Value) : Plain (Act.throwValue v : Act σ α) :=
  (thrownMessage v).bind fun message => thrown message v

theorem caught (message : String) (thrown : Option Value) :
    Plain (Act.caught message thrown : Act σ Value) := by
  cases thrown with
  | none => exact newError message
  | some v => exact ret v

end Plain

namespace Simple

theorem bindItem (kind : Option DeclKind) (name : String) (item : Value) (outer inner : Env) :
    Simple (Act.bindItem kind name item outer inner : Act σ Unit) := by
  unfold Act.bindItem
  split
  · exact declare _ _ _ _
  · exact declare _ _ _ _
  · exact (lookScopes _).bind fun cell => declare _ _ _ _
  · exact assign _ _ _

theorem declareOne (kind : DeclKind) (name : String) (value : Option Value) (env : Env) :
    Simple (Act.declareOne kind name value env : Act σ Unit) := by
  unfold Act.declareOne
  cases kind with
  | «let» => exact declare _ _ _ _
  | const => exact declare _ _ _ _
  | var =>
    refine (lookScopes _).bind fun cell => ?_
    cases value with
    | none => exact declareVars _ _
    | some v => exact declare _ _ _ _

theorem nextScope (fresh : Bool) (env : Env) : Simple (Act.nextScope fresh env : Act σ Env) := by
  cases fresh with
  | true => exact fork env
  | false => exact ret env

theorem bindParams (cell : Nat) (params : List String) (args : List Value) :
    Simple (Act.bindParams cell params args : Act σ Unit) := by
  induction params generalizing args with
  | nil => exact ret ()
  | cons name rest ih => exact (declare _ _ _ _).bind fun _ => ih args.tail

theorem enterCall (f : Value) (c : Closure) (args : List Value) (this : Option Value) :
    Simple (Act.enterCall f c args this : Act σ Env) := by
  unfold Act.enterCall
  refine (enter _ _).bind fun env => ?_
  have hparams :
      Simple (do Act.bindParams (innermost env) c.code.params args; pure env : Act σ Env) :=
    (bindParams _ _ _).bind fun _ => ret env
  dsimp only
  split
  · exact hparams
  · split
    · exact (declare _ _ _ _).bind fun _ => (declare _ _ _ _).bind fun _ => hparams
    · exact (declare _ _ _ _).bind fun _ => hparams

end Simple

end Apiary.Act
