import Apiary.Proofs.Script.Element
import Apiary.Proofs.Script.Record
import Apiary.Proofs.Source.Spelling

/-!
Access to a property by a dot and by its name in brackets. A name is no position, so both read, write and call the same.
-/

namespace Apiary

theorem digit_not_isNameStart {c : Char} (hc : (digitOf? 10 c).isSome = true) : Cursor.isNameStart c = false := by
  have hrange : 48 ≤ c.toNat ∧ c.toNat ≤ 57 := by
    by_contra hout
    simp only [digitOf?, if_neg hout, Option.isSome_ite] at hc
    split at hc
    · omega
    · split at hc <;> omega
  have hchar : c = Char.ofNat c.toNat := (Char.ofNat_toNat c).symm
  obtain ⟨hlow, hhigh⟩ := hrange
  rw [hchar]
  generalize c.toNat = n at hlow hhigh
  interval_cases n <;> decide

theorem Counts.not_name {p : String} {i : Nat} {pos : Position} {text : List Char} (hp : Spelling pos (.name p) text) :
    ¬ Counts p i := by
  intro hcounts
  cases hp with
  | @name c rest hstart hrest =>
    have hmem : c ∈ (String.ofList (c :: rest)).toList := by simp
    rcases hcounts.chars hmem with rfl | hdigit
    · cases hstart
    · rw [digit_not_isNameStart hdigit] at hstart
      cases hstart

namespace Value

theorem index_of_name {p : String} {pos : Position} {text : List Char} (hp : Spelling pos (.name p) text) :
    (string p).index? = none := by
  cases hindex : (string p).index? with
  | none => rfl
  | some i => exact absurd (isCount_of_index hindex) (Counts.not_name hp)

end Value

namespace Act

variable {σ : Type} {p : String} {pos : Position} {text : List Char}

theorem display_string (p : String) : display (.string p) = (pure p : Act σ String) := rfl

theorem getIndex_name (hp : Spelling pos (.name p) text) (v : Value) :
    getIndex v (.string p) = (getProperty v p : Act σ Value) := by
  simp only [getIndex, Value.index_of_name hp, display_string, pure_bind]

theorem setIndex_name (hp : Spelling pos (.name p) text) (v x : Value) :
    setIndex v (.string p) x = (setProperty v p x : Act σ Unit) := by
  simp only [setIndex, Value.index_of_name hp, display_string, pure_bind]

/-- One result, or two refusals of one call, each in its own words for what was to be called. -/
inductive SameCall (what what' : String) {α : Type} :
    EStateM.Result Interrupt (World σ) α → EStateM.Result Interrupt (World σ) α → Prop
  | same (r : EStateM.Result Interrupt (World σ) α) : SameCall what what' r r
  | refused (w : World σ) : SameCall what what' (.error (.message (notAFunction what)) w)
    (.error (.message (notAFunction what')) w)

theorem SameCall.bind {α β : Type} {what what' : String} (a : Act σ α) {f g : α → Act σ β}
    (hf : ∀ x w, SameCall what what' (f x w) (g x w)) (w : World σ) : SameCall what what' ((a >>= f) w) ((a >>= g) w) := by
  simp only [Bind.bind, EStateM.bind]
  cases a w with
  | ok x w => exact hf x w
  | error e w => exact .same _

theorem callMethod_same (host : Host σ) (call : Calling σ) (this : Value) (name : String) (args : List Value)
    (what what' : String) (w : World σ) : SameCall what what' (callMethod host call this name args what w)
      (callMethod host call this name args what' w) := by
  cases this with
  | undefined | null => exact .same _
  | _ =>
    unfold callMethod
    refine .bind (method? host call _ name args) (fun answer w => ?_) w
    cases answer with
    | some v => exact .same _
    | none => exact .refused w

/-- The dot form and the bracket form of one access, for any receiver. -/
theorem dot_as_bracket (s : Surroundings σ) (env : Env) (object : Expr) (hp : Spelling pos (.name p) text) :
    evalExpr s env (.member object p false) = evalExpr s env (.index object (.string p)) ∧
    (∀ op value, evalExpr s env (.assign op (.member object p false) value) =
      evalExpr s env (.assign op (.index object (.string p)) value)) ∧
    (∀ increment before, evalExpr s env (.update increment before (.member object p false)) =
      evalExpr s env (.update increment before (.index object (.string p)))) ∧
    ∀ args w, SameCall (object.description ++ "." ++ p) (object.description ++ "[...]")
      (evalExpr s env (.call (.member object p false) args) w)
      (evalExpr s env (.call (.index object (.string p)) args) w) := by
  have hread (v : Value) : readPlace env (.property v p) = (readPlace env (.item v (.string p)) : Act σ Value) :=
    (getIndex_name hp v).symm
  have hwrite (v x : Value) : writePlace env x (.property v p) = (writePlace env x (.item v (.string p)) : Act σ Unit) :=
    (setIndex_name hp v x).symm
  refine ⟨?_, fun op value => ?_, fun increment before => ?_, fun args w => ?_⟩
  · simp [evalExpr, getIndex_name hp]
  · cases op <;> simp [evalExpr, evalPlace, hread, hwrite]
  · simp [evalExpr, evalPlace, hread, hwrite]
  · simp only [evalExpr, evalReceiver, Bool.false_and, Bool.false_eq_true, if_false, bind_assoc, pure_bind]
    refine .bind _ (fun v w => ?_) w
    exact .bind _ (fun vs w => callMethod_same s.host s.call v p vs _ _ w) w

theorem pop_spelled : Spelling .start (.name "pop") ['p', 'o', 'p'] := by
  have hname : Spelling .start (.name (String.ofList ['p', 'o', 'p'])) ['p', 'o', 'p'] :=
    .name (by decide) (List.all_eq_true.mp (by decide))
  exact hname

theorem pop_as_bracket :
    evalExpr (surroundings .countdown 1) globalEnv (.member (.name "items") "pop" false) =
      evalExpr (surroundings .countdown 1) globalEnv (.index (.name "items") (.string "pop")) ∧
    ∀ args w, SameCall "items.pop" "items[...]"
      (evalExpr (surroundings .countdown 1) globalEnv (.call (.member (.name "items") "pop" false) args) w)
      (evalExpr (surroundings .countdown 1) globalEnv (.call (.index (.name "items") (.string "pop")) args) w) := by
  obtain ⟨hread, -, -, hcall⟩ := dot_as_bracket (surroundings .countdown 1) globalEnv (.name "items") pop_spelled
  exact ⟨hread, hcall⟩

end Act

end Apiary
