import Apiary.Proofs.Script.Constant

/-!
Assignment and lookup meet at one binding: the nearest one of the name along the chain of scopes. An assignment changes
the value of that binding and nothing else, whatever other scopes hold under the name.
-/

namespace Apiary

open Act Scopes

namespace Scopes

variable {S : Scopes} {name other : String} {env : Env} {cell : Nat} {b : Binding}

/-- The first scope of the chain that binds the name, with its binding. -/
def Nearest (S : Scopes) (name : String) (env : Env) (cell : Nat) (b : Binding) : Prop :=
  ∃ inner outer, env = inner ++ cell :: outer ∧ (∀ c ∈ inner, S.own c name = none) ∧ S.own cell name = some b

def Unbound (S : Scopes) (name : String) (env : Env) : Prop := ∀ c ∈ env, S.own c name = none

theorem binding?_eq_none : S.binding? name env = none ↔ S.Unbound name env := by
  induction env with
  | nil => exact ⟨fun _ _ hc => absurd hc List.not_mem_nil, fun _ => rfl⟩
  | cons c rest ih =>
    rw [binding?_cons, Unbound, List.forall_mem_cons]
    cases hc : S.own c name with
    | none =>
      simp only [true_and]
      exact ih
    | some b => simp

theorem binding?_eq_some : S.binding? name env = some (cell, b) ↔ S.Nearest name env cell b := by
  constructor
  · intro h
    induction env with
    | nil => cases h
    | cons c rest ih =>
      rw [binding?_cons] at h
      cases hc : S.own c name with
      | none =>
        rw [hc] at h
        obtain ⟨inner, outer, rfl, hinner, hown⟩ := ih h
        exact ⟨c :: inner, outer, rfl, List.forall_mem_cons.mpr ⟨hc, hinner⟩, hown⟩
      | some b' =>
        rw [hc] at h
        cases h
        exact ⟨[], rest, rfl, List.forall_mem_nil _, hc⟩
  · rintro ⟨inner, outer, rfl, hinner, hown⟩
    induction inner with
    | nil => simp [binding?_cons, hown]
    | cons c inner ih =>
      obtain ⟨hc, hinner⟩ := List.forall_mem_cons.mp hinner
      simpa [binding?_cons, hc] using ih hinner

theorem lookup?_nearest (h : S.Nearest name env cell b) : S.lookup? name env = some b.value := by
  rw [lookup?, binding?_eq_some.mpr h]
  rfl

section Declare

variable (v : Value) (constant : Bool)

theorem own_declare_ne {c : Nat} (h : ¬ (c = cell ∧ other = name)) :
    (S.declare cell name v constant).own c other = S.own c other := by
  rw [own_declare, if_neg fun hc => h ⟨hc.1, hc.2.1⟩]

/-- A binding that is changed in place is still the nearest of its name. -/
theorem Nearest.declare (h : S.Nearest name env cell b) :
    (S.declare cell name v constant).Nearest name env cell ⟨v, constant⟩ := by
  obtain ⟨inner, outer, henv, hinner, hown⟩ := h
  refine ⟨inner, outer, henv, ?_, own_declare_self S cell name v constant (lt_of_own hown)⟩
  intro c hc
  have hne : c ≠ cell := by
    rintro rfl
    rw [hinner c hc] at hown
    cases hown
  rw [own_declare_ne v constant fun h => hne h.1]
  exact hinner c hc

theorem binding?_declare_of_not_mem (h : cell ∉ env) :
    (S.declare cell name v constant).binding? other env = S.binding? other env := by
  induction env with
  | nil => rfl
  | cons c rest ih =>
    obtain ⟨hc, hrest⟩ := List.ne_and_not_mem_of_not_mem_cons h
    rw [binding?_cons, binding?_cons, ih hrest, own_declare_ne v constant fun h => hc h.1.symm]

end Declare

/-- `T` is `S` but for one binding, which is a variable with this value now. -/
structure Rebinds (cell : Nat) (name : String) (v : Value) (S T : Scopes) : Prop where
  bound : T.own cell name = some ⟨v, false⟩
  others {c : Nat} {other : String} : ¬ (c = cell ∧ other = name) → T.own c other = S.own c other
  size : T.size = S.size
  isFunction (c : Nat) : T.isFunction c = S.isFunction c

theorem Nearest.rebinds (h : S.Nearest name env cell b) (v : Value) :
    Rebinds cell name v S (S.declare cell name v false) := by
  obtain ⟨_, _, _, _, hown⟩ := h
  exact ⟨own_declare_self S cell name v false (lt_of_own hown), own_declare_ne v false, size_declare S cell name v false,
    isFunction_declare S cell name v false⟩

end Scopes

variable {σ : Type}

namespace Act

variable {name : String} {env : Env} {cell : Nat} {b : Binding} {w w' : World σ} {v : Value}

theorem lookup_nearest (h : w.scopes.Nearest name env cell b) : lookup name env w = .ok b.value w := by
  simp only [lookup, Bind.bind, EStateM.bind, lookScopes, lookup?_nearest h]
  rfl

theorem assign_unbound (h : w.scopes.Unbound name env) (v : Value) :
    assign name v env w = .error (.message (undefinedName name)) w := by
  simp only [assign, Bind.bind, EStateM.bind, lookScopes, binding?_eq_none.mpr h]
  rfl

theorem assign_nearest_constant (h : w.scopes.Nearest name env cell b) (hb : b.constant = true) (v : Value) :
    assign name v env w = .error constantTarget w := by
  obtain ⟨value, _⟩ := b
  cases hb
  exact assign_constant ⟨cell, value, binding?_eq_some.mpr h⟩ v

theorem assign_nearest (h : w.scopes.Nearest name env cell b) (hb : b.constant = false) (v : Value) :
    assign name v env w = .ok () { w with scopes := w.scopes.declare cell name v false } := by
  simp only [assign, Bind.bind, EStateM.bind, lookScopes, binding?_eq_some.mpr h, hb]
  rfl

theorem assign_cases (name : String) (v : Value) (env : Env) (w : World σ) :
    (w.scopes.Unbound name env ∧ assign name v env w = .error (.message (undefinedName name)) w) ∨
    (∃ cell b, w.scopes.Nearest name env cell b ∧ b.constant = true ∧ assign name v env w = .error constantTarget w) ∨
    ∃ cell b, w.scopes.Nearest name env cell b ∧ b.constant = false ∧
      assign name v env w = .ok () { w with scopes := w.scopes.declare cell name v false } := by
  cases hfound : w.scopes.binding? name env with
  | none =>
    have hunbound := binding?_eq_none.mp hfound
    exact .inl ⟨hunbound, assign_unbound hunbound v⟩
  | some found =>
    obtain ⟨cell, b⟩ := found
    have hnearest := binding?_eq_some.mp hfound
    cases hb : b.constant with
    | true => exact .inr (.inl ⟨cell, b, hnearest, hb, assign_nearest_constant hnearest hb v⟩)
    | false => exact .inr (.inr ⟨cell, b, hnearest, hb, assign_nearest hnearest hb v⟩)

theorem lookup_of_assign (h : assign name v env w = .ok () w') : lookup name env w' = .ok v w' := by
  obtain ⟨-, heq⟩ | ⟨cell, b, -, -, heq⟩ | ⟨cell, b, hnearest, -, heq⟩ := assign_cases name v env w
  · cases heq.symm.trans h
  · cases heq.symm.trans h
  · cases heq.symm.trans h
    exact lookup_nearest (b := ⟨v, false⟩) (hnearest.declare v false)

/-- Plain or compound, an assignment gives the value that its name has then. -/
theorem lookup_of_evalAssign {s : Surroundings σ} {op : Option BinaryOp} {e : Expr}
    (h : evalExpr s env (.assign op (.name name) e) w = .ok v w') : lookup name env w' = .ok v w' := by
  cases op with
  | none =>
    simp only [evalExpr, evalPlace, pure_bind] at h
    obtain ⟨u, w₁, -, h⟩ := bind_ok h
    obtain ⟨⟨⟩, w₂, hwrite, h⟩ := bind_ok h
    cases h
    exact lookup_of_assign hwrite
  | some op =>
    simp only [evalExpr, evalPlace, pure_bind] at h
    obtain ⟨old, w₁, -, h⟩ := bind_ok h
    obtain ⟨u, w₂, -, h⟩ := bind_ok h
    obtain ⟨result, w₃, -, h⟩ := bind_ok h
    obtain ⟨⟨⟩, w₄, hwrite, h⟩ := bind_ok h
    cases h
    exact lookup_of_assign hwrite

theorem lookup_of_evalUpdate {s : Surroundings σ} {increment before : Bool}
    (h : evalExpr s env (.update increment before (.name name)) w = .ok v w') :
    ∃ old new : Double, new = (if increment then old + 1 else old - 1) ∧ v = .number (if before then new else old) ∧
      lookup name env w' = .ok (.number new) w' := by
  simp only [evalExpr, evalPlace, pure_bind] at h
  obtain ⟨place, w₁, hread, h⟩ := bind_ok h
  obtain ⟨old, w₂, -, h⟩ := bind_ok h
  obtain ⟨⟨⟩, w₃, hwrite, h⟩ := bind_ok h
  cases h
  exact ⟨old, _, rfl, rfl, lookup_of_assign hwrite⟩

/-- An assignment that succeeds writes the binding that a lookup reads, and no other. It fails when the name has no
binding or is a constant where it is bound first, and leaves everything then. A declaration in a scope is not seen along
a chain without that scope. -/
theorem assign_writes_lookup (name : String) (v : Value) (env : Env) (w : World σ) :
    (∀ w', assign name v env w = .ok () w' → lookup name env w' = .ok v w' ∧ w' = { w with scopes := w'.scopes } ∧
      ∃ cell b, w.scopes.Nearest name env cell b ∧ Rebinds cell name v w.scopes w'.scopes) ∧
    ((∃ e w', assign name v env w = .error e w') ↔
      w.scopes.Unbound name env ∨ ∃ cell b, w.scopes.Nearest name env cell b ∧ b.constant = true) ∧
    (∀ e w', assign name v env w = .error e w' → w' = w) ∧
    ∀ cell constant, ∃ w', declare cell name v constant w = .ok () w' ∧
      ∀ chain, cell ∉ chain → ∀ other, w'.scopes.lookup? other chain = w.scopes.lookup? other chain := by
  refine ⟨fun w' h => ?_, ?_, fun e w' h => ?_, fun cell constant => ⟨_, rfl, fun chain hchain other => ?_⟩⟩
  · obtain ⟨-, heq⟩ | ⟨cell, b, -, -, heq⟩ | ⟨cell, b, hnearest, -, heq⟩ := assign_cases name v env w
    · cases heq.symm.trans h
    · cases heq.symm.trans h
    · cases heq.symm.trans h
      exact ⟨lookup_of_assign heq, rfl, cell, b, hnearest, hnearest.rebinds v⟩
  · constructor
    · rintro ⟨e, w', h⟩
      obtain ⟨hunbound, -⟩ | ⟨cell, b, hnearest, hb, -⟩ | ⟨cell, b, -, -, heq⟩ := assign_cases name v env w
      · exact .inl hunbound
      · exact .inr ⟨cell, b, hnearest, hb⟩
      · cases heq.symm.trans h
    · rintro (hunbound | ⟨cell, b, hnearest, hb⟩)
      · exact ⟨_, _, assign_unbound hunbound v⟩
      · exact ⟨_, _, assign_nearest_constant hnearest hb v⟩
  · obtain ⟨-, heq⟩ | ⟨cell, b, -, -, heq⟩ | ⟨cell, b, -, -, heq⟩ := assign_cases name v env w
    · cases heq.symm.trans h
      rfl
    · cases heq.symm.trans h
      rfl
    · cases heq.symm.trans h
  · change Option.map _ _ = Option.map _ _
    rw [binding?_declare_of_not_mem v constant hchain]

end Act

/-- A name bound in the scope of a function and in the global one, beside a constant, and a block inside. -/
def World.withShadow : World Nat :=
  { World.startWithHost 0 with
    scopes := #[⟨[("x", ⟨.string "outer", false⟩)], true⟩,
      ⟨[("k", ⟨.string "kept", true⟩), ("x", ⟨.string "inner", false⟩)], true⟩, ⟨[], false⟩] }

theorem assign_shadowing : ∃ w' : World Nat,
    assign "x" (.string "new") [2, 1, 0] World.withShadow = .ok () w' ∧
    lookup "x" [2, 1, 0] w' = .ok (.string "new") w' ∧ w'.scopes.own 0 "x" = some ⟨.string "outer", false⟩ ∧
    (∃ e w'', assign "k" .null [2, 1, 0] World.withShadow = .error e w'') ∧
    (∃ e w'', assign "y" .null [2, 1, 0] World.withShadow = .error e w'') ∧
    ∃ w'', declare 2 "x" .null false World.withShadow = .ok () w'' ∧
      w''.scopes.lookup? "x" [1, 0] = World.withShadow.scopes.lookup? "x" [1, 0] := by
  obtain ⟨hwrites, -⟩ := assign_writes_lookup "x" (.string "new") [2, 1, 0] World.withShadow
  obtain ⟨hlookup, -, cell, b, hnearest, hrebinds⟩ := hwrites _ rfl
  have hinner : World.withShadow.scopes.binding? "x" [2, 1, 0] = some (1, ⟨.string "inner", false⟩) := rfl
  cases hinner.symm.trans (binding?_eq_some.mpr hnearest)
  refine ⟨_, rfl, hlookup, hrebinds.others (by decide), ?_, ?_, ?_⟩
  · exact (assign_writes_lookup "k" .null _ _).2.1.mpr (.inr ⟨1, ⟨.string "kept", true⟩, binding?_eq_some.mp rfl, rfl⟩)
  · exact (assign_writes_lookup "y" .null _ _).2.1.mpr (.inl (binding?_eq_none.mp rfl))
  · obtain ⟨w'', hdeclare, hsame⟩ := (assign_writes_lookup "x" .null [2, 1, 0] World.withShadow).2.2.2 2 false
    exact ⟨w'', hdeclare, hsame [1, 0] (by decide) "x"⟩

end Apiary
