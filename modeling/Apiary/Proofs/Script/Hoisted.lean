import Mathlib.Logic.Relation
import Apiary.Script.Hoist
import Apiary.Script.Globals
import Apiary.Proofs.Script.Lives

/-!
The names that hoisting finds are those of all `var` declarations that stand anywhere in a body, outside of the
functions there.
-/

namespace Apiary

variable {name : String}

theorem mem_varNamesOf {body : List Stmt} : name ∈ varNamesOf body ↔ ∃ s ∈ body, name ∈ s.varNames := by
  induction body with
  | nil => simp [varNamesOf]
  | cons s rest ih => simp [varNamesOf, ih]

theorem mem_varNamesOfCases {cases : List Case} :
    name ∈ varNamesOfCases cases ↔ ∃ test body, .mk test body ∈ cases ∧ name ∈ varNamesOf body := by
  induction cases with
  | nil => simp [varNamesOfCases]
  | cons c rest ih =>
    obtain ⟨test, body⟩ := c
    simp only [varNamesOfCases, List.mem_append, ih, List.mem_cons]
    constructor
    · rintro (h | ⟨test', body', hmem, h⟩)
      · exact ⟨test, body, .inl rfl, h⟩
      · exact ⟨test', body', .inr hmem, h⟩
    · rintro ⟨test', body', heq | hmem, h⟩
      · cases heq
        exact .inl h
      · exact .inr ⟨test', body', hmem, h⟩

namespace Stmt

/-- The second statement stands directly in the first. None stands in a function. -/
inductive Encloses : Stmt → Stmt → Prop
  | block {body t} : t ∈ body → Encloses (.block body) t
  | yes {test yes no} : Encloses (.ifElse test yes no) yes
  | no {test yes no} : Encloses (.ifElse test yes (some no)) no
  | while {test body} : Encloses (.while test body) body
  | doWhile {body test} : Encloses (.doWhile body test) body
  | for {start test update body} : Encloses (.for start test update body) body
  | forEach {keys kind name source body} : Encloses (.forEach keys kind name source body) body
  | case {subject cases test body t} : .mk test body ∈ cases → t ∈ body → Encloses (.switch subject cases) t
  | try {body handler last t} : t ∈ body → Encloses (.try body handler last) t
  | catch {body param handler last t} : t ∈ handler → Encloses (.try body (some (.mk param handler)) last) t
  | finally {body handler last t} : t ∈ last → Encloses (.try body handler (some last)) t

/-- The names that a statement declares itself with `var`, and not a statement in it. -/
def ownVarNames : Stmt → List String
  | .declare kind decls => declaredNames kind decls
  | .for start _ _ _ => start.varNames
  | .forEach _ kind name _ _ => if kind = some .var then [name] else []
  | _ => []

variable {s t : Stmt}

theorem ownVarNames_subset (s : Stmt) : s.ownVarNames ⊆ s.varNames := by
  cases s <;> simp [ownVarNames, varNames]

theorem Encloses.varNames_subset (h : s.Encloses t) : t.varNames ⊆ s.varNames := by
  intro name hname
  cases h with
  | block hmem => exact mem_varNamesOf.mpr ⟨t, hmem, hname⟩
  | yes | no | «while» | doWhile | «for» | forEach => simp [varNames, varNamesOfOption, hname]
  | case hcase hmem => exact mem_varNamesOfCases.mpr ⟨_, _, hcase, mem_varNamesOf.mpr ⟨t, hmem, hname⟩⟩
  | «try» hmem =>
    have h := mem_varNamesOf.mpr ⟨t, hmem, hname⟩
    simp [varNames, h]
  | «catch» hmem | «finally» hmem =>
    have h := mem_varNamesOf.mpr ⟨t, hmem, hname⟩
    simp [varNames, varNamesOfHandler, varNamesOfLast, h]

theorem Encloses.sizeOf_lt (h : s.Encloses t) : sizeOf t < sizeOf s := by
  cases h with
  | block hmem | «try» hmem | «catch» hmem | «finally» hmem =>
    have h := List.sizeOf_lt_of_mem hmem
    simp
    omega
  | case hcase hmem =>
    have h := List.sizeOf_lt_of_mem hcase
    have h' := List.sizeOf_lt_of_mem hmem
    simp at h ⊢
    omega
  | _ => simp; try omega

/-- A name is declared by a statement itself, or by one that stands in it. -/
theorem mem_varNames (h : name ∈ s.varNames) :
    name ∈ s.ownVarNames ∨ ∃ t, s.Encloses t ∧ name ∈ t.varNames := by
  cases s with
  | declare => exact .inl h
  | block body =>
    obtain ⟨t, hmem, ht⟩ := mem_varNamesOf.mp h
    exact .inr ⟨t, .block hmem, ht⟩
  | ifElse test yes no =>
    rcases List.mem_append.mp h with h | h
    · exact .inr ⟨yes, .yes, h⟩
    · cases no with
      | none => simp [varNamesOfOption] at h
      | some no => exact .inr ⟨no, .no, h⟩
  | «while» test body => exact .inr ⟨body, .while, h⟩
  | doWhile body test => exact .inr ⟨body, .doWhile, h⟩
  | «for» start test update body => exact (List.mem_append.mp h).imp_right fun h => ⟨body, .for, h⟩
  | forEach keys kind name source body => exact (List.mem_append.mp h).imp_right fun h => ⟨body, .forEach, h⟩
  | switch subject cases =>
    obtain ⟨test, body, hcase, h⟩ := mem_varNamesOfCases.mp h
    obtain ⟨t, hmem, ht⟩ := mem_varNamesOf.mp h
    exact .inr ⟨t, .case hcase hmem, ht⟩
  | «try» body handler last =>
    simp only [varNames, List.mem_append] at h
    obtain (h | h) | h := h
    · obtain ⟨t, hmem, ht⟩ := mem_varNamesOf.mp h
      exact .inr ⟨t, .try hmem, ht⟩
    · cases handler with
      | none => simp [varNamesOfHandler] at h
      | some handler =>
        obtain ⟨param, body'⟩ := handler
        obtain ⟨t, hmem, ht⟩ := mem_varNamesOf.mp h
        exact .inr ⟨t, .catch hmem, ht⟩
    · cases last with
      | none => simp [varNamesOfLast] at h
      | some last =>
        obtain ⟨t, hmem, ht⟩ := mem_varNamesOf.mp h
        exact .inr ⟨t, .finally hmem, ht⟩
  | _ => simp [varNames] at h

end Stmt

/-- A `var` of the name stands somewhere in a body, outside of the functions there. -/
def VarStandsIn (name : String) (body : List Stmt) : Prop :=
  ∃ s ∈ body, ∃ t, Relation.ReflTransGen Stmt.Encloses s t ∧ name ∈ t.ownVarNames

theorem Stmt.mem_varNames_iff {s : Stmt} :
    name ∈ s.varNames ↔ ∃ t, Relation.ReflTransGen Stmt.Encloses s t ∧ name ∈ t.ownVarNames := by
  constructor
  · induction hn : sizeOf s using Nat.strongRecOn generalizing s with
    | ind n ih =>
      intro h
      rcases mem_varNames h with h | ⟨t, henclosed, ht⟩
      · exact ⟨s, .refl, h⟩
      · obtain ⟨u, hu, hname⟩ := ih (sizeOf t) (hn ▸ henclosed.sizeOf_lt) rfl ht
        exact ⟨u, .head henclosed hu, hname⟩
  · rintro ⟨t, hst, hname⟩
    induction hst using Relation.ReflTransGen.head_induction_on with
    | refl => exact ownVarNames_subset _ hname
    | head h _ ih => exact h.varNames_subset ih

/-- Hoisting finds each `var` of a body, however deep it stands. -/
theorem mem_varNamesOf_iff {body : List Stmt} : name ∈ varNamesOf body ↔ VarStandsIn name body := by
  rw [mem_varNamesOf]
  exact exists_congr fun s => and_congr_right fun _ => Stmt.mem_varNames_iff

end Apiary

/-!
Hoisting finds every `var` that a body can come to: the names are bound in the scope of the body before any of it
runs, and all that the body opens or makes, closures included, sees that scope.
-/

namespace Apiary

open Act Scopes

variable {σ : Type} {s : Surroundings σ} {p q : Moment σ}

theorem declaredNames_cons (kind : DeclKind) (name : String) (init : Option Expr) (rest : List Declarator) :
    declaredNames kind (.mk name init :: rest) = (if kind = .var then [name] else []) ++ declaredNames kind rest := by
  unfold declaredNames
  split <;> simp [Declarator.name]

/-- What a piece of code comes to declares no name with `var` that the piece does not. -/
theorem Moment.Part.varNames (h : p.Part s q) : q.code.varNames ⊆ p.code.varNames := by
  cases h with
  | @laterCase _ _ _ c =>
    obtain ⟨test, body⟩ := c
    simp [Fragment.varNames, varNamesOfCases]
  | _ =>
    simp [Fragment.varNames, Stmt.varNames, varNamesOf, varNamesOfOption, varNamesOfCases, varNamesOfHandler,
      varNamesOfLast, ForStart.varNames, declaredNames_cons]

theorem Moment.Reaches.varNames (h : p.Reaches s q) : q.code.varNames ⊆ p.code.varNames := by
  induction h with
  | refl => exact fun _ hx => hx
  | tail _ hpart ih => exact fun _ hx => ih (hpart.varNames hx)

def Fragment.varName? : Fragment → Option String
  | .declareOne .var name _ => some name
  | .bindItem (some .var) name _ _ => some name
  | _ => none

theorem Fragment.mem_varNames {code : Fragment} {name : String} (h : code.varName? = some name) :
    name ∈ code.varNames := by
  unfold varName? at h
  split at h
  · cases h
    simp [varNames]
  · cases h
    simp [varNames]
  · cases h

namespace Act

/-- Reading a name gives a value, and assigning to it does not fail for want of a binding. -/
structure Defined (name : String) (env : Env) (w : World σ) : Prop where
  lookup : ∃ v, lookup name env w = .ok v w
  assign (v : Value) (w' : World σ) : assign name v env w ≠ .error (.message (undefinedName name)) w'

theorem undefinedName_ne_constant (name : String) : undefinedName name ≠ "Assignment to constant variable." := by
  intro h
  have hlast := congrArg (fun t : String => t.toList.getLast?) h
  simp [undefinedName, String.toList_append] at hlast

theorem defined_of_own {cell : Nat} {name : String} {env : Env} {w : World σ} (hcell : cell ∈ env)
    (h : (w.scopes.own cell name).isSome = true) : Defined name env w := by
  obtain ⟨⟨c, b⟩, hb⟩ := Option.isSome_iff_exists.mp (binding?_isSome hcell h)
  refine ⟨⟨b.value, ?_⟩, fun v w' heq => ?_⟩
  · simp only [Act.lookup, Bind.bind, EStateM.bind, lookScopes, Scopes.lookup?, hb]
    rfl
  · simp only [Act.assign, Bind.bind, EStateM.bind, lookScopes, hb] at heq
    split at heq
    · simp only [fail, Interrupt.message] at heq
      injection heq with he
      injection he with hm
      exact undefinedName_ne_constant name hm.symm
    · cases heq

theorem declareVars_ok (cell : Nat) (names : List String) (w : World σ) :
    ∃ w', declareVars cell names w = .ok () w' ∧ Grows w.scopes w'.scopes ∧
      (cell < w.scopes.size → ∀ name ∈ names, (w'.scopes.own cell name).isSome = true) := by
  induction names generalizing w with
  | nil => exact ⟨w, rfl, lasting_grows.refl _, fun _ _ h => absurd h List.not_mem_nil⟩
  | cons name rest ih =>
    cases hown : w.scopes.hasOwn cell name with
    | true =>
      obtain ⟨w', hw, hg, hnames⟩ := ih w
      refine ⟨w', ?_, hg, fun hlt x hx => ?_⟩
      · simpa only [declareVars, Bind.bind, EStateM.bind, lookScopes, hown, if_true] using hw
      rcases List.mem_cons.mp hx with rfl | hx
      · exact hg.own (by rw [← hasOwn_eq, hown])
      · exact hnames hlt x hx
    | false =>
      let declared : World σ := { w with scopes := w.scopes.declare cell name .undefined false }
      obtain ⟨w', hw, hg, hnames⟩ := ih declared
      refine ⟨w', ?_, (grows_declare _ _ _ _ _).trans hg, fun hlt x hx => ?_⟩
      · simp only [declareVars, Bind.bind, EStateM.bind, lookScopes, hown, Bool.false_eq_true, if_false]
        exact hw
      have hself : (declared.scopes.own cell name).isSome = true := by
        rw [own_declare_self _ _ _ _ _ hlt]
        rfl
      rcases List.mem_cons.mp hx with rfl | hx
      · exact hg.own hself
      · exact hnames (by simpa [declared] using hlt) x hx

theorem declareFunctions_ok (env : Env) (body : List Stmt) (w : World σ) :
    ∃ w', declareFunctions env body w = .ok () w' := by
  induction body generalizing w with
  | nil => exact ⟨w, rfl⟩
  | cons stmt rest ih =>
    cases stmt with
    | function f =>
      cases hf : f.name with
      | none => simpa only [declareFunctions, hf] using ih w
      | some name =>
        simp only [declareFunctions, hf]
        exact ih _
    | _ => exact ih w

end Act

/-- What hoisting does for a body that runs in a scope of its own, or in the outermost one. -/
structure Act.Hoisted (host : Host σ) (rounds cell : Nat) (rest : Env) (body : List Stmt) (w : World σ) : Prop where
  hoists : ∃ w', hoist (cell :: rest) body w = .ok () w'
  defined {p : Moment σ} {name : String} : VarStandsIn name body →
    Lives host rounds (cell :: rest) (.block body) w p → Defined name p.env p.world
  /-- The same at all spots of the expressions that are evaluated. -/
  definedAt {p : Moment σ} {e : Expr} {level : Nat} {q : Spot σ} {name : String} : VarStandsIn name body →
    Lives host rounds (cell :: rest) (.block body) w p → p.code = .expr e →
    Spot.Reaches ⟨host, calling host rounds level, rounds⟩ p.env ⟨.expr e, p.world⟩ q → Defined name p.env q.world
  /-- A declaration that runs belongs to the scope of the body, and has its name there already. -/
  declares {p q : Moment σ} {level : Nat} {name : String} : Begins (cell :: rest) w (.block body) p →
    p.Reaches ⟨host, calling host rounds level, rounds⟩ q → q.code.varName? = some name →
    VarStandsIn name body ∧ q.world.scopes.functionScope q.env = cell ∧
      ∀ c n, (q.after ⟨host, calling host rounds level, rounds⟩).scopes.hasOwn c n = q.world.scopes.hasOwn c n

namespace Moment

structure Near (cell : Nat) (name : String) (p : Moment σ) : Prop where
  inner : ∃ n base, p.Inner n base ∧ cell ∈ base
  own : (p.world.scopes.own cell name).isSome = true

namespace Near

variable {cell : Nat} {name : String}

theorem mem (h : p.Near cell name) : cell ∈ p.env := by
  obtain ⟨⟨n, base, hinner, hcell⟩, -⟩ := h
  obtain ⟨inner, he, -⟩ := hinner.env
  rw [he]
  exact List.mem_append_right _ hcell

theorem part (h : p.Near cell name) (hs : s.Grow) (hpart : p.Part s q) : q.Near cell name where
  inner := by
    obtain ⟨n, base, hinner, hcell⟩ := h.inner
    exact ⟨n, base, hinner.part hs hpart, hcell⟩
  own := ((p.settled_grows hs).moves lasting_grows hpart).own h.own

theorem begins {env : Env} {w : World σ} {body : FunctionBody} (hp : Begins env w body p) (hcell : cell ∈ env)
    (h : (w.scopes.own cell name).isSome = true) : p.Near cell name where
  inner := ⟨0, env, hp.inner (Nat.zero_le _), hcell⟩
  own := hp.moment.2.1.own h

end Near

end Moment

theorem Act.Lives.near {host : Host σ} {rounds cell : Nat} {env : Env} {body : FunctionBody} {w : World σ}
    {name : String} (h : Lives host rounds env body w p)
    (hbegins : ∀ q, Begins env w body q → q.Near cell name) : p.Near cell name := by
  -- A call leaves the base behind, but not the scope: the closure has it from the moment that it was made at.
  induction h with
  | begin hp => exact hbegins _ hp
  | part _ hpart ih => exact ih.part (calling_steady _ _ _).grow hpart
  | @call p q level code made v v' f args this inner _ hmakes hg hcall hq ih =>
    obtain ⟨rfl, hopened⟩ := enterCall_inv hcall
    refine .begins hq (List.mem_cons_of_mem _ ih.mem) ?_
    exact hopened.own ((grows_push _ _).own (hg.own ((hmakes.grows (calling_steady _ _ _).grow).own ih.own)))

theorem Scopes.hasOwn_declare {S : Scopes} {cell : Nat} {name : String} (h : (S.own cell name).isSome = true)
    (v : Value) (constant : Bool) (c : Nat) (n : String) :
    (S.declare cell name v constant).hasOwn c n = S.hasOwn c n := by
  rw [hasOwn_eq, hasOwn_eq, own_declare]
  split
  · next heq =>
    obtain ⟨rfl, rfl, -⟩ := heq
    rw [h]
    rfl
  · rfl

theorem Moment.hasOwn_after {name : String} (h : p.code.varName? = some name)
    (hown : (p.world.scopes.own (p.world.scopes.functionScope p.env) name).isSome = true) (c : Nat) (n : String) :
    (p.after s).scopes.hasOwn c n = p.world.scopes.hasOwn c n := by
  obtain ⟨env, code, w⟩ := p
  unfold Fragment.varName? at h
  split at h
  · cases h
    next value heq =>
    cases heq
    cases value with
    | some v => exact hasOwn_declare hown v false c n
    | none =>
      have hknown : w.scopes.hasOwn (w.scopes.functionScope env) name = true := by rw [hasOwn_eq, hown]
      simp only [Moment.after, declareOne, declareVars, Bind.bind, EStateM.bind, lookScopes, hknown, if_true]
      rfl
  · cases h
    next heq =>
    cases heq
    exact hasOwn_declare hown _ false c n
  · cases h

section Hoisted

variable {host : Host σ} {rounds cell : Nat} {rest : Env} {body : List Stmt} {w : World σ}

theorem Act.Begins.near {name : String} (hp : Begins (cell :: rest) w (.block body) p) (hlt : cell < w.scopes.size)
    (hname : name ∈ varNamesOf body) : p.Near cell name where
  inner := ⟨0, cell :: rest, hp.inner (Nat.zero_le _), List.mem_cons_self⟩
  own := by
    obtain ⟨v, hv, -, hnames⟩ := declareVars_ok cell (varNamesOf body) w
    have hown := hnames hlt name hname
    cases hp with
    | functions hw =>
      cases hw.symm.trans hv
      exact hown
    | body hw =>
      obtain ⟨_, v', hw, hfunctions⟩ := bind_ok hw
      cases hw.symm.trans hv
      exact ((declareFunctions_grows _ _).of_ok hfunctions).own hown

theorem Act.Begins.varNames (hp : Begins (cell :: rest) w (.block body) p) : p.code.varNames ⊆ varNamesOf body := by
  cases hp with
  | functions => exact List.nil_subset _
  | body => exact fun _ h => h

theorem Act.hoisted (hlt : cell < w.scopes.size) (hcell : rest = [] ∨ w.scopes.isFunction cell = true) :
    Hoisted host rounds cell rest body w where
  hoists := by
    obtain ⟨v, hv, -⟩ := declareVars_ok cell (varNamesOf body) w
    obtain ⟨v', hv'⟩ := declareFunctions_ok (cell :: rest) body v
    have hv : declareVars (innermost (cell :: rest)) (varNamesOf body) w = .ok () v := hv
    exact ⟨v', by simp only [hoist, Bind.bind, EStateM.bind, hv, hv']⟩
  defined hname hp := by
    have hnear := hp.near fun _ hq => hq.near hlt (mem_varNamesOf_iff.mpr hname)
    exact defined_of_own hnear.mem hnear.own
  definedAt hname hp _ hq := by
    have hnear := hp.near fun _ hq => hq.near hlt (mem_varNamesOf_iff.mpr hname)
    exact defined_of_own hnear.mem ((hq.grows (calling_steady _ _ _).grow).own hnear.own)
  declares {p q level name} hp hq hvar := by
    have hs := (calling_steady host rounds level).grow
    have hname := hp.varNames (hq.varNames (Fragment.mem_varNames hvar))
    have hgrows := hp.moment.2.1.trans (hq.grows hs)
    have hscope : q.world.scopes.functionScope q.env = cell := by
      refine ((hp.inner (Nat.zero_le _)).reaches hs hq).functionScope (hcell.imp_right fun hf => ?_)
      rw [hgrows.isFunction hlt, hf]
    refine ⟨mem_varNamesOf_iff.mp hname, hscope, q.hasOwn_after hvar ?_⟩
    rw [hscope]
    exact (hq.grows hs).own (hp.near hlt hname).own

end Hoisted

/-- Hoisting is complete, for programs and for functions with a block: wherever a `var` of a name stands in the body, the
name can be read and assigned to at every moment of the body and of the closures made in it, and at every spot of their
expressions. A declaration that runs finds its name bound. -/
theorem hoisting_complete (host : Host σ) (rounds : Nat) :
    (∀ (program : Program) (w : World σ), 0 < w.scopes.size → Hoisted host rounds Scopes.globalCell [] program w) ∧
    ∀ (f : Value) (c : Closure) (args : List Value) (this : Option Value) (w : World σ) (body : List Stmt),
      c.code.body = .block body →
      ∃ w', enterCall f c args this w = .ok (w.scopes.size :: c.env) w' ∧
        Hoisted host rounds w.scopes.size c.env body { w' with depth := w'.depth + 1 } := by
  refine ⟨fun program w h => hoisted h (.inl rfl), fun f c args this w body _ => ?_⟩
  obtain ⟨w', hw, hg⟩ := enterCall_ok f c args this w
  exact ⟨w', hw, hoisted hg.opened.1 (.inr hg.opened.2)⟩

/-- A program whose one `var` stands where it never runs. -/
def unreachedVar : Program :=
  [.ifElse (.bool false) (.block [.declare .var [.mk "x" none]]) none, .expr (.name "x")]

theorem unreachedVar_defined : ∃ w, hoist globalEnv unreachedVar (World.startWithHost 0) = .ok () w ∧
    Defined "x" globalEnv w := by
  have h := (hoisting_complete .countdown 1).1 unreachedVar (World.startWithHost 0) (by decide)
  obtain ⟨w, hw⟩ := h.hoists
  exact ⟨w, hw, h.defined (mem_varNamesOf_iff.mp (List.mem_singleton_self _)) (.begin (.body hw))⟩

end Apiary
