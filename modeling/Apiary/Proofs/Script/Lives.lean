import Apiary.Proofs.Script.Inner
import Apiary.Proofs.Script.Steady

/-!
The spots of an expression: what is evaluated on the way to its value, each in the world that it is evaluated in.
All of it sees the names of one environment.
-/

namespace Apiary

open Act Scopes

variable {σ : Type}

/-- What the evaluation of an expression is made of; operands are those of an access, read or written. -/
inductive Term
  | expr (e : Expr)
  | operands (e : Expr)
  | all (es : List Expr)
  | pieces (pieces : List Piece)
  | fields (fields : List Field)
  | read (place : Place)
  | write (place : Place) (value : Value)

structure Spot (σ : Type) where
  term : Term
  world : World σ

namespace Spot

inductive Part (s : Surroundings σ) (env : Env) : Spot σ → Spot σ → Prop
  | template {w pieces} : Part s env ⟨.expr (.template pieces), w⟩ ⟨.pieces pieces, w⟩
  | array {w items} : Part s env ⟨.expr (.array items), w⟩ ⟨.all items, w⟩
  | object {w fields} : Part s env ⟨.expr (.object fields), w⟩ ⟨.fields fields, w⟩
  | member {w object property optional} :
    Part s env ⟨.expr (.member object property optional), w⟩ ⟨.expr object, w⟩
  | indexed {w object key} : Part s env ⟨.expr (.index object key), w⟩ ⟨.expr object, w⟩
  | index {w object key v w'} : evalExpr s env object w = .ok v w' →
    Part s env ⟨.expr (.index object key), w⟩ ⟨.expr key, w'⟩
  | receiver {w callee args} : Part s env ⟨.expr (.call callee args), w⟩ ⟨.operands callee, w⟩
  | ofMethod {w callee args this name w'} : evalReceiver s env callee w = .ok (.method this name) w' →
    Part s env ⟨.expr (.call callee args), w⟩ ⟨.all args, w'⟩
  | ofItem {w callee args this key w'} : evalReceiver s env callee w = .ok (.item this key) w' →
    Part s env ⟨.expr (.call callee args), w⟩ ⟨.all args, w'⟩
  | callee {w callee args w'} : evalReceiver s env callee w = .ok .direct w' →
    Part s env ⟨.expr (.call callee args), w⟩ ⟨.expr callee, w'⟩
  | ofCallee {w callee args w' f w''} : evalReceiver s env callee w = .ok .direct w' →
    evalExpr s env callee w' = .ok f w'' → f.isCallable = true →
    Part s env ⟨.expr (.call callee args), w⟩ ⟨.all args, w''⟩
  | constructor {w callee args} : Part s env ⟨.expr (.new callee args), w⟩ ⟨.expr callee, w⟩
  | ofConstructor {w callee args f w'} : evalExpr s env callee w = .ok f w' →
    Part s env ⟨.expr (.new callee args), w⟩ ⟨.all args, w'⟩
  | unary {w op operand} : op ≠ .typeof ∨ operand.name? = none →
    Part s env ⟨.expr (.unary op operand), w⟩ ⟨.expr operand, w⟩
  | updated {w increment before target} :
    Part s env ⟨.expr (.update increment before target), w⟩ ⟨.operands target, w⟩
  | updateRead {w increment before target place w'} : evalPlace s env target w = .ok place w' →
    Part s env ⟨.expr (.update increment before target), w⟩ ⟨.read place, w'⟩
  | updateWrite {w increment before target place w' old w'' x w₃} : evalPlace s env target w = .ok place w' →
    readPlace env place w' = .ok old w'' → number old w'' = .ok x w₃ →
    Part s env ⟨.expr (.update increment before target), w⟩
      ⟨.write place (.number (if increment then x + 1 else x - 1)), w₃⟩
  | left {w op left right} : Part s env ⟨.expr (.binary op left right), w⟩ ⟨.expr left, w⟩
  | right {w op left right v w'} : evalExpr s env left w = .ok v w' →
    Part s env ⟨.expr (.binary op left right), w⟩ ⟨.expr right, w'⟩
  | first {w op left right} : Part s env ⟨.expr (.logical op left right), w⟩ ⟨.expr left, w⟩
  | second {w op left right v w'} : evalExpr s env left w = .ok v w' → decides op v = false →
    Part s env ⟨.expr (.logical op left right), w⟩ ⟨.expr right, w'⟩
  | condition {w test yes no} : Part s env ⟨.expr (.conditional test yes no), w⟩ ⟨.expr test, w⟩
  | yes {w test yes no v w'} : evalExpr s env test w = .ok v w' → v.truthy = true →
    Part s env ⟨.expr (.conditional test yes no), w⟩ ⟨.expr yes, w'⟩
  | no {w test yes no v w'} : evalExpr s env test w = .ok v w' → v.truthy = false →
    Part s env ⟨.expr (.conditional test yes no), w⟩ ⟨.expr no, w'⟩
  | target {w op target value} : Part s env ⟨.expr (.assign op target value), w⟩ ⟨.operands target, w⟩
  | value {w target value place w'} : evalPlace s env target w = .ok place w' →
    Part s env ⟨.expr (.assign none target value), w⟩ ⟨.expr value, w'⟩
  | write {w target value place w' v w''} : evalPlace s env target w = .ok place w' →
    evalExpr s env value w' = .ok v w'' →
    Part s env ⟨.expr (.assign none target value), w⟩ ⟨.write place v, w''⟩
  | compoundRead {w op target value place w'} : evalPlace s env target w = .ok place w' →
    Part s env ⟨.expr (.assign (some op) target value), w⟩ ⟨.read place, w'⟩
  | compoundValue {w op target value place w' old w''} : evalPlace s env target w = .ok place w' →
    readPlace env place w' = .ok old w'' →
    Part s env ⟨.expr (.assign (some op) target value), w⟩ ⟨.expr value, w''⟩
  | compoundWrite {w op target value place w' old w'' u w₃ v w₄} : evalPlace s env target w = .ok place w' →
    readPlace env place w' = .ok old w'' → evalExpr s env value w'' = .ok u w₃ → applyBinary op old u w₃ = .ok v w₄ →
    Part s env ⟨.expr (.assign (some op) target value), w⟩ ⟨.write place v, w₄⟩
  | sequence {w items} : Part s env ⟨.expr (.sequence items), w⟩ ⟨.all items, w⟩
  | await {w operand} : Part s env ⟨.expr (.await operand), w⟩ ⟨.expr operand, w⟩
  | ofMember {w object property optional} :
    Part s env ⟨.operands (.member object property optional), w⟩ ⟨.expr object, w⟩
  | ofIndex {w object key} : Part s env ⟨.operands (.index object key), w⟩ ⟨.expr object, w⟩
  | key {w object key v w'} : evalExpr s env object w = .ok v w' →
    Part s env ⟨.operands (.index object key), w⟩ ⟨.expr key, w'⟩
  | head {w e rest} : Part s env ⟨.all (e :: rest), w⟩ ⟨.expr e, w⟩
  | tail {w e rest v w'} : evalExpr s env e w = .ok v w' → Part s env ⟨.all (e :: rest), w⟩ ⟨.all rest, w'⟩
  | text {w t rest} : Part s env ⟨.pieces (.text t :: rest), w⟩ ⟨.pieces rest, w⟩
  | hole {w e rest} : Part s env ⟨.pieces (.hole e :: rest), w⟩ ⟨.expr e, w⟩
  | afterHole {w e rest v w' t w''} : evalExpr s env e w = .ok v w' → display v w' = .ok t w'' →
    Part s env ⟨.pieces (.hole e :: rest), w⟩ ⟨.pieces rest, w''⟩
  | named {w key e rest} : Part s env ⟨.fields (.named key e :: rest), w⟩ ⟨.expr e, w⟩
  | afterNamed {w key e rest v w'} : evalExpr s env e w = .ok v w' →
    Part s env ⟨.fields (.named key e :: rest), w⟩ ⟨.fields rest, w'⟩
  | computedKey {w key e rest} : Part s env ⟨.fields (.computed key e :: rest), w⟩ ⟨.expr key, w⟩
  | computed {w key e rest k w' t w''} : evalExpr s env key w = .ok k w' → display k w' = .ok t w'' →
    Part s env ⟨.fields (.computed key e :: rest), w⟩ ⟨.expr e, w''⟩
  | afterComputed {w key e rest k w' t w'' v w₃} : evalExpr s env key w = .ok k w' → display k w' = .ok t w'' →
    evalExpr s env e w'' = .ok v w₃ →
    Part s env ⟨.fields (.computed key e :: rest), w⟩ ⟨.fields rest, w₃⟩

abbrev Reaches (s : Surroundings σ) (env : Env) : Spot σ → Spot σ → Prop := Relation.ReflTransGen (Part s env)

variable {s : Surroundings σ} {env : Env} {p q : Spot σ}

theorem Part.grows (hs : s.Grow) (h : Part s env p q) : Grows p.world.scopes q.world.scopes := by
  have hR : Termwise False s.host s.host env (Respecting Grows) :=
    lasting_grows.termwise s.host fun _ _ => lasting_grows.assign fun S cell _ v _ _ _ => grows_declare S cell _ v false
  have hexpr {e : Expr} {v : Value} {w w' : World σ} (hv : evalExpr s env e w = .ok v w') : Grows w.scopes w'.scopes :=
    (hs.expr env e).of_ok hv
  have hreceiver {e : Expr} {c : Callee} {w w' : World σ} (hc : evalReceiver s env e w = .ok c w') :
      Grows w.scopes w'.scopes := by
    have hg : Respecting Grows (evalReceiver s env e) (evalReceiver s env e) := hR.evalReceiver hs e False.elim
    exact Respects.of_ok hg hc
  have hplace {e : Expr} {place : Place} {w w' : World σ} (hp : evalPlace s env e w = .ok place w') :
      Grows w.scopes w'.scopes := by
    have hg : Respecting Grows (evalPlace s env e) (evalPlace s env e) := hR.evalPlace hs e False.elim
    exact Respects.of_ok hg hp
  have hread {place : Place} {v : Value} {w w' : World σ} (hv : readPlace env place w = .ok v w') :
      Grows w.scopes w'.scopes :=
    Respects.of_ok (hR.readPlace place) hv
  have hplain {α : Type} {a : Act σ α} {x : α} {w w' : World σ} (ha : Plain a) (hw : a w = .ok x w') :
      Grows w.scopes w'.scopes :=
    Respects.of_ok (lasting_grows.plain ha) hw
  cases h with
  | template | array | object | member | indexed | receiver | constructor | unary | updated | left | first | condition
  | target | sequence | await | ofMember | ofIndex | head | text | hole | named | computedKey =>
    exact lasting_grows.refl _
  | index hv | ofConstructor hv | right hv | second hv | yes hv | no hv | key hv | tail hv | afterNamed hv =>
    exact hexpr hv
  | ofMethod hc | ofItem hc | callee hc => exact hreceiver hc
  | ofCallee hc hf => exact (hreceiver hc).trans (hexpr hf)
  | updateRead hp | value hp | compoundRead hp => exact hplace hp
  | updateWrite hp hv hx => exact ((hplace hp).trans (hread hv)).trans (hplain (.number _) hx)
  | write hp hv => exact (hplace hp).trans (hexpr hv)
  | compoundValue hp hv => exact (hplace hp).trans (hread hv)
  | compoundWrite hp ho hu hv =>
    exact (((hplace hp).trans (hread ho)).trans (hexpr hu)).trans (hplain (.applyBinary _ _ _) hv)
  | afterHole hv ht | computed hv ht => exact (hexpr hv).trans (hplain (.display _) ht)
  | afterComputed hk ht hv => exact ((hexpr hk).trans (hplain (.display _) ht)).trans (hexpr hv)

theorem Reaches.grows (hs : s.Grow) (h : p.Reaches s env q) : Grows p.world.scopes q.world.scopes := by
  induction h with
  | refl => exact lasting_grows.refl _
  | tail _ hpart ih => exact ih.trans (hpart.grows hs)

end Spot

end Apiary

/-!
What a body lives through: its own moments, and those of all calls of closures that are made at them, now or later.
-/

namespace Apiary

open Act Scopes

variable {σ : Type} {s : Surroundings σ} {p : Moment σ}

/-- The moments that a body begins with: its functions are declared, and its code runs. -/
inductive Act.Begins (env : Env) (w : World σ) : FunctionBody → Moment σ → Prop
  | value {e : Expr} : Begins env w (.value e) ⟨env, .expr e, w⟩
  | functions {body : List Stmt} {w' : World σ} : declareVars (innermost env) (varNamesOf body) w = .ok () w' →
    Begins env w (.block body) ⟨env, .functions body, w'⟩
  | body {body : List Stmt} {w' : World σ} : hoist env body w = .ok () w' →
    Begins env w (.block body) ⟨env, .stmts body, w'⟩

/-- The functions that a moment makes closures of, each with the world that the closure is made in. -/
inductive Moment.Makes (s : Surroundings σ) (p : Moment σ) : FunctionLiteral → World σ → Prop
  | literal {e : Expr} {f : FunctionLiteral} {w : World σ} : p.code = .expr e →
    Spot.Reaches s p.env ⟨.expr e, p.world⟩ ⟨.expr (.function f), w⟩ → Makes s p f w
  | function {body : List Stmt} {f : FunctionLiteral} : p.code = .functions body → .function f ∈ body →
    Makes s p f p.world
  | caseFunction {cases : List Case} {test : Option Expr} {body : List Stmt} {f : FunctionLiteral} :
    p.code = .caseFunctions cases → .mk test body ∈ cases → .function f ∈ body → Makes s p f p.world

/-- The moments of a body: what it begins with, what these come to, and the same for each call of a closure that was
made at one of them, in whatever world it is called later and however deep. -/
inductive Act.Lives (host : Host σ) (rounds : Nat) (env : Env) (body : FunctionBody) (w : World σ) : Moment σ → Prop
  | begin {p : Moment σ} : Begins env w body p → Lives host rounds env body w p
  | part {p q : Moment σ} {level : Nat} : Lives host rounds env body w p →
    p.Part ⟨host, calling host rounds level, rounds⟩ q → Lives host rounds env body w q
  | call {p q : Moment σ} {level : Nat} {code : FunctionLiteral} {made v v' : World σ} {f : Value} {args : List Value}
    {this : Option Value} {inner : Env} : Lives host rounds env body w p →
    p.Makes ⟨host, calling host rounds level, rounds⟩ code made → Grows made.scopes v.scopes →
    enterCall f ⟨code, p.env⟩ args this v = .ok inner v' →
    Begins inner { v' with depth := v'.depth + 1 } code.body q → Lives host rounds env body w q

theorem Act.Begins.moment {env : Env} {w : World σ} {body : FunctionBody} (h : Begins env w body p) :
    p.env = env ∧ Grows w.scopes p.world.scopes ∧ p.code.replaces = 0 ∧ p.code.itemEnv? = none := by
  cases h with
  | value => exact ⟨rfl, lasting_grows.refl _, rfl, rfl⟩
  | functions hw => exact ⟨rfl, (declareVars_grows _ _).of_ok hw, rfl, rfl⟩
  | body hw => exact ⟨rfl, (hoist_grows _ _).of_ok hw, rfl, rfl⟩

theorem Act.Begins.inner {env : Env} {w : World σ} {body : FunctionBody} (h : Begins env w body p) {n : Nat}
    (hn : n ≤ w.scopes.size) : p.Inner n env := by
  obtain ⟨rfl, hg, hr, hi⟩ := h.moment
  exact .start (Nat.le_trans hn hg.size_le) hr hi

theorem Moment.Makes.grows {f : FunctionLiteral} {w : World σ} (h : p.Makes s f w) (hs : s.Grow) :
    Grows p.world.scopes w.scopes := by
  cases h with
  | literal _ hr => exact hr.grows hs
  | function | caseFunction => exact lasting_grows.refl _

def Moment.Placed (p : Moment σ) : Prop :=
  ∃ base, p.Inner 0 base ∧ base ≠ [] ∧ ∀ c ∈ base, c < p.world.scopes.size

theorem Moment.Placed.env {p : Moment σ} (h : p.Placed) : p.env ≠ [] ∧ ∀ c ∈ p.env, c < p.world.scopes.size := by
  obtain ⟨base, hinner, hne, hlt⟩ := h
  obtain ⟨opened, he, -, hopened⟩ := hinner.env
  rw [he]
  refine ⟨by simp [hne], fun c hc => ?_⟩
  rcases List.mem_append.mp hc with hc | hc
  · exact (hopened c hc).lt
  · exact hlt c hc

theorem Act.Begins.placed {env : Env} {w : World σ} {body : FunctionBody} {p : Moment σ} (h : Begins env w body p)
    (hne : env ≠ []) (hlt : ∀ c ∈ env, c < w.scopes.size) : p.Placed :=
  ⟨env, h.inner (Nat.zero_le _), hne, fun c hc => Nat.lt_of_lt_of_le (hlt c hc) h.moment.2.1.size_le⟩

theorem Act.Lives.placed {host : Host σ} {rounds : Nat} {env : Env} {body : FunctionBody} {w : World σ} {p : Moment σ}
    (h : Lives host rounds env body w p) (hne : env ≠ []) (hlt : ∀ c ∈ env, c < w.scopes.size) : p.Placed := by
  induction h with
  | begin hp => exact hp.placed hne hlt
  | @part p q level _ hpart ih =>
    have hs := (calling_steady host rounds level).grow
    obtain ⟨base, hinner, hbase, hcells⟩ := ih
    have hgrows := (p.settled_grows hs).moves lasting_grows hpart
    exact ⟨base, hinner.part hs hpart, hbase, fun c hc => Nat.lt_of_lt_of_le (hcells c hc) hgrows.size_le⟩
  | @call p q level code made v v' f args this inner _ hmakes hg hcall hq ih =>
    obtain ⟨rfl, hopened⟩ := enterCall_inv hcall
    have hsize := hopened.opened.1
    refine hq.placed (List.cons_ne_nil _ _) fun c hc => ?_
    rcases List.mem_cons.mp hc with rfl | hc
    · exact hsize
    · have hmade := ((hmakes.grows (calling_steady host rounds level).grow).trans hg).size_le
      exact Nat.lt_trans (Nat.lt_of_lt_of_le (ih.env.2 c hc) hmade) hsize

end Apiary
