import Apiary.Proofs.Script.Sound
import Apiary.Proofs.Script.Record

/-!
The sort of arrays asks for one comparison after the other. It writes once, when all of them have been answered;
when one is cut short, the sort ends with it. If the answers follow one order, the result is the stable sort by it.
-/

namespace Apiary

/-- Whether two values are equal in an order. -/
def alike {α : Type} (le : α → α → Bool) (a b : α) : Bool := le a b && le b a

/-- Sorted by an order, with equal values where they stood among themselves. -/
structure StablySorted {α : Type} (le : α → α → Bool) (items sorted : List α) : Prop where
  ordered : sorted.Pairwise fun a b => le a b = true
  stable (a : α) : sorted.filter (alike le a) = items.filter (alike le a)

theorem StablySorted.of_length_le_one {α : Type} (le : α → α → Bool) {items : List α} (h : items.length ≤ 1) :
    StablySorted le items items where
  ordered := by
    cases items with
    | nil => exact .nil
    | cons a rest =>
      rw [List.eq_nil_of_length_eq_zero (Nat.le_zero.mp (Nat.le_of_succ_le_succ h))]
      exact List.pairwise_singleton _ a
  stable _ := rfl

structure TotalPreorder {α : Type} (le : α → α → Bool) : Prop where
  trans (a b c : α) : le a b = true → le b c = true → le a c = true
  total (a b : α) : (le a b || le b a) = true

section Merge

variable {α : Type} {le : α → α → Bool} {left right : List α}

/-- The first of the right list goes first only when nothing of the left one is equal to it. -/
theorem filter_alike_eq_nil (hle : TotalPreorder le) {a b c : α} (hab : le a b = false)
    (hleft : (a :: left).Pairwise fun x y => le x y = true) (hb : alike le c b = true) :
    (a :: left).filter (alike le c) = [] := by
  refine List.filter_eq_nil_iff.mpr fun x hx hcx => ?_
  simp only [alike, Bool.and_eq_true] at hb hcx
  have hxb : le x b = true := hle.trans _ _ _ hcx.2 hb.1
  rcases List.mem_cons.mp hx with rfl | hx
  · exact Bool.false_ne_true (hab.symm.trans hxb)
  · have hax : le a x = true := List.rel_of_pairwise_cons hleft hx
    exact Bool.false_ne_true (hab.symm.trans (hle.trans _ _ _ hax hxb))

theorem filter_merge (hle : TotalPreorder le) (hleft : left.Pairwise fun x y => le x y = true) (c : α) :
    (left.merge right le).filter (alike le c) = left.filter (alike le c) ++ right.filter (alike le c) := by
  induction left generalizing right with
  | nil => simp
  | cons a left ihl =>
    induction right with
    | nil => simp
    | cons b right ihr =>
      rw [List.cons_merge_cons]
      cases hab : le a b with
      | true =>
        have hrest : (left.merge (b :: right) le).filter (alike le c) = _ := ihl hleft.of_cons
        rw [if_pos rfl, List.filter_cons, @List.filter_cons _ a left, hrest]
        split <;> rfl
      | false =>
        rw [if_neg Bool.false_ne_true, List.filter_cons, ihr]
        split
        next hb =>
          rw [filter_alike_eq_nil hle hab hleft hb, List.filter_cons_of_pos hb]
          rfl
        next hb => rw [List.filter_cons_of_neg hb]

theorem StablySorted.merge (hle : TotalPreorder le) {items items' : List α}
    (hl : StablySorted le items left) (hr : StablySorted le items' right) :
    StablySorted le (items ++ items') (left.merge right le) where
  ordered := List.pairwise_merge hle.trans hle.total left right hl.ordered hr.ordered
  stable a := by
    rw [filter_merge hle hl.ordered, hl.stable, hr.stable, List.filter_append]

end Merge

structure Comparison where
  left : Value
  right : Value
  rightFirst : Bool

def Comparison.Follows (le : Value → Value → Bool) (c : Comparison) : Prop :=
  c.rightFirst = !le c.left c.right

namespace Act

variable {σ α β : Type} {ask : Value → Value → Act σ Bool}

/-- Comparisons made one after the other, each with the answer it got. -/
inductive Compared (ask : Value → Value → Act σ Bool) : World σ → List Comparison → World σ → Prop
  | none (w : World σ) : Compared ask w [] w
  | next {u v w : World σ} {a b : Value} {r : Bool} {log : List Comparison} : ask a b u = .ok r v →
    Compared ask v log w → Compared ask u (⟨a, b, r⟩ :: log) w

theorem Compared.trans {u v w : World σ} {log log' : List Comparison} (h : Compared ask u log v)
    (h' : Compared ask v log' w) : Compared ask u (log ++ log') w := by
  induction h with
  | none => exact h'
  | next hr _ ih => exact .next hr (ih h')

/-- What is left of an act that makes comparisons and does nothing else: a result that answers to them, or the
interrupt of the last of them. -/
inductive Decided (ask : Value → Value → Act σ Bool) (Q : List Comparison → α → Prop) (w : World σ) :
    EStateM.Result Interrupt (World σ) α → Prop
  | ok {log : List Comparison} {x : α} {v : World σ} : Compared ask w log v → Q log x →
    Decided ask Q w (.ok x v)
  | error {log : List Comparison} {a b : Value} {e : Interrupt} {v v' : World σ} : Compared ask w log v →
    ask a b v = .error e v' → Decided ask Q w (.error e v')

namespace Decided

variable {Q : List Comparison → α → Prop} {w : World σ}

theorem bind {Q' : List Comparison → β → Prop} {a : Act σ α} {f : α → Act σ β}
    (ha : Decided ask Q w (a w))
    (hf : ∀ x v log, Q log x → Decided ask (fun log' y => Q' (log ++ log') y) v (f x v)) :
    Decided ask Q' w ((a >>= f) w) := by
  simp only [Bind.bind, EStateM.bind]
  generalize a w = r at ha ⊢
  cases ha with
  | @ok log x v hv hq =>
    have hfx := hf x v log hq
    dsimp only
    generalize f x v = r at hfx ⊢
    cases hfx with
    | ok hv' hq' => exact .ok (hv.trans hv') hq'
    | error hv' he => exact .error (hv.trans hv') he
  | error hv he => exact .error hv he

theorem mono {Q' : List Comparison → α → Prop} {r : EStateM.Result Interrupt (World σ) α}
    (h : Decided ask Q w r) (hq : ∀ log x, Q log x → Q' log x) : Decided ask Q' w r := by
  cases h with
  | ok hv hx => exact .ok hv (hq _ _ hx)
  | error hv he => exact .error hv he

theorem asked (a b : Value) (w : World σ) :
    Decided ask (fun log r => log = [⟨a, b, r⟩]) w (ask a b w) := by
  cases h : ask a b w with
  | ok r v => exact .ok (.next h (.none v)) rfl
  | error e v => exact .error (.none w) h

end Decided

structure Merged (left right : List Value) (log : List Comparison) (out : List Value) : Prop where
  perm : out.Perm (left ++ right)
  follows {le : Value → Value → Bool} : (∀ c ∈ log, c.Follows le) → out = left.merge right le

namespace Merged

variable {a b : Value} {left right out : List Value} {log : List Comparison}

theorem of_nil (h : left = [] ∨ right = []) : Merged left right [] (left ++ right) where
  perm := .refl _
  follows _ := by
    rcases h with rfl | rfl
    · rw [List.nil_merge, List.nil_append]
    · rw [List.merge_right, List.append_nil]

theorem cons_left (h : Merged left (b :: right) log out) :
    Merged (a :: left) (b :: right) (⟨a, b, false⟩ :: log) (a :: out) where
  perm := h.perm.cons a
  follows {le} hlog := by
    have hab : false = !le a b := hlog _ List.mem_cons_self
    rw [List.cons_merge_cons, if_pos (by simpa using hab.symm)]
    rw [h.follows fun c hc => hlog c (List.mem_cons_of_mem _ hc)]

theorem cons_right (h : Merged (a :: left) right log out) :
    Merged (a :: left) (b :: right) (⟨a, b, true⟩ :: log) (b :: out) where
  perm := (h.perm.cons b).trans List.perm_middle.symm
  follows {le} hlog := by
    have hab : true = !le a b := hlog _ List.mem_cons_self
    rw [List.cons_merge_cons, if_neg (by simpa using hab.symm)]
    rw [h.follows fun c hc => hlog c (List.mem_cons_of_mem _ hc)]

end Merged

theorem merge_decided (n : Nat) (done left right : List Value) (hn : left.length + right.length ≤ n)
    (w : World σ) :
    Decided ask (fun log out => ∃ rest, out = done.reverse ++ rest ∧ Merged left right log rest) w
      (merge ask n done left right w) := by
  have hstop {done left right : List Value} {w : World σ} (h : left = [] ∨ right = []) :
      Decided ask (fun log out => ∃ rest, out = done.reverse ++ rest ∧ Merged left right log rest) w
        (.ok (done.reverse ++ left ++ right) w) :=
    .ok (.none w) ⟨_, List.append_assoc _ _ _, .of_nil h⟩
  induction n generalizing done left right w with
  | zero => exact hstop (.inl (List.length_eq_zero_iff.mp (by omega)))
  | succ n ih =>
    cases left with
    | nil => exact hstop (.inl rfl)
    | cons a left =>
      cases right with
      | nil => exact hstop (.inr rfl)
      | cons b right =>
        refine (Decided.asked a b w).bind fun first v log hlog => ?_
        subst hlog
        simp only [List.length_cons] at hn
        cases first with
        | true =>
          refine (ih (b :: done) (a :: left) right (by simp only [List.length_cons]; omega) v).mono ?_
          rintro log _ ⟨rest, rfl, hm⟩
          exact ⟨b :: rest, by simp, hm.cons_right⟩
        | false =>
          refine (ih (a :: done) left (b :: right) (by simp only [List.length_cons]; omega) v).mono ?_
          rintro log _ ⟨rest, rfl, hm⟩
          exact ⟨a :: rest, by simp, hm.cons_left⟩

structure Sorted (items : List Value) (log : List Comparison) (out : List Value) : Prop where
  perm : out.Perm items
  follows {le : Value → Value → Bool} : TotalPreorder le → (∀ c ∈ log, c.Follows le) →
    StablySorted le items out

theorem Merged.sorted {items items' left right out : List Value} {log log' log'' : List Comparison}
    (hl : Sorted items log left) (hr : Sorted items' log' right) (hm : Merged left right log'' out) :
    Sorted (items ++ items') (log ++ (log' ++ log'')) out where
  perm := hm.perm.trans (hl.perm.append hr.perm)
  follows {le} hle hlog := by
    simp only [List.mem_append] at hlog
    rw [hm.follows fun c hc => hlog c (.inr (.inr hc))]
    exact .merge hle (hl.follows hle fun c hc => hlog c (.inl hc))
      (hr.follows hle fun c hc => hlog c (.inr (.inl hc)))

theorem mergeSort_decided (n : Nat) (items : List Value) (hn : items.length ≤ n) (w : World σ) :
    Decided ask (Sorted items) w (mergeSort ask n items w) := by
  have hstop {items : List Value} {w : World σ} (h : items.length ≤ 1) :
      Decided ask (Sorted items) w (.ok items w) :=
    .ok (.none w) ⟨.refl _, fun _ _ => .of_length_le_one _ h⟩
  induction n generalizing items w with
  | zero => exact hstop (by omega)
  | succ n ih =>
    unfold mergeSort
    split
    next h => exact hstop h
    next h =>
      dsimp only
      have hleft : (items.take (items.length / 2)).length ≤ n := by
        rw [List.length_take]
        omega
      have hright : (items.drop (items.length / 2)).length ≤ n := by
        rw [List.length_drop]
        omega
      refine (ih _ hleft w).bind fun left v log hl => ?_
      refine (ih _ hright v).bind fun right v log' hr => ?_
      have hlength : left.length + right.length ≤ items.length := by
        rw [hl.perm.length_eq, hr.perm.length_eq, ← List.length_append, List.take_append_drop]
      refine (merge_decided items.length [] left right hlength v).mono ?_
      rintro log'' _ ⟨rest, rfl, hm⟩
      have hsorted := hm.sorted hl hr
      rwa [List.take_append_drop] at hsorted

theorem Compared.sound {u v : World σ} {log : List Comparison} {n d : Nat}
    (hask : ∀ a b, Sound False n d (ask a b)) (h : Compared ask u log v) (hu : u.Sound False n d) :
    v.Sound False n d := by
  induction h with
  | none => exact hu
  | next hr _ ih => exact ih ((hask _ _ _ hu).of_ok hr)

section Text

variable {call : Calling σ} {comparator : Value}

def textOf (h : Heap) (v : Value) : String := (h.display? v).getD ""

/-- The order of values by their texts. -/
def textOrder (h : Heap) (v w : Value) : Bool := !decide (textOf h w < textOf h v)

theorem totalPreorder_textOrder (h : Heap) : TotalPreorder (textOrder h) where
  trans a b c hab hbc := by
    simp only [textOrder, Bool.not_eq_true', decide_eq_false_iff_not, String.not_lt] at hab hbc ⊢
    exact String.le_trans hab hbc
  total a b := by
    simp only [textOrder, Bool.or_eq_true, Bool.not_eq_true', decide_eq_false_iff_not, String.not_lt]
    exact String.le_total _ _

theorem display_ok {v : Value} {s : String} {w w' : World σ} (h : display v w = .ok s w') :
    w' = w ∧ s = textOf w.heap v := by
  unfold display convert at h
  split at h
  next t ht =>
    cases h
    exact ⟨rfl, (congrArg (·.getD "") ht).symm⟩
  next => cases h

theorem comesBefore_text (hc : comparator.isCallable = false) {a b : Value} {r : Bool} {w v : World σ}
    (h : comesBefore call comparator a b w = .ok r v) : v = w ∧ r = !textOrder w.heap a b := by
  unfold comesBefore at h
  rw [if_neg (by rw [hc]; exact Bool.false_ne_true)] at h
  obtain ⟨s, w₁, hs, h⟩ := bind_ok h
  obtain ⟨t, w₂, ht, h⟩ := bind_ok h
  obtain ⟨rfl, rfl⟩ := display_ok hs
  obtain ⟨rfl, rfl⟩ := display_ok ht
  cases h
  exact ⟨rfl, by rw [textOrder, Bool.not_not]⟩

theorem Compared.texts (hc : comparator.isCallable = false) {u v : World σ} {log : List Comparison}
    (h : Compared (comesBefore call comparator) u log v) :
    v = u ∧ ∀ c ∈ log, c.Follows (textOrder u.heap) := by
  induction h with
  | none w => exact ⟨rfl, fun _ hc => absurd hc List.not_mem_nil⟩
  | next hr _ ih =>
    obtain ⟨rfl, hanswer⟩ := comesBefore_text hc hr
    refine ⟨ih.1, fun c hmem => ?_⟩
    rcases List.mem_cons.mp hmem with rfl | hmem
    · exact hanswer
    · exact ih.2 c hmem

end Text

theorem callMethod_sort (host : Host σ) (call : Calling σ) (cell : Nat) (args : List Value) (what : String) :
    callMethod host call (.array cell) "sort" args what = sortMethod call cell (argAt args 0) := by
  funext w
  have hmethod : method? host call (.array cell) "sort" args =
      some <$> sortMethod call cell (argAt args 0) := rfl
  simp only [callMethod, hmethod, Bind.bind, EStateM.bind, Functor.map, EStateM.map]
  cases sortMethod call cell (argAt args 0) w <;> rfl

theorem array_setArray {h : Heap} {cell : Nat} (hcell : cell < h.arrays.size) (items : Array Value) :
    (h.setArray cell items).array cell = items := by
  simp [Heap.array, Heap.setArray, hcell]

end Act

open Act

/-- Sorting asks the comparator and then writes once: a permutation of the items that the array held at the call, stably
sorted when all answers follow one order. When a question fails, its interrupt is the outcome and nothing is written. -/
theorem sort_stable_or_interrupted {σ : Type} {host : Host σ} {cell level : Nat} (rounds : Nat) {w : World σ}
    (hh : host.Sound False (cell + 1)) (hd : w.depth + level = maxCallDepth)
    (hcell : cell < w.heap.arrays.size) (args : List Value) (what : String) :
    ∃ log v, Compared (comesBefore (calling host rounds (level + 1)) (argAt args 0)) w log v ∧
      ((∃ sorted : List Value,
          callMethod host (calling host rounds (level + 1)) (.array cell) "sort" args what w =
            .ok (.array cell) { v with heap := v.heap.setArray cell sorted.toArray } ∧
          (v.heap.setArray cell sorted.toArray).array cell = sorted.toArray ∧
          sorted.Perm (w.heap.array cell).toList ∧
          (∀ le, TotalPreorder le → (∀ c ∈ log, c.Follows le) →
            StablySorted le (w.heap.array cell).toList sorted) ∧
          ((argAt args 0).isCallable = false →
            v = w ∧ StablySorted (textOrder w.heap) (w.heap.array cell).toList sorted)) ∨
        ∃ a b e v', comesBefore (calling host rounds (level + 1)) (argAt args 0) a b v = .error e v' ∧
          callMethod host (calling host rounds (level + 1)) (.array cell) "sort" args what w = .error e v') := by
  have hask (a b : Value) :
      Act.Sound False (cell + 1) w.depth (comesBefore (calling host rounds (level + 1)) (argAt args 0) a b) :=
    ((Sound.stepwise hh rounds).termwise w.depth 0 []).comesBefore ((Sound.stepwise hh rounds).calling level hd) _ a b
  rw [callMethod_sort]
  generalize argAt args 0 = comparator at hask ⊢
  have hsorts : Decided (comesBefore (calling host rounds (level + 1)) comparator)
      (Sorted (w.heap.array cell).toList) w _ := mergeSort_decided _ _ (Nat.le_refl _) w
  simp only [sortMethod, Bind.bind, EStateM.bind, look, update]
  generalize mergeSort (comesBefore (calling host rounds (level + 1)) comparator)
    (w.heap.array cell).toList.length (w.heap.array cell).toList w = r at hsorts ⊢
  cases hsorts with
  | @ok log sorted v hv hs =>
    have hkept : cell < v.heap.arrays.size := (hv.sound hask ⟨rfl, hcell, False.elim⟩).arrays
    refine ⟨log, v, hv, .inl ⟨sorted, rfl, array_setArray hkept _, hs.perm, fun le => hs.follows, fun hc => ?_⟩⟩
    obtain ⟨rfl, hlog⟩ := hv.texts hc
    exact ⟨rfl, hs.follows (totalPreorder_textOrder _) hlog⟩
  | error hv he => exact ⟨_, _, hv, .inr ⟨_, _, _, _, he, rfl⟩⟩

/-- A list of three: a text, then a list whose text is that of the value after it. -/
def alikePair : World Nat :=
  ⟨⟨{ arrays := #[#[.string "b", .array 1, .string "a"], #[.string "a"]] }, 0⟩, #[], #[], 0⟩

theorem alikePair_sorted : ∃ sorted : List Value,
    callMethod .countdown (calling .countdown 1 257) (.array 0) "sort" [] "list.sort" alikePair =
      .ok (.array 0) { alikePair with heap := alikePair.heap.setArray 0 sorted.toArray } ∧
    StablySorted (textOrder alikePair.heap) [.string "b", .array 1, .string "a"] sorted ∧
    sorted.filter (alike (textOrder alikePair.heap) (.string "a")) = [.array 1, .string "a"] := by
  have hd : alikePair.depth + 256 = maxCallDepth := rfl
  have halike : ([.string "b", .array 1, .string "a"] : List Value).filter
      (alike (textOrder alikePair.heap) (.string "a")) = [.array 1, .string "a"] := by decide +kernel
  rcases sort_stable_or_interrupted 1 (Host.countdown_sound False 1) hd (by decide) [] "list.sort" with
    ⟨log, v, -, ⟨sorted, hcall, -, -, -, htext⟩ | ⟨_, _, _, _, -, hcall⟩⟩
  · obtain ⟨rfl, hsorted⟩ := htext rfl
    exact ⟨sorted, hcall, hsorted, (hsorted.stable (.string "a")).trans halike⟩
  · cases hcall

end Apiary
