import Apiary.Proofs.Script.Datum

/-!
The text that a value is converted to, in parentheses, is a program whose one expression evaluates to a value with
the same data.
-/

namespace Apiary

theorem tokenize_scans {source : String} {ls : List Lexeme} (h : Scans source.toList ls []) :
    ∃ ts, tokenize source = .ok ts ∧ ts.ahead.map (·.lexeme) = ls ∧
      ∀ k ∈ ts.ahead, k.newlineBefore = false := by
  obtain ⟨n, read, k, hr, hn, hls, hline, heq⟩ :=
    h (source.length + 1) [] (.ofChars source.toList .start) (by simp [Cursor.ofChars])
      (by simp [Cursor.ofChars, String.length_toList])
  have hend : k.rest = [] := hr.rest_of (by simp [Cursor.ofChars])
  obtain ⟨n, rfl⟩ := succ_of_lt hn
  refine ⟨⟨read, k.position, false⟩, ?_, hls, hline⟩
  rw [tokenize, tokenizeAt, heq]
  simp [Cursor.tokens, Cursor.trivia, hend, bind, Except.bind, pure, Except.pure]

theorem parse_data {j : Json} (h : j.Readable) : ∃ e, parse ("(" ++ j.text ++ ")") = .ok [.expr e] ∧
    ∀ {σ : Type} (env : Env) (w : World σ), ∃ v u, (∀ s, Act.evalExpr s env e w = .ok v u) ∧
      u.host = w.host ∧ u.heap.json? v = some j := by
  obtain ⟨e, ls, d⟩ := j.datum h
  refine ⟨e, ?_, fun env w => ?_⟩
  · have hclose : EndsNumber ([')'] ++ []) := by
      intro c hc
      cases hc
      simp
    have hopen := Scans.mark (c := '(') (m := .parenOpen) (by simp)
    have hscan := ((hopen _).append (d.scans hclose)).append (Scans.mark (m := .parenClose) (by simp) [])
    have htext : ("(" ++ j.text ++ ")").toList = ['('] ++ j.text.toList ++ [')'] := by simp
    obtain ⟨ts, ht, hls, hline⟩ := tokenize_scans (htext ▸ hscan)
    have hcalm : ts.Calm := calm_of_arrowFree (hls ▸ d.arrowFree.parenthesised) hline
    exact parse_of_program ht fun n hn =>
      program_reads d.phrase.expression_of_assignment hcalm hls hn
  · obtain ⟨v, u, heval, hadds, hshows⟩ := d.yields env w
    refine ⟨v, u, heval, hadds.host, hshows.json (.refl _) ?_⟩
    have := hadds.cells
    simp only [Heap.depthBound, Heap.cells] at this ⊢
    omega

/-- The text of a number reads back as the number; the sign of a zero is not written. -/
def Double.ReadsBack (x : Double) : Prop := ∃ y, readDecimal? (numberJson x).text.toList = some y ∧
  (y = x ∨ x.magnitude = 0 ∧ y.magnitude = 0)

theorem Double.zero_or_negative {x : Double} (h : x.magnitude = 0) : x = ⟨0⟩ ∨ x = ⟨0x8000000000000000⟩ := by
  obtain ⟨bits⟩ := x
  have hmask : bits &&& 0x7fffffffffffffff = 0 := congrArg Double.bits h
  have hmod : bits.toNat % 0x8000000000000000 = 0 := by
    have hand : bits.toNat &&& 0x7fffffffffffffff = 0 := by
      have := congrArg UInt64.toNat hmask
      rwa [UInt64.toNat_and] at this
    rw [← hand]
    exact (Nat.and_two_pow_sub_one_eq_mod bits.toNat 63).symm
  have hlt := bits.toNat_lt
  have hcases : bits.toNat = 0 ∨ bits.toNat = 0x8000000000000000 := by omega
  rcases hcases with hbits | hbits
  · exact .inl (congrArg Double.mk (UInt64.toNat_inj.mp hbits))
  · exact .inr (congrArg Double.mk (UInt64.toNat_inj.mp hbits))

theorem numberJson_zero {x : Double} (h : x.magnitude = 0) : numberJson x = .int 0 := by
  have zero {x : Double} (hfinite : x.isFinite = true) (hsmall : x.isWhole = true ∧ x.magnitude < 9.0e15)
      (hint : x.toInt = 0) : numberJson x = .int 0 := by
    rw [numberJson, if_neg (by simp [hfinite]), if_pos hsmall, hint]
  rcases Double.zero_or_negative h with rfl | rfl
  · exact zero (by decide) (by decide +kernel) (by decide)
  · exact zero (by decide) (by decide +kernel) (by decide)

namespace Heap

variable {h : Heap}

/-- The kinds of value that data is made of; a key stands once in an object. -/
def Plain (h : Heap) : Value → Prop
  | .null | .bool _ | .string _ | .array _ => True
  | .number x => x.isFinite = true
  | .object cell => ((h.object cell).map Prod.fst).Nodup
  | _ => False

theorem readable_number {x : Double} (hfinite : x.isFinite = true) (hx : x.ReadsBack) : (numberJson x).Readable := by
  obtain ⟨y, hy, hsame⟩ := hx
  have hjson : numberJson y = numberJson x := by
    rcases hsame with rfl | ⟨hx, hy⟩
    · rfl
    · rw [numberJson_zero hx, numberJson_zero hy]
  have hback : (numberJson x).ReadsBack := ⟨y, hy, hjson⟩
  revert hback
  rw [numberJson, if_neg (by simp [hfinite])]
  split
  · exact id
  · exact id

theorem forall₂_of_mapM {α β : Type} {f : α → Option β} {xs : List α} {ys : List β}
    (h : xs.mapM f = some ys) : List.Forall₂ (fun x y => f x = some y) xs ys := by
  induction xs generalizing ys with
  | nil =>
    cases h
    exact .nil
  | cons x xs ih =>
    simp only [List.mapM_cons, Option.bind_eq_bind, Option.bind_eq_some_iff] at h
    obtain ⟨y, hy, zs, hzs, heq⟩ := h
    cases heq
    exact .cons hy (ih hzs)

theorem readableAll_iff {js : List Json} : ReadableAll js ↔ ∀ j ∈ js, j.Readable := by
  induction js with
  | nil => simp [ReadableAll]
  | cons j js ih => simp [ReadableAll, ih]

theorem readableFields_iff {fs : List (String × Json)} : ReadableFields fs ↔ ∀ f ∈ fs, f.2.Readable := by
  induction fs with
  | nil => simp [ReadableFields]
  | cons f fs ih =>
    obtain ⟨key, j⟩ := f
    simp [ReadableFields, ih]

theorem field_json {n : Nat} {p : String × Value} {f : String × Json} (hf : (do
      let j ← h.jsonWithin n p.2
      some (p.1, j)) = some f) : p.1 = f.1 ∧ h.jsonWithin n p.2 = some f.2 := by
  simp only [Option.bind_eq_bind, Option.bind_eq_some_iff] at hf
  obtain ⟨j, hj, heq⟩ := hf
  cases heq
  exact ⟨rfl, hj⟩

theorem keys_eq {α β : Type} {ps : List (String × α)} {fs : List (String × β)}
    (hkeys : List.Forall₂ (fun p f => p.1 = f.1) ps fs) : ps.map Prod.fst = fs.map Prod.fst := by
  induction hkeys with
  | nil => rfl
  | cons hkey _ ih => simp [hkey, ih]

/-- Data made of plain values is readable when the numbers in it read back. -/
theorem readable_of_json {n : Nat} {v : Value} {j : Json} (hj : h.jsonWithin n v = some j)
    (plain : ∀ u, Relation.ReflTransGen h.Holds v u → h.Plain u)
    (reads : ∀ x, Relation.ReflTransGen h.Holds v (.number x) → x.ReadsBack) : j.Readable := by
  induction n generalizing v j with
  | zero =>
    have hv := plain v .refl
    cases v with
    | number x =>
      cases hj
      exact readable_number hv (reads x .refl)
    | null | bool | string =>
      cases hj
      trivial
    | array | object => cases hj
    | _ => exact hv.elim
  | succ n ih =>
    have hv := plain v .refl
    cases v with
    | number x =>
      cases hj
      exact readable_number hv (reads x .refl)
    | null | bool | string =>
      cases hj
      trivial
    | array cell =>
      simp only [jsonWithin, Option.bind_eq_bind, Option.bind_eq_some_iff] at hj
      obtain ⟨js, hmap, heq⟩ := hj
      cases heq
      have hitems := forall₂_of_mapM hmap
      refine readableAll_iff.mpr fun j hj => ?_
      obtain ⟨i, hi, rfl⟩ := List.getElem_of_mem hj
      have hi' := hitems.length_eq ▸ hi
      have hholds : h.Holds (.array cell) (h.array cell).toList[i] := .item (List.getElem_mem hi')
      exact ih ((List.forall₂_iff_get.mp hitems).2 i hi' hi) (fun u hu => plain u (.head hholds hu))
        fun x hx => reads x (.head hholds hx)
    | object cell =>
      simp only [jsonWithin, Option.bind_eq_bind, Option.bind_eq_some_iff] at hj
      obtain ⟨fs, hmap, heq⟩ := hj
      cases heq
      have hfields := (forall₂_of_mapM hmap).imp fun x y hy => field_json hy
      have hkeys := keys_eq (hfields.imp fun _ _ hy => hy.1)
      refine ⟨?_, readableFields_iff.mpr fun f hf => ?_⟩
      · rw [← hkeys]
        exact (List.filter_sublist.map Prod.fst).nodup hv
      · obtain ⟨i, hi, rfl⟩ := List.getElem_of_mem hf
        have hi' := hfields.length_eq ▸ hi
        have hmem := List.mem_of_mem_filter (List.getElem_mem hi')
        have hholds : h.Holds (.object cell) _ := .field hmem
        exact ih ((List.forall₂_iff_get.mp hfields).2 i hi' hi).2 (fun u hu => plain u (.head hholds hu))
          fun x hx => reads x (.head hholds hx)
    | _ => exact hv.elim

end Heap

theorem stringify_json {σ : Type} (host : Host σ) {w : World σ} {v : Value} (hdata : Heap.isData v = true)
    (acyclic : ¬ w.heap.Circular v) : ∃ j, w.heap.json? v = some j ∧
      Act.builtin host .stringify [v] w = .ok (.string j.text) w := by
  cases hj : w.heap.json? v with
  | none => exact absurd (Heap.circular_of_json hj) acyclic
  | some j =>
    cases hx : w.heap.number? v with
    | none => exact absurd (Heap.circular_of_number hx) acyclic
    | some x =>
      refine ⟨j, rfl, ?_⟩
      have hnumber : Act.numberArg [v] 0 w = .ok x w := by
        simp [Act.numberArg, Act.argAt, Act.number, Act.convert, hx]
      have hdatum : (v = .undefined || v.isCallable) = false := by simpa [Heap.isData] using hdata
      have hconvert : (Act.convert [v] (·.json? v) : Act σ Json) w = .ok j w := by simp [Act.convert, hj]
      have hstringify : Act.stringify [v] w = .ok (.string j.text) w := by
        simp only [Act.stringify, Act.argAt, List.getD_cons_zero, hdatum, Bool.false_eq_true, if_false, bind,
          EStateM.bind, hconvert]
        rfl
      simp only [Act.builtin, bind, EStateM.bind, hnumber]
      exact hstringify

/-- The value is acyclic and made of plain values, and its numbers read back from their text. -/
theorem json_text_is_source {σ : Type} (host : Host σ) {w : World σ} {v : Value} (acyclic : ¬ w.heap.Circular v)
    (plain : ∀ u, Relation.ReflTransGen w.heap.Holds v u → w.heap.Plain u)
    (reads : ∀ x, Relation.ReflTransGen w.heap.Holds v (.number x) → x.ReadsBack) :
    ∃ text e j, Act.builtin host .stringify [v] w = .ok (.string text) w ∧
      parse ("(" ++ text ++ ")") = .ok [.expr e] ∧ w.heap.json? v = some j ∧
      ∀ {τ : Type} (env : Env) (start : World τ), ∃ u last, (∀ s, Act.evalExpr s env e start = .ok u last) ∧
        last.host = start.host ∧ last.heap.json? u = some j := by
  have hdata : Heap.isData v = true := by
    have hv := plain v .refl
    cases v with
    | undefined | function | host | builtin => exact hv.elim
    | _ => simp [Heap.isData, Value.isCallable]
  obtain ⟨j, hj, hstringify⟩ := stringify_json host hdata acyclic
  obtain ⟨e, hparse, heval⟩ := parse_data (Heap.readable_of_json hj plain reads)
  exact ⟨j.text, e, j, hstringify, hparse, hj, heval⟩

def silentHost : Host Unit where
  call _ _ := pure .undefined
  checkpoint := pure ()
  random _ := (0, ())
  clock _ := 0
  log _ := pure ()

/-- Holds `[-2.5, "a\"\n", {"b c": null, "d": 0}]`. -/
def sampleHeap : Heap where
  arrays := #[#[.number (-2.5), .string "a\"\n", .object 0]]
  objects := #[[("b c", .null), ("d", .number 0)]]

theorem sampleHeap_holds {v u : Value} (h : sampleHeap.Holds v u) :
    v = .array 0 ∧ u ∈ [.number (-2.5), .string "a\"\n", .object 0] ∨
      v = .object 0 ∧ u ∈ [.null, .number 0] := by
  cases h with
  | @item cell u hu =>
    have hcell := Heap.lt_size_of_mem_array hu
    have hzero : cell = 0 := by
      change cell < 1 at hcell
      omega
    subst hzero
    exact .inl ⟨rfl, hu⟩
  | @field cell k u hu =>
    have hcell := Heap.lt_size_of_mem_object hu
    have hzero : cell = 0 := by
      change cell < 1 at hcell
      omega
    subst hzero
    exact .inr ⟨rfl, List.mem_map_of_mem (f := Prod.snd) hu⟩

/-- The array holds the object, which holds no container. -/
def sampleRank (v : Value) : Nat := if v = .array 0 then 2 else if v = .object 0 then 1 else 0

theorem sampleHeap_acyclic (v : Value) : ¬ sampleHeap.Circular v := by
  have step {v u : Value} (h : sampleHeap.Holds v u) : sampleRank u < sampleRank v := by
    rcases sampleHeap_holds h with ⟨rfl, hu⟩ | ⟨rfl, hu⟩
    · simp only [List.mem_cons, List.not_mem_nil, or_false] at hu
      rcases hu with rfl | rfl | rfl <;> decide
    · simp only [List.mem_cons, List.not_mem_nil, or_false] at hu
      rcases hu with rfl | rfl <;> decide
  have path {v u : Value} (h : Relation.TransGen sampleHeap.Holds v u) : sampleRank u < sampleRank v := by
    induction h with
    | single h => exact step h
    | tail _ h ih => exact Nat.lt_trans (step h) ih
  rintro ⟨u, -, hu⟩
  exact Nat.lt_irrefl _ (path hu)

theorem sample_json_is_source : ∃ text e j,
    Act.builtin silentHost .stringify [.array 0] ⟨⟨sampleHeap, ()⟩, #[], #[], 0⟩ =
      .ok (.string text) ⟨⟨sampleHeap, ()⟩, #[], #[], 0⟩ ∧
    parse ("(" ++ text ++ ")") = .ok [.expr e] ∧ sampleHeap.json? (.array 0) = some j ∧
    ∀ {τ : Type} (env : Env) (start : World τ), ∃ u last, (∀ s, Act.evalExpr s env e start = .ok u last) ∧
      last.host = start.host ∧ last.heap.json? u = some j := by
  have reached {u : Value} (h : Relation.ReflTransGen sampleHeap.Holds (.array 0) u) :
      u ∈ [.array 0, .number (-2.5), .string "a\"\n", .object 0, .null, .number 0] := by
    rcases h.cases_tail with rfl | ⟨b, -, hb⟩
    · simp
    · rcases sampleHeap_holds hb with ⟨-, hu⟩ | ⟨-, hu⟩
      · simp only [List.mem_cons, List.not_mem_nil, or_false] at hu ⊢
        tauto
      · simp only [List.mem_cons, List.not_mem_nil, or_false] at hu ⊢
        tauto
  refine json_text_is_source silentHost (sampleHeap_acyclic _) ?_ ?_
  · intro u hu
    have := reached hu
    simp only [List.mem_cons, List.not_mem_nil, or_false] at this
    rcases this with rfl | rfl | rfl | rfl | rfl | rfl
    · trivial
    · exact (by decide +kernel : Double.isFinite (-2.5) = true)
    · trivial
    · exact (by decide : ["b c", "d"].Nodup)
    · trivial
    · exact (by decide : Double.isFinite 0 = true)
  · intro x hx
    have := reached hx
    simp only [List.mem_cons, List.not_mem_nil, or_false, Value.number.injEq, reduceCtorEq, false_or] at this
    rcases this with rfl | rfl
    · exact ⟨-2.5, by decide +kernel, .inl rfl⟩
    · exact ⟨0, by decide +kernel, .inl rfl⟩

end Apiary
