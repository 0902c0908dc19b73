import Apiary.Proofs.Script.Circular
import Apiary.Proofs.Script.Rendering
import Apiary.Proofs.Source.Scanned
import Apiary.Script.Run

/-!
The text of data is an expression: its tokens, the tree they are parsed to, and the value of that tree, which has
the same data.
-/

namespace Apiary

mutual

def Json.levels : Json → Nat
  | .arr items => levelsAll items + 1
  | .obj fields => levelsFields fields + 1
  | _ => 0

def levelsAll : List Json → Nat
  | [] => 0
  | j :: js => max j.levels (levelsAll js)

def levelsFields : List (String × Json) → Nat
  | [] => 0
  | (_, j) :: fs => max j.levels (levelsFields fs)

end

theorem mem_levelsAll : ∀ (js : List Json), ∀ j ∈ js, j.levels ≤ levelsAll js
  | [], _, h => by cases h
  | j :: js, i, h => by
    rw [levelsAll]
    rcases List.mem_cons.mp h with rfl | h
    · exact Nat.le_max_left _ _
    · exact Nat.le_trans (mem_levelsAll js i h) (Nat.le_max_right _ _)

theorem mem_levelsFields : ∀ (fs : List (String × Json)), ∀ f ∈ fs, f.2.levels ≤ levelsFields fs
  | [], _, h => by cases h
  | (_, j) :: fs, f, h => by
    rw [levelsFields]
    rcases List.mem_cons.mp h with rfl | h
    · exact Nat.le_max_left _ _
    · exact Nat.le_trans (mem_levelsFields fs f h) (Nat.le_max_right _ _)

/-- The text of a number reads back as a number with the same data. -/
def Json.ReadsBack (j : Json) : Prop := ∃ x, readDecimal? j.text.toList = some x ∧ numberJson x = j

mutual

def Json.Readable : Json → Prop
  | .int i => (Json.int i).ReadsBack
  | .float x => (Json.float x).ReadsBack
  | .arr items => ReadableAll items
  | .obj fields => (fields.map Prod.fst).Nodup ∧ ReadableFields fields
  | _ => True

def ReadableAll : List Json → Prop
  | [] => True
  | j :: js => j.Readable ∧ ReadableAll js

def ReadableFields : List (String × Json) → Prop
  | [] => True
  | (_, j) :: fs => j.Readable ∧ ReadableFields fs

end

namespace Heap

/-- Cells that exist keep their content. -/
structure Keeps (h h' : Heap) : Prop where
  array {cell : Nat} {items : Array Value} : h.arrays[cell]? = some items → h'.arrays[cell]? = some items
  object {cell : Nat} {fields : List (String × Value)} : h.objects[cell]? = some fields →
    h'.objects[cell]? = some fields

theorem Keeps.refl (h : Heap) : h.Keeps h := ⟨id, id⟩

theorem Keeps.trans {h h' h'' : Heap} (a : h.Keeps h') (b : h'.Keeps h'') : h.Keeps h'' :=
  ⟨fun e => b.array (a.array e), fun e => b.object (a.object e)⟩

theorem keeps_push {α : Type} {xs : Array α} {i : Nat} {x y : α} (h : xs[i]? = some x) :
    (xs.push y)[i]? = some x := by
  have hi : i < xs.size := (Array.getElem?_eq_some_iff.mp h).1
  rw [Array.getElem?_push, if_neg (by omega), h]

/-- A value has this data now and in every later heap that keeps what there is. -/
structure Shows (h : Heap) (v : Value) (j : Json) : Prop where
  data : isData v = true
  json {h' : Heap} {n : Nat} : h.Keeps h' → j.levels ≤ n → h'.jsonWithin n v = some j

theorem Shows.later {h h' : Heap} {v : Value} {j : Json} (s : h.Shows v j) (k : h.Keeps h') : h'.Shows v j :=
  ⟨s.data, fun k' hn => s.json (k.trans k') hn⟩

end Heap

/-- What evaluating data does: it adds cells and touches nothing else. -/
structure Adds {σ : Type} (w u : World σ) (n : Nat) : Prop where
  host : u.host = w.host
  keeps : w.heap.Keeps u.heap
  cells : w.heap.cells + n ≤ u.heap.cells

theorem Adds.refl {σ : Type} (w : World σ) : Adds w w 0 := ⟨rfl, .refl _, by omega⟩

theorem Adds.trans {σ : Type} {w u v : World σ} {m n : Nat} (a : Adds w u m) (b : Adds u v n) :
    Adds w v (max m n) :=
  ⟨by rw [b.host, a.host], a.keeps.trans b.keeps, by have := a.cells; have := b.cells; omega⟩

/-- The text of `j` is scanned as `ls` and read as `e`, and the value of `e` has the data `j`. -/
structure Datum (j : Json) (e : Expr) (ls : List Lexeme) : Prop where
  scans {rest : List Char} : EndsNumber rest → Scans j.text.toList ls rest
  phrase : Phrase Rules.assignmentRule 5 e ls
  arrowFree : ArrowFree ls
  yields {σ : Type} (env : Env) (w : World σ) : ∃ v u, (∀ s, Act.evalExpr s env e w = .ok v u) ∧
    Adds w u j.levels ∧ u.heap.Shows v j

theorem Datum.constant {j : Json} {e : Expr} {l : Lexeme} {v : Value} (hlevels : j.levels = 0)
    (scans : ∀ {rest}, EndsNumber rest → Scans j.text.toList [l] rest) (operand : Operand e [l])
    (harrow : l ≠ .mark .arrow) (hdata : Heap.isData v = true) (hjson : ∀ (h : Heap) n, h.jsonWithin n v = some j)
    (heval : ∀ {σ : Type} (s : Surroundings σ) (env : Env), Act.evalExpr s env e = pure v) : Datum j e [l] where
  scans := scans
  phrase := (Phrase.of_operand operand).assignment_of_unary
  arrowFree := .one harrow
  yields env w := by
    refine ⟨v, w, fun s => by rw [heval]; rfl, ?_, hdata, fun _ _ => hjson _ _⟩
    rw [hlevels]
    exact .refl w

namespace Datum

theorem null : Datum .null .null [.name "null"] :=
  constant (v := .null) rfl (fun hend => Scans.word (by decide) (by decide) (by decide) (by decide)
    (hend.head (by decide))) .null (by simp) (by decide) (fun _ n => by cases n <;> rfl) fun _ _ => rfl

theorem bool (b : Bool) : Datum (.bool b) (.bool b) [.name (if b then "true" else "false")] := by
  refine constant (v := .bool b) rfl ?_ (.bool b) (by simp) (by simp [Heap.isData, Value.isCallable])
    (fun _ n => by cases n <;> rfl) fun _ _ => rfl
  intro rest hend
  cases b with
  | true => exact Scans.word (by decide) (by decide) (by decide) (by decide) (hend.head (by decide))
  | false => exact Scans.word (by decide) (by decide) (by decide) (by decide) (hend.head (by decide))

end Datum

theorem hexDigit_value : ∀ n < 16, digitOf? 16 (Json.hexDigit n) = some n := by decide

/-- A control character written by its code. -/
theorem escape_code {c : Char} (h : c.toNat < 32) :
    Escape c ['u', '0', '0', Json.hexDigit (c.toNat / 16), Json.hexDigit (c.toNat % 16)] := by
  have hhigh := hexDigit_value (c.toNat / 16) (by omega)
  have hlow := hexDigit_value (c.toNat % 16) (by omega)
  have hzero : digitOf? 16 '0' = some 0 := by decide
  have hvalue : valueOf? 16 ['0', '0', Json.hexDigit (c.toNat / 16), Json.hexDigit (c.toNat % 16)] =
      some c.toNat := by
    simp [valueOf?, hhigh, hlow, hzero]
    omega
  have hchar : Cursor.charOfCode c.toNat = c := by
    have hvalid : c.toNat.isValidChar := .inl (by omega)
    simp [Cursor.charOfCode, hvalid]
  have := Escape.code rfl hvalue
  rwa [hchar] at this

theorem quoted_escape {c : Char} {s text : List Char} (h : Quoted '"' s text) :
    Quoted '"' (c :: s) (Json.escape c ++ text) := by
  have simple {c d : Char} (hc : Cursor.simpleEscape d = c) (hd : d ≠ 'u') :
      Quoted '"' (c :: s) ('\\' :: d :: text) := by
    subst hc
    exact Quoted.escape (Escape.simple hd) h
  have of_code {n : Nat} (hn : c.toNat = n) : c = Char.ofNat n := by rw [← hn, Char.ofNat_toNat]
  unfold Json.escape
  split_ifs with hquote hslash hline hreturn htab hback hfeed hcode
  · exact simple (by rw [hquote]; decide) (by decide)
  · exact simple (by rw [hslash]; decide) (by decide)
  · exact simple (by rw [hline]; decide) (by decide)
  · exact simple (by rw [hreturn]; decide) (by decide)
  · exact simple (by rw [htab]; decide) (by decide)
  · exact simple (by rw [of_code hback]; decide) (by decide)
  · exact simple (by rw [of_code hfeed]; decide) (by decide)
  · exact Quoted.escape (escape_code hcode) h
  · exact Quoted.plain hquote hslash hline h

theorem quoted_text (s : List Char) : Quoted '"' s (s.flatMap Json.escape) := by
  induction s with
  | nil => exact .nil
  | cons c s ih => exact quoted_escape ih

theorem scans_quoted (s : String) (rest : List Char) : Scans (Json.quoted s).toList [.string s] rest := by
  have hscans : Scans ('"' :: s.toList.flatMap Json.escape ++ ['"']) [.string (String.ofList s.toList)] rest :=
    .string (.inl rfl) (quoted_text s.toList)
  simpa [Json.quoted] using hscans

namespace Datum

theorem string (s : String) : Datum (.str s) (.string s) [.string s] :=
  constant (v := .string s) rfl (fun _ => scans_quoted s _) (.string s) (by simp)
    (by simp [Heap.isData, Value.isCallable]) (fun _ n => by cases n <;> rfl) fun _ _ => rfl

theorem shows_number {j : Json} {x : Double} (hx : numberJson x = j) (h : Heap) : h.Shows (.number x) j :=
  ⟨by simp [Heap.isData, Value.isCallable], fun {_ n} _ _ => by cases n <;> simp [Heap.jsonWithin, hx]⟩

theorem signed {j : Json} {u : List Char} {x z : Double} {c : Char} {m : Mark} {op : UnaryOp} (hj : j.levels = 0)
    (hjson : numberJson x = j) (hm : (c, m) ∈ [('-', Mark.minus), ('+', .plus)]) (hop : op.lexeme = .mark m)
    (htext : j.text.toList = c :: u) (hu : Numeral u) (hz : readDecimal? u = some z)
    (heval : ∀ {σ : Type} (s : Surroundings σ) env w,
      Act.evalExpr s env (.unary op (.number z)) w = .ok (.number x) w) :
    Datum j (.unary op (.number z)) [.mark m, .number z] where
  scans {rest} hend := by
    rw [htext]
    exact (Scans.sign hm hu rest).append (Scans.number hu hz hend)
  phrase := by
    rw [← hop]
    exact ((Phrase.of_operand (.number z)).unary op).assignment_of_unary
  arrowFree := by
    refine (ArrowFree.one (by simp)).cons ?_
    rw [← hop]
    cases op <;> simp [UnaryOp.lexeme]
  yields env w := ⟨.number x, w, fun s => heval s env w, hj ▸ .refl w, shows_number hjson _⟩

/-- A number is a literal; the sign before it is an operation. -/
theorem number {j : Json} (hj : j.levels = 0) (h : j.ReadsBack) : ∃ e ls, Datum j e ls := by
  obtain ⟨x, hx, hjson⟩ := h
  obtain ⟨hnumeral, z, hz, hsign⟩ := unsigned_of_readDecimal hx
  rcases optionalSign_eq j.text.toList with ⟨htext, hplain⟩ | ⟨htext, hminus⟩ | ⟨htext, hplus⟩
  · simp only [hplain, Bool.false_eq_true, if_false] at hsign
    subst hsign
    rw [← htext] at hz hnumeral
    exact ⟨_, _, fun hend => Scans.number hnumeral hz hend, (Phrase.of_operand (.number x)).assignment_of_unary,
      .one (by simp), fun env w => ⟨.number x, w, fun s => rfl, hj ▸ .refl w, shows_number hjson _⟩⟩
  · simp only [hminus, if_true] at hsign
    subst hsign
    exact ⟨.unary .neg (.number z), [.mark .minus, .number z],
      signed hj hjson (by simp) rfl htext hnumeral hz fun s env w => rfl⟩
  · simp only [hplus, Bool.false_eq_true, if_false] at hsign
    subst hsign
    exact ⟨.unary .plus (.number x), [.mark .plus, .number x],
      signed hj hjson (by simp) rfl htext hnumeral hz fun s env w => rfl⟩

end Datum

/-- Data side by side with their expressions and tokens. -/
abbrev Data (js : List Json) (ds : List (Expr × List Lexeme)) : Prop :=
  List.Forall₂ (fun j d => Datum j d.1 d.2) js ds

namespace Data

variable {js : List Json} {ds : List (Expr × List Lexeme)}

theorem phrases (h : Data js ds) :
    List.Forall₂ (Phrase Rules.assignmentRule 5) (ds.map Prod.fst) (ds.map Prod.snd) := by
  induction h with
  | nil => exact .nil
  | cons h _ ih => exact .cons h.phrase ih

theorem arrowFree (h : Data js ds) : ∀ ls ∈ ds.map Prod.snd, ArrowFree ls := by
  induction h with
  | nil => simp
  | cons h _ ih =>
    simp only [List.map_cons, List.mem_cons, forall_eq_or_imp]
    exact ⟨h.arrowFree, ih⟩

theorem yields (h : Data js ds) {σ : Type} (env : Env) (w : World σ) : ∃ vs u,
    (∀ s, Act.evalAll s env (ds.map Prod.fst) w = .ok vs u) ∧ Adds w u (levelsAll js) ∧
      List.Forall₂ u.heap.Shows vs js := by
  induction h generalizing w with
  | nil => exact ⟨[], w, fun s => rfl, .refl w, .nil⟩
  | @cons j d js ds hd _ ih =>
    obtain ⟨v, u, heval, hadds, hshows⟩ := hd.yields env w
    obtain ⟨vs, u', hevals, hadds', hshows'⟩ := ih u
    refine ⟨v :: vs, u', fun s => ?_, hadds.trans hadds', .cons (hshows.later hadds'.keeps) hshows'⟩
    simp only [List.map_cons, Act.evalAll, bind, EStateM.bind, heval, hevals]
    rfl

end Data

theorem intercalate_cons {α : Type} (c : α) (l : List α) (ls : List (List α)) :
    [c].intercalate (l :: ls) = l ++ ls.flatMap (c :: ·) := by
  induction ls generalizing l with
  | nil => simp [List.intercalate]
  | cons m ls ih =>
    rw [List.intercalate_cons_cons, ih]
    simp

/-- Items that are scanned are scanned with commas between them. -/
theorem scans_joined {items : List (List Char)} {lss : List (List Lexeme)}
    (h : List.Forall₂ (fun text ls => ∀ rest, EndsNumber rest → Scans text ls rest) items lss) {rest : List Char}
    (hend : EndsNumber rest) : Scans ([','].intercalate items) (commaJoined lss) rest := by
  have later {items : List (List Char)} {lss : List (List Lexeme)}
      (h : List.Forall₂ (fun text ls => ∀ rest, EndsNumber rest → Scans text ls rest) items lss) :
      Scans (items.flatMap (',' :: ·)) (lss.flatMap (.mark .comma :: ·)) rest ∧
        EndsNumber (items.flatMap (',' :: ·) ++ rest) := by
    induction h with
    | nil => exact ⟨.nil rest, hend⟩
    | @cons text ls items lss hitem _ ih =>
      obtain ⟨hscan, hafter⟩ := ih
      have hcomma := Scans.mark (c := ',') (m := .comma) (by simp)
      have hfirst := (hcomma _).append (hitem _ hafter)
      refine ⟨by simpa using hfirst.append hscan, ?_⟩
      intro c hc
      cases hc
      simp
  cases h with
  | nil => exact .nil rest
  | @cons text ls items lss hitem hitems =>
    rw [intercalate_cons]
    exact (hitem _ (later hitems).2).append (later hitems).1

theorem Adds.newArray {σ : Type} (w : World σ) (items : Array Value) : ∃ u : World σ,
    Act.newArray items w = .ok (.array w.heap.arrays.size) u ∧ Adds w u 1 ∧
      u.heap.arrays[w.heap.arrays.size]? = some items := by
  obtain ⟨⟨heap, host⟩, closures, scopes, depth⟩ := w
  refine ⟨_, rfl, ⟨rfl, ⟨Heap.keeps_push, id⟩, ?_⟩, by simp⟩
  simp only [Heap.cells, Array.size_push]
  omega

theorem Adds.newObject {σ : Type} (w : World σ) (fields : List (String × Value)) : ∃ u : World σ,
    Act.alloc (Heap.newObject fields) w = .ok (.object w.heap.objects.size) u ∧ Adds w u 1 ∧
      u.heap.objects[w.heap.objects.size]? = some fields := by
  obtain ⟨⟨heap, host⟩, closures, scopes, depth⟩ := w
  refine ⟨_, rfl, ⟨rfl, ⟨id, Heap.keeps_push⟩, ?_⟩, by simp⟩
  simp only [Heap.cells, Array.size_push]
  omega

/-- Two stretches one after the other, the second of which adds one level. -/
theorem Adds.wrap {σ : Type} {w u v : World σ} {n : Nat} (a : Adds w u n) (b : Adds u v 1) : Adds w v (n + 1) :=
  ⟨by rw [b.host, a.host], a.keeps.trans b.keeps, by have := a.cells; have := b.cells; omega⟩

theorem mapM_of_forall₂ {α β : Type} {f : α → Option β} {xs : List α} {ys : List β}
    (h : List.Forall₂ (fun x y => f x = some y) xs ys) : xs.mapM f = some ys := by
  induction h with
  | nil => rfl
  | cons hx _ ih => simp [List.mapM_cons, hx, ih]

namespace Heap

theorem Shows.array {h : Heap} {cell : Nat} {items : Array Value} {js : List Json}
    (hcell : h.arrays[cell]? = some items) (hitems : List.Forall₂ h.Shows items.toList js) :
    h.Shows (.array cell) (.arr js) where
  data := by simp [isData, Value.isCallable]
  json {h' n} k hn := by
    obtain ⟨n, rfl⟩ := succ_of_lt (Nat.lt_of_succ_le hn)
    have hread : (h'.array cell) = items := by
      simp [Heap.array, Array.getD_eq_getD_getElem?, k.array hcell]
    have hlevels : levelsAll js ≤ n := by simpa [Json.levels] using hn
    have hmap : items.toList.mapM (jsonWithin h' n) = some js := by
      refine mapM_of_forall₂ (List.forall₂_iff_get.mpr ⟨hitems.length_eq, fun i hi hj => ?_⟩)
      have hlevel := mem_levelsAll js _ (List.get_mem js ⟨i, hj⟩)
      exact ((List.forall₂_iff_get.mp hitems).2 i hi hj).json k (by omega)
    simp [jsonWithin, hread, hmap]

theorem Shows.object {h : Heap} {cell : Nat} {fields : List (String × Value)} {fs : List (String × Json)}
    (hcell : h.objects[cell]? = some fields)
    (hfields : List.Forall₂ (fun p f => p.1 = f.1 ∧ h.Shows p.2 f.2) fields fs) :
    h.Shows (.object cell) (.obj fs) where
  data := by simp [isData, Value.isCallable]
  json {h' n} k hn := by
    obtain ⟨n, rfl⟩ := succ_of_lt (Nat.lt_of_succ_le hn)
    have hread : (h'.object cell) = fields := by
      simp [Heap.object, Array.getD_eq_getD_getElem?, k.object hcell]
    have hlevels : levelsFields fs ≤ n := by simpa [Json.levels] using hn
    have hkeep : fields.filter (fun p => isData p.2) = fields := by
      refine List.filter_eq_self.mpr fun p hp => ?_
      obtain ⟨i, hi, rfl⟩ := List.getElem_of_mem hp
      have hj := hfields.length_eq ▸ hi
      exact ((List.forall₂_iff_get.mp hfields).2 i hi hj).2.data
    have hmap : fields.mapM (fun p => do
        let j ← jsonWithin h' n p.2
        some (p.1, j)) = some fs := by
      refine mapM_of_forall₂ (List.forall₂_iff_get.mpr ⟨hfields.length_eq, fun i hi hj => ?_⟩)
      obtain ⟨hkey, hvalue⟩ := (List.forall₂_iff_get.mp hfields).2 i hi hj
      have hlevel := mem_levelsFields fs _ (List.get_mem fs ⟨i, hj⟩)
      have hjson := hvalue.json (n := n) k (by omega)
      simp only [hjson, hkey, Option.bind_eq_bind, Option.bind_some]
    simp only [jsonWithin, hread, hkeep]
    rw [hmap]
    rfl

end Heap

namespace Datum

theorem array {js : List Json} {ds : List (Expr × List Lexeme)} (h : Data js ds) :
    Datum (.arr js) (.array (ds.map Prod.fst))
      (.mark .bracketOpen :: commaJoined (ds.map Prod.snd) ++ [.mark .bracketClose]) where
  scans {rest} hend := by
    have hitems : List.Forall₂ (fun text ls => ∀ rest, EndsNumber rest → Scans text ls rest)
        ((Json.texts js).map String.toList) (ds.map Prod.snd) := by
      induction h with
      | nil => exact .nil
      | cons h _ ih => exact .cons (fun rest hend => h.scans hend) ih
    have hclose : EndsNumber ([']'] ++ rest) := by
      intro c hc
      cases hc
      simp
    have htext : (Json.arr js).text.toList =
        '[' :: [','].intercalate ((Json.texts js).map String.toList) ++ [']'] := by
      simp [Json.text, Json.separated, String.toList_intercalate]
    rw [htext]
    have hopen := Scans.mark (c := '[') (m := .bracketOpen) (by simp)
    exact ((hopen _).append (scans_joined hitems hclose)).append (Scans.mark (by simp) rest)
  phrase := (Phrase.of_operand (.array h.phrases)).assignment_of_unary
  arrowFree := ((ArrowFree.commaJoined h.arrowFree).cons (by simp)).append (.one (by simp))
  yields env w := by
    obtain ⟨vs, u, heval, hadds, hshows⟩ := h.yields env w
    obtain ⟨u', halloc, hadds', hcell⟩ := Adds.newArray u vs.toArray
    refine ⟨_, u', fun s => ?_, hadds.wrap hadds', Heap.Shows.array hcell ?_⟩
    · simp only [Act.evalExpr, bind, EStateM.bind, heval, halloc]
    · exact hshows.imp fun _ _ hv => hv.later hadds'.keeps

end Datum

/-- Fields side by side with their keys, expressions and tokens. -/
abbrev DataFields (fs : List (String × Json)) (ds : List (String × Expr × List Lexeme)) : Prop :=
  List.Forall₂ (fun f d => d.1 = f.1 ∧ Datum f.2 d.2.1 d.2.2) fs ds

namespace DataFields

variable {fs : List (String × Json)} {ds : List (String × Expr × List Lexeme)}

def field (d : String × Expr × List Lexeme) : Field := .named d.1 d.2.1

def lexemes (d : String × Expr × List Lexeme) : List Lexeme := .string d.1 :: .mark .colon :: d.2.2

theorem phrases (h : DataFields fs ds) : List.Forall₂ FieldPhrase (ds.map field) (ds.map lexemes) := by
  induction h with
  | nil => exact .nil
  | cons h _ ih => exact .cons (.named _ h.2.phrase) ih

theorem arrowFree (h : DataFields fs ds) : ∀ ls ∈ ds.map lexemes, ArrowFree ls := by
  induction h with
  | nil => simp
  | cons h _ ih =>
    simp only [List.map_cons, List.mem_cons, forall_eq_or_imp]
    exact ⟨(h.2.arrowFree.cons (by simp)).cons (by simp), ih⟩

theorem scans (h : DataFields fs ds) :
    List.Forall₂ (fun text ls => ∀ rest, EndsNumber rest → Scans text ls rest)
      ((Json.fieldTexts fs).map String.toList) (ds.map lexemes) := by
  induction h with
  | nil => exact .nil
  | @cons f d fs ds h _ ih =>
    obtain ⟨key, j⟩ := f
    obtain ⟨key', e, ls⟩ := d
    obtain ⟨rfl, hd⟩ := h
    refine .cons (fun rest hend => ?_) ih
    have hcolon := Scans.mark (c := ':') (m := .colon) (by simp)
    have hkey := scans_quoted key' (':' :: (j.text.toList ++ rest))
    have := hkey.append (t := [':'] ++ j.text.toList) ((hcolon _).append (hd.scans hend))
    simpa [lexemes, Json.fieldTexts] using this

theorem keys (h : DataFields fs ds) : ds.map Prod.fst = fs.map Prod.fst := by
  induction h with
  | nil => rfl
  | cons h _ ih => simp [h.1, ih]

theorem setField_fresh {α : Type} {key : String} {value : α} {fields : List (String × α)}
    (h : key ∉ fields.map Prod.fst) : setField key value fields = fields ++ [(key, value)] := by
  induction fields with
  | nil => rfl
  | cons field fields ih =>
    obtain ⟨k, v⟩ := field
    simp only [List.map_cons, List.mem_cons, not_or] at h
    simp [setField, Ne.symm h.1, ih h.2]

theorem yields (h : DataFields fs ds) (hkeys : (fs.map Prod.fst).Nodup) {σ : Type} (env : Env) (w : World σ)
    (done : List (String × Value)) (hdone : ∀ key ∈ fs.map Prod.fst, key ∉ done.map Prod.fst) :
    ∃ fields u, (∀ s, Act.evalFields s env done (ds.map field) w = .ok (done ++ fields) u) ∧
      Adds w u (levelsFields fs) ∧
      List.Forall₂ (fun p f => p.1 = f.1 ∧ u.heap.Shows p.2 f.2) fields fs := by
  induction h generalizing w done with
  | nil => exact ⟨[], w, fun s => by simp [Act.evalFields]; rfl, .refl w, .nil⟩
  | @cons f d fs ds hd _ ih =>
    obtain ⟨key, j⟩ := f
    obtain ⟨key', e, ls⟩ := d
    obtain ⟨rfl, hd⟩ := hd
    simp only [List.map_cons, List.nodup_cons] at hkeys
    simp only [List.map_cons, List.mem_cons, forall_eq_or_imp] at hdone
    obtain ⟨v, u, heval, hadds, hshows⟩ := hd.yields env w
    have hnext : ∀ key ∈ fs.map Prod.fst, key ∉ (done ++ [(key', v)]).map Prod.fst := by
      intro key hkey
      simp only [List.map_append, List.mem_append, List.map_cons, List.map_nil, List.mem_singleton, not_or]
      exact ⟨hdone.2 key hkey, fun heq => hkeys.1 (heq ▸ hkey)⟩
    obtain ⟨fields, u', hevals, hadds', hshows'⟩ := ih hkeys.2 u (done ++ [(key', v)]) hnext
    refine ⟨(key', v) :: fields, u', fun s => ?_, hadds.trans hadds', ?_⟩
    case refine_2 => exact .cons ⟨rfl, hshows.later hadds'.keeps⟩ hshows'
    have hset : setField key' v done = done ++ [(key', v)] := setField_fresh hdone.1
    simp only [List.map_cons, field, Act.evalFields, bind, EStateM.bind, heval, hset]
    simpa [field] using hevals s

end DataFields

theorem Datum.object {fs : List (String × Json)} {ds : List (String × Expr × List Lexeme)} (h : DataFields fs ds)
    (hkeys : (fs.map Prod.fst).Nodup) :
    Datum (.obj fs) (.object (ds.map DataFields.field))
      (.mark .braceOpen :: commaJoined (ds.map DataFields.lexemes) ++ [.mark .braceClose]) where
  scans {rest} hend := by
    have hclose : EndsNumber (['\x7d'] ++ rest) := by
      intro c hc
      cases hc
      simp
    have htext : (Json.obj fs).text.toList =
        '\x7b' :: [','].intercalate ((Json.fieldTexts fs).map String.toList) ++ ['\x7d'] := by
      simp [Json.text, Json.separated, String.toList_intercalate]
    rw [htext]
    have hopen := Scans.mark (c := '\x7b') (m := .braceOpen) (by simp)
    exact ((hopen _).append (scans_joined h.scans hclose)).append (Scans.mark (by simp) rest)
  phrase := (Phrase.of_operand (.object h.phrases)).assignment_of_unary
  arrowFree := ((ArrowFree.commaJoined h.arrowFree).cons (by simp)).append (.one (by simp))
  yields env w := by
    obtain ⟨fields, u, heval, hadds, hshows⟩ := h.yields hkeys env w [] (by simp)
    obtain ⟨u', halloc, hadds', hcell⟩ := Adds.newObject u fields
    refine ⟨_, u', fun s => ?_, hadds.wrap hadds', Heap.Shows.object hcell ?_⟩
    · simp only [Act.evalExpr, bind, EStateM.bind, heval, List.nil_append, halloc]
    · exact hshows.imp fun _ _ hv => ⟨hv.1, hv.2.later hadds'.keeps⟩

mutual

theorem Json.datum : ∀ j : Json, j.Readable → ∃ e ls, Datum j e ls
  | .null, _ => ⟨_, _, .null⟩
  | .bool b, _ => ⟨_, _, .bool b⟩
  | .int _, h => Datum.number rfl h
  | .float _, h => Datum.number rfl h
  | .str s, _ => ⟨_, _, .string s⟩
  | .arr items, h => by
    obtain ⟨ds, hds⟩ := dataAll items h
    exact ⟨_, _, .array hds⟩
  | .obj fields, ⟨hkeys, h⟩ => by
    obtain ⟨ds, hds⟩ := dataFields fields h
    exact ⟨_, _, .object hds hkeys⟩

theorem dataAll : ∀ js : List Json, ReadableAll js → ∃ ds, Data js ds
  | [], _ => ⟨[], .nil⟩
  | j :: js, ⟨hj, hjs⟩ => by
    obtain ⟨e, ls, hd⟩ := Json.datum j hj
    obtain ⟨ds, hds⟩ := dataAll js hjs
    exact ⟨(e, ls) :: ds, .cons hd hds⟩

theorem dataFields : ∀ fs : List (String × Json), ReadableFields fs → ∃ ds, DataFields fs ds
  | [], _ => ⟨[], .nil⟩
  | (key, j) :: fs, ⟨hj, hfs⟩ => by
    obtain ⟨e, ls, hd⟩ := Json.datum j hj
    obtain ⟨ds, hds⟩ := dataFields fs hfs
    exact ⟨(key, e, ls) :: ds, .cons ⟨rfl, hd⟩ hds⟩

end

end Apiary
