import Apiary.Proofs.Json.Token
import Apiary.Proofs.Script.Datum

/-!
Reading the text of data. The reader gives the data back as they were, with each number as it reads the text of that
number by itself, and refuses data that nest deeper than it goes.
-/

namespace Apiary.Json

section Definitions

mutual

/-- Whole numbers fit into a word, other numbers are finite, and the keys of an object differ. -/
def Regular : Json → Prop
  | .int i => -(twoTo 63 : Int) ≤ i ∧ i < twoTo 64
  | .float x => x.isFinite = true
  | .arr items => RegularItems items
  | .obj fields => (fields.map Prod.fst).Nodup ∧ RegularFields fields
  | _ => True

def RegularItems : List Json → Prop
  | [] => True
  | j :: rest => j.Regular ∧ RegularItems rest

def RegularFields : List (String × Json) → Prop
  | [] => True
  | (_, j) :: rest => j.Regular ∧ RegularFields rest

end

mutual

/-- What data come to that are written and read again, no deeper than `depth`. -/
def reread? : Nat → Json → Option Json
  | _, .null => some .null
  | _, .bool b => some (.bool b)
  | _, .int i => some (.int i)
  | _, .float x => ofText? (dataText x)
  | _, .str s => some (.str s)
  | 0, .arr _ => none
  | 0, .obj _ => none
  | depth + 1, .arr items => (rereadItems? depth items).map .arr
  | depth + 1, .obj fields => (rereadFields? depth fields).map .obj

def rereadItems? : Nat → List Json → Option (List Json)
  | _, [] => some []
  | depth, j :: rest => (reread? depth j).bind fun j => (rereadItems? depth rest).map (j :: ·)

def rereadFields? : Nat → List (String × Json) → Option (List (String × Json))
  | _, [] => some []
  | depth, (key, j) :: rest => (reread? depth j).bind fun j => (rereadFields? depth rest).map ((key, j) :: ·)

end

mutual

/-- Every number that is not whole reads back from its own text. -/
def Legible : Json → Prop
  | .float x => ofText? (dataText x) = some (.float x)
  | .arr items => LegibleItems items
  | .obj fields => LegibleFields fields
  | _ => True

def LegibleItems : List Json → Prop
  | [] => True
  | j :: rest => j.Legible ∧ LegibleItems rest

def LegibleFields : List (String × Json) → Prop
  | [] => True
  | (_, j) :: rest => j.Legible ∧ LegibleFields rest

end

end Definitions

section Texts

def itemTail (items : List Json) : List Char := items.flatMap fun j => ',' :: j.text.toList

def fieldChars (field : String × Json) : List Char :=
  '"' :: (field.1.toList.flatMap escape ++ '"' :: ':' :: field.2.text.toList)

def fieldTail (fields : List (String × Json)) : List Char := fields.flatMap fun f => ',' :: fieldChars f

theorem map_texts (items : List Json) : (texts items).map String.toList = items.map fun j => j.text.toList := by
  induction items with
  | nil => rfl
  | cons j rest ih => rw [texts, List.map_cons, List.map_cons, ih]

theorem map_fieldTexts (fields : List (String × Json)) :
    (fieldTexts fields).map String.toList = fields.map fieldChars := by
  induction fields with
  | nil => rfl
  | cons field rest ih =>
    obtain ⟨key, j⟩ := field
    rw [fieldTexts, List.map_cons, List.map_cons, ih]
    simp [fieldChars, toList_quoted]

theorem text_arr (items : List Json) :
    (Json.arr items).text.toList = '[' :: ([','].intercalate (items.map fun j => j.text.toList) ++ [']']) := by
  rw [← map_texts]
  simp [text, separated, String.toList_intercalate]

theorem text_obj (fields : List (String × Json)) :
    (Json.obj fields).text.toList = '\x7b' :: ([','].intercalate (fields.map fieldChars) ++ ['\x7d']) := by
  rw [← map_fieldTexts]
  simp [text, separated, String.toList_intercalate]

theorem intercalate_items (j : Json) (items : List Json) :
    [','].intercalate ((j :: items).map fun j => j.text.toList) = j.text.toList ++ itemTail items := by
  rw [List.map_cons, intercalate_cons, List.flatMap_map]
  rfl

theorem intercalate_fields (f : String × Json) (fields : List (String × Json)) :
    [','].intercalate ((f :: fields).map fieldChars) = fieldChars f ++ fieldTail fields := by
  rw [List.map_cons, intercalate_cons, List.flatMap_map]
  rfl

theorem length_le_itemTail (items : List Json) : items.length ≤ (itemTail items).length := by
  induction items with
  | nil => exact Nat.le_refl _
  | cons j items ih =>
    have htail : itemTail (j :: items) = ',' :: (j.text.toList ++ itemTail items) := rfl
    rw [htail, List.length_cons, List.length_cons, List.length_append]
    omega

end Texts

section Items

variable {item : List Char → Except (List Char) (Taken Json)} {bound : Nat}

/-- In front of what may follow it, and in a text below a bound, the text of a value is read as another value. -/
def ReadsAs (item : List Char → Except (List Char) (Taken Json)) (bound : Nat) (j : Json) (r : Option Json) : Prop :=
  ∀ rest, EndsNumber rest → (j.text.toList ++ rest).length < bound →
    (item (j.text.toList ++ rest)).toOption = r.map fun j => (j, rest)

theorem head_number {s : List Char} (h : NumberText s) :
    ∃ c rest, s = c :: rest ∧ isSpace c = false ∧ c ≠ ']' := by
  obtain ⟨u, hu, rfl | rfl⟩ := h
  · obtain ⟨c, rest, rfl, hc | ⟨rfl, -⟩⟩ := hu.head
    · refine ⟨c, rest, rfl, ?_, ?_⟩
      · exact isSpace_of_isDigit hc
      · rintro rfl
        cases hc
    · exact ⟨_, _, rfl, by decide, by decide⟩
  · exact ⟨_, _, rfl, by decide, by decide⟩

theorem head_text (j : Json) : ∃ c rest, j.text.toList = c :: rest ∧ isSpace c = false ∧ c ≠ ']' := by
  cases j with
  | null => exact ⟨_, _, rfl, by decide, by decide⟩
  | bool b => cases b <;> exact ⟨_, _, rfl, by decide, by decide⟩
  | int i => exact head_number (numberText_int i)
  | float x =>
    rw [text, numeric]
    split
    · exact head_number (numberText_data x)
    · exact ⟨_, _, rfl, by decide, by decide⟩
  | str s => exact ⟨'"', _, by rw [text, toList_quoted], by decide, by decide⟩
  | arr items => exact ⟨'[', _, text_arr items, by decide, by decide⟩
  | obj fields => exact ⟨'\x7b', _, text_obj fields, by decide, by decide⟩

theorem ends_itemTail (items : List Json) (rest : List Char) : EndsNumber (itemTail items ++ ']' :: rest) := by
  intro c hc
  cases items <;> cases hc <;> simp

theorem ends_fieldTail (fields : List (String × Json)) (rest : List Char) :
    EndsNumber (fieldTail fields ++ '\x7d' :: rest) := by
  intro c hc
  cases fields <;> cases hc <;> simp

theorem readItems_first (n : Nat) {c : Char} {s : List Char} (hspace : isSpace c = false) (hc : c ≠ ']') :
    readItems item (n + 1) true (c :: s) = (do
      let (j, rest) ← item (c :: s)
      let (items, rest) ← readItems item n false rest
      pure (j :: items, rest)) := by
  have hskip : skip (c :: s) = c :: s := skip_cons hspace s
  rw [readItems, hskip]
  split
  · next heq => cases heq
  · next heq =>
    cases heq
    exact absurd rfl hc
  · next heq =>
    cases heq
    rfl

theorem readItems_next (n : Nat) {c : Char} {s : List Char} (hspace : isSpace c = false) (hc : c ≠ ']') :
    readItems item (n + 1) false (',' :: c :: s) = (do
      let (j, rest) ← item (c :: s)
      let (items, rest) ← readItems item n false rest
      pure (j :: items, rest)) := by
  have hskip : skip (c :: s) = c :: s := skip_cons hspace s
  have hcomma : skip (',' :: c :: s) = ',' :: c :: s := skip_cons rfl _
  rw [readItems, hcomma]
  split
  · next heq => cases heq
  · next heq => exact absurd (List.head_eq_of_cons_eq heq) (by decide)
  · next heq =>
    cases heq
    rw [if_neg Bool.false_ne_true, if_pos rfl, hskip]
    split
    · next heq =>
      cases heq
      exact absurd rfl hc
    · rfl

theorem reread_item {n depth : Nat} {j : Json} {items : List Json} {tail rest : List Char}
    (hj : ReadsAs item bound j (reread? depth j)) (hend : EndsNumber tail)
    (hbound : (j.text.toList ++ tail).length < bound)
    (hmore : (readItems item n false tail).toOption = (rereadItems? depth items).map fun items => (items, rest)) :
    (do
      let (j, rest) ← item (j.text.toList ++ tail)
      let (items, rest) ← readItems item n false rest
      pure (j :: items, rest)).toOption = (rereadItems? depth (j :: items)).map fun items => (items, rest) := by
  rw [toOption_bind, hj tail hend hbound, rereadItems?]
  cases reread? depth j with
  | none => rfl
  | some j' =>
    simp only [Option.map_some, Option.bind_some, toOption_bind, hmore]
    cases rereadItems? depth items <;> rfl

theorem readItems_tail {depth : Nat} {items : List Json}
    (hitems : ∀ j ∈ items, ReadsAs item bound j (reread? depth j)) (rest : List Char) {n : Nat}
    (hn : items.length < n) (hbound : (itemTail items ++ ']' :: rest).length ≤ bound) :
    (readItems item n false (itemTail items ++ ']' :: rest)).toOption =
      (rereadItems? depth items).map fun items => (items, rest) := by
  induction items generalizing n with
  | nil =>
    obtain ⟨n, rfl⟩ : ∃ k, n = k + 1 := ⟨n - 1, by rw [List.length_nil] at hn; omega⟩
    rfl
  | cons j items ih =>
    rw [List.length_cons] at hn
    obtain ⟨n, rfl⟩ : ∃ k, n = k + 1 := ⟨n - 1, by omega⟩
    obtain ⟨hj, hrest⟩ := List.forall_mem_cons.mp hitems
    have htail : itemTail (j :: items) ++ ']' :: rest = ',' :: (j.text.toList ++ (itemTail items ++ ']' :: rest)) := by
      simp [itemTail]
    rw [htail, List.length_cons] at hbound
    have hmore := ih hrest (n := n) (by omega) (by rw [List.length_append] at hbound; omega)
    have hread := reread_item hj (ends_itemTail items rest) (by omega) hmore
    obtain ⟨c, s, hs, hspace, hc⟩ := head_text j
    rw [hs, List.cons_append] at hread htail
    rw [htail, readItems_next n hspace hc, hread]

theorem readItems_all {depth : Nat} {items : List Json}
    (hitems : ∀ j ∈ items, ReadsAs item bound j (reread? depth j)) (rest : List Char) {n : Nat}
    (hn : ([','].intercalate (items.map fun j => j.text.toList) ++ ']' :: rest).length ≤ n)
    (hbound : ([','].intercalate (items.map fun j => j.text.toList) ++ ']' :: rest).length < bound) :
    (readItems item n true ([','].intercalate (items.map fun j => j.text.toList) ++ ']' :: rest)).toOption =
      (rereadItems? depth items).map fun items => (items, rest) := by
  obtain ⟨n, rfl⟩ : ∃ k, n = k + 1 := ⟨n - 1, by rw [List.length_append, List.length_cons] at hn; omega⟩
  cases items with
  | nil => rfl
  | cons j items =>
    obtain ⟨hj, hrest⟩ := List.forall_mem_cons.mp hitems
    rw [intercalate_items, List.append_assoc] at hn hbound ⊢
    have hlength := length_le_itemTail items
    obtain ⟨c, s, hs, hspace, hc⟩ := head_text j
    have hlong : items.length < n := by
      simp only [hs, List.length_append, List.length_cons] at hn
      omega
    have hmore := readItems_tail hrest rest hlong (by rw [List.length_append] at hbound; omega)
    have hread := reread_item hj (ends_itemTail items rest) hbound hmore
    rw [hs, List.cons_append] at hread ⊢
    rw [readItems_first n hspace hc, hread]

theorem fieldChars_append (field : String × Json) (t : List Char) : fieldChars field ++ t =
    '"' :: (field.1.toList.flatMap escape ++ '"' :: ':' :: (field.2.text.toList ++ t)) := by
  simp [fieldChars]

theorem readFields_key (n : Nat) (first : Bool) (done : List (String × Json)) {s : List Char} {key : String}
    {t : List Char} (hskip : skip s = s) (hhead : s.head? ≠ some '\x7d')
    (hstart : keyStart first s = .ok (key.toList.flatMap escape ++ '"' :: ':' :: t))
    (hn : (key.toList.flatMap escape).length < n) :
    readFields item (n + 1) first done s = (do
      let (j, rest) ← item t
      readFields item n false (setField key j done) rest) := by
  have hcolon : skip (':' :: t) = ':' :: t := skip_cons rfl t
  rw [readFields, hskip]
  split
  · exact absurd rfl hhead
  · simp only [hstart, bind, Except.bind, readString_quoted key _ hn, hcolon]

theorem readFields_first (n : Nat) (done : List (String × Json)) (field : String × Json) (t : List Char)
    (hn : (field.1.toList.flatMap escape).length < n) :
    readFields item (n + 1) true done (fieldChars field ++ t) = (do
      let (j, rest) ← item (field.2.text.toList ++ t)
      readFields item n false (setField field.1 j done) rest) := by
  rw [fieldChars_append]
  exact readFields_key n true done (skip_cons rfl _) (by simp) rfl hn

theorem readFields_next (n : Nat) (done : List (String × Json)) (field : String × Json) (t : List Char)
    (hn : (field.1.toList.flatMap escape).length < n) :
    readFields item (n + 1) false done (',' :: (fieldChars field ++ t)) = (do
      let (j, rest) ← item (field.2.text.toList ++ t)
      readFields item n false (setField field.1 j done) rest) := by
  rw [fieldChars_append]
  exact readFields_key n false done (skip_cons rfl _) (by simp) rfl hn

theorem reread_field {n depth : Nat} {field : String × Json} {fields done : List (String × Json)}
    {tail rest : List Char} (hj : ReadsAs item bound field.2 (reread? depth field.2)) (hend : EndsNumber tail)
    (hbound : (field.2.text.toList ++ tail).length < bound) (hfresh : field.1 ∉ done.map Prod.fst)
    (hmore : ∀ j, (readFields item n false (done ++ [(field.1, j)]) tail).toOption =
      (rereadFields? depth fields).map fun fields => (done ++ [(field.1, j)] ++ fields, rest)) :
    (do
      let (j, rest) ← item (field.2.text.toList ++ tail)
      readFields item n false (setField field.1 j done) rest).toOption =
        (rereadFields? depth (field :: fields)).map fun fields => (done ++ fields, rest) := by
  obtain ⟨key, j⟩ := field
  rw [toOption_bind, hj tail hend hbound, rereadFields?]
  cases reread? depth j with
  | none => rfl
  | some j' =>
    simp only [Option.map_some, Option.bind_some, DataFields.setField_fresh hfresh, hmore]
    cases rereadFields? depth fields with
    | none => rfl
    | some fields' => simp

theorem fresh_concat {key : String} {j : Json} {fields done : List (String × Json)} (hkey : key ∉ fields.map Prod.fst)
    (hdone : ∀ k ∈ fields.map Prod.fst, k ∉ done.map Prod.fst) :
    ∀ k ∈ fields.map Prod.fst, k ∉ (done ++ [(key, j)]).map Prod.fst := by
  intro k hk hmem
  rw [List.map_append, List.mem_append] at hmem
  rcases hmem with hmem | hmem
  · exact hdone k hk hmem
  · obtain rfl : k = key := List.mem_singleton.mp hmem
    exact hkey hk

theorem length_fieldChars (field : String × Json) : (fieldChars field).length =
    (field.1.toList.flatMap escape).length + field.2.text.toList.length + 3 := by
  rw [fieldChars, List.length_cons, List.length_append, List.length_cons, List.length_cons]
  omega

theorem readFields_tail {depth : Nat} {fields : List (String × Json)}
    (hfields : ∀ f ∈ fields, ReadsAs item bound f.2 (reread? depth f.2)) (hkeys : (fields.map Prod.fst).Nodup)
    {done : List (String × Json)} (hdone : ∀ key ∈ fields.map Prod.fst, key ∉ done.map Prod.fst)
    (rest : List Char) {n : Nat} (hn : (fieldTail fields ++ '\x7d' :: rest).length ≤ n)
    (hbound : (fieldTail fields ++ '\x7d' :: rest).length ≤ bound) :
    (readFields item n false done (fieldTail fields ++ '\x7d' :: rest)).toOption =
      (rereadFields? depth fields).map fun fields => (done ++ fields, rest) := by
  induction fields generalizing n done with
  | nil =>
    obtain ⟨n, rfl⟩ : ∃ k, n = k + 1 := ⟨n - 1, by rw [List.length_append, List.length_cons] at hn; omega⟩
    rw [rereadFields?, Option.map_some, List.append_nil]
    rfl
  | cons field fields ih =>
    obtain ⟨hj, hrest⟩ := List.forall_mem_cons.mp hfields
    obtain ⟨hkey, hkeys⟩ := List.nodup_cons.mp hkeys
    obtain ⟨hfresh, hdone⟩ := List.forall_mem_cons.mp hdone
    have htail : fieldTail (field :: fields) ++ '\x7d' :: rest =
        ',' :: (fieldChars field ++ (fieldTail fields ++ '\x7d' :: rest)) := by
      simp [fieldTail]
    rw [htail, List.length_cons, List.length_append, length_fieldChars] at hn hbound
    obtain ⟨n, rfl⟩ : ∃ k, n = k + 1 := ⟨n - 1, by omega⟩
    rw [htail, readFields_next n done field _ (by omega)]
    refine reread_field hj (ends_fieldTail fields rest) (by rw [List.length_append]; omega) hfresh fun j => ?_
    exact ih hrest hkeys (fresh_concat hkey hdone) (by omega) (by omega)

theorem readFields_all {depth : Nat} {fields : List (String × Json)}
    (hfields : ∀ f ∈ fields, ReadsAs item bound f.2 (reread? depth f.2)) (hkeys : (fields.map Prod.fst).Nodup)
    (rest : List Char) {n : Nat} (hn : ([','].intercalate (fields.map fieldChars) ++ '\x7d' :: rest).length ≤ n)
    (hbound : ([','].intercalate (fields.map fieldChars) ++ '\x7d' :: rest).length ≤ bound) :
    (readFields item n true [] ([','].intercalate (fields.map fieldChars) ++ '\x7d' :: rest)).toOption =
      (rereadFields? depth fields).map fun fields => (fields, rest) := by
  obtain ⟨n, rfl⟩ : ∃ k, n = k + 1 := ⟨n - 1, by rw [List.length_append, List.length_cons] at hn; omega⟩
  cases fields with
  | nil => rfl
  | cons field fields =>
    obtain ⟨hj, hrest⟩ := List.forall_mem_cons.mp hfields
    obtain ⟨hkey, hkeys⟩ := List.nodup_cons.mp hkeys
    rw [intercalate_fields, List.append_assoc, List.length_append, length_fieldChars] at hn hbound
    rw [intercalate_fields, List.append_assoc, readFields_first n [] field _ (by omega)]
    refine reread_field hj (ends_fieldTail fields rest) (by rw [List.length_append]; omega) (by simp) fun j => ?_
    exact readFields_tail hrest hkeys (fresh_concat hkey (by simp)) rest (by omega) (by omega)

end Items

section Values

/-- Data are read as what they come to when they are written and read again, at every depth. -/
def Rereads (j : Json) : Prop := ∀ n depth, ReadsAs (readValue n depth) n j (reread? depth j)

theorem rereads_null : Rereads .null := by
  intro n depth rest _ _
  unfold readValue reread?
  rfl

theorem rereads_bool (b : Bool) : Rereads (.bool b) := by
  intro n depth rest _ _
  cases b <;> unfold readValue reread? <;> rfl

theorem rereads_int {i : Int} (hlow : -(twoTo 63 : Int) ≤ i) (hhigh : i < twoTo 64) : Rereads (.int i) := by
  intro n depth rest hend _
  have hread := readValue_number (numberText_int i) n depth hend
  rw [readChars_int hlow hhigh] at hread
  rw [reread?]
  exact hread

theorem rereads_float {x : Double} (h : x.isFinite = true) : Rereads (.float x) := by
  intro n depth rest hend _
  have htext : (Json.float x).text = dataText x := by rw [text, numeric, if_pos h]
  rw [htext, reread?]
  exact readValue_number (numberText_data x) n depth hend

theorem rereads_str (s : String) : Rereads (.str s) := by
  intro n depth rest _ hn
  rw [text, toList_quoted, List.cons_append, List.append_assoc] at hn ⊢
  have hlength : (s.toList.flatMap escape).length < n := by
    rw [List.length_cons, List.length_append] at hn
    omega
  rw [reread?, readValue, skip_cons rfl]
  simp only [List.singleton_append, readString_quoted s rest hlength, bind, Except.bind]
  rfl

theorem readValue_open (n depth : Nat) (s : List Char) :
    readValue n depth ('[' :: s) = match depth with
      | 0 => .error s
      | depth + 1 => readItems (readValue n depth) n true s >>= fun (items, rest) => .ok (.arr items, rest) := by
  rw [readValue, skip_cons rfl]
  rfl

theorem readValue_brace (n depth : Nat) (s : List Char) :
    readValue n depth ('\x7b' :: s) = match depth with
      | 0 => .error s
      | depth + 1 => readFields (readValue n depth) n true [] s >>= fun (fields, rest) => .ok (.obj fields, rest) := by
  rw [readValue, skip_cons rfl]
  rfl

theorem rereads_arr {items : List Json} (h : ∀ j ∈ items, Rereads j) : Rereads (.arr items) := by
  intro n depth rest _ hn
  rw [text_arr, List.cons_append, List.append_assoc] at hn ⊢
  rw [readValue_open]
  rcases depth with _ | depth
  · rfl
  · rw [List.singleton_append, List.length_cons] at hn
    have hitems := readItems_all (fun j hj => h j hj n depth) rest (n := n) (by omega) (by omega)
    dsimp only
    rw [toOption_bind, List.singleton_append, hitems, reread?]
    cases rereadItems? depth items <;> rfl

theorem rereads_obj {fields : List (String × Json)} (hkeys : (fields.map Prod.fst).Nodup)
    (h : ∀ f ∈ fields, Rereads f.2) : Rereads (.obj fields) := by
  intro n depth rest _ hn
  rw [text_obj, List.cons_append, List.append_assoc] at hn ⊢
  rw [readValue_brace]
  rcases depth with _ | depth
  · rfl
  · rw [List.singleton_append, List.length_cons] at hn
    have hfields := readFields_all (fun f hf => h f hf n depth) hkeys rest (n := n) (by omega) (by omega)
    dsimp only
    rw [toOption_bind, List.singleton_append, hfields, reread?]
    cases rereadFields? depth fields <;> rfl

mutual

theorem Regular.rereads : ∀ j : Json, j.Regular → Rereads j
  | .null, _ => rereads_null
  | .bool b, _ => rereads_bool b
  | .int _, h => rereads_int h.1 h.2
  | .float _, h => rereads_float h
  | .str s, _ => rereads_str s
  | .arr items, h => rereads_arr (Regular.rereads_items items h)
  | .obj fields, h => rereads_obj h.1 (Regular.rereads_fields fields h.2)

theorem Regular.rereads_items : ∀ items : List Json, RegularItems items → ∀ j ∈ items, Rereads j
  | [], _ => nofun
  | j :: rest, h => List.forall_mem_cons.mpr ⟨Regular.rereads j h.1, Regular.rereads_items rest h.2⟩

theorem Regular.rereads_fields : ∀ fields : List (String × Json), RegularFields fields → ∀ f ∈ fields, Rereads f.2
  | [], _ => nofun
  | (_, j) :: rest, h => List.forall_mem_cons.mpr ⟨Regular.rereads j h.1, Regular.rereads_fields rest h.2⟩

end

theorem ofText_text {j : Json} (h : j.Regular) : ofText? j.text = reread? 127 j := by
  have hread := Regular.rereads j h (j.text.toList.length + 1) 127 [] nofun (by rw [List.append_nil]; omega)
  rw [List.append_nil] at hread
  exact toOption_readChars hread

end Values

section Exactness

theorem bind_map_eq_some {α β : Type} {x : Option α} {y : Option β} {f : α → β → β} {a : α} {b : β}
    (hf : ∀ a' b', f a' b' = f a b ↔ a' = a ∧ b' = b) :
    (x.bind fun a => y.map (f a)) = some (f a b) ↔ x = some a ∧ y = some b := by
  cases x <;> cases y <;> simp [hf]

mutual

/-- Data read back as they were when they nest no deeper than the reader goes and every number in them is legible. -/
theorem reread_iff : ∀ (depth : Nat) (j : Json), reread? depth j = some j ↔ j.levels ≤ depth ∧ j.Legible
  | depth, .null | depth, .bool _ | depth, .int _ | depth, .str _ => by simp [reread?, levels, Legible]
  | depth, .float x => by simp [reread?, levels, Legible]
  | 0, .arr _ | 0, .obj _ => by simp [reread?, levels]
  | depth + 1, .arr items => by
    simp only [reread?, levels, Legible, Option.map_eq_some_iff, Json.arr.injEq, exists_eq_right,
      Nat.add_le_add_iff_right]
    exact rereadItems_iff depth items
  | depth + 1, .obj fields => by
    simp only [reread?, levels, Legible, Option.map_eq_some_iff, Json.obj.injEq, exists_eq_right,
      Nat.add_le_add_iff_right]
    exact rereadFields_iff depth fields

theorem rereadItems_iff : ∀ (depth : Nat) (items : List Json),
    rereadItems? depth items = some items ↔ levelsAll items ≤ depth ∧ LegibleItems items
  | depth, [] => by simp [rereadItems?, levelsAll, LegibleItems]
  | depth, j :: rest => by
    rw [rereadItems?, bind_map_eq_some (by simp), reread_iff depth j, rereadItems_iff depth rest, levelsAll,
      LegibleItems, Nat.max_le]
    exact and_and_and_comm

theorem rereadFields_iff : ∀ (depth : Nat) (fields : List (String × Json)),
    rereadFields? depth fields = some fields ↔ levelsFields fields ≤ depth ∧ LegibleFields fields
  | depth, [] => by simp [rereadFields?, levelsFields, LegibleFields]
  | depth, (key, j) :: rest => by
    rw [rereadFields?, bind_map_eq_some (f := fun j rest => (key, j) :: rest) (by simp), reread_iff depth j,
      rereadFields_iff depth rest, levelsFields, LegibleFields, Nat.max_le]
    exact and_and_and_comm

end

theorem ofText_eq_self_iff {j : Json} (h : j.Regular) : ofText? j.text = some j ↔ j.levels ≤ 127 ∧ j.Legible := by
  rw [ofText_text h, reread_iff]

def bits? : Json → Option UInt64
  | .float x => some x.bits
  | _ => none

/-- Whether a number is legible can be computed. -/
theorem legible_float_iff {x : Double} : (Json.float x).Legible ↔ (ofText? (dataText x)).bind bits? = some x.bits := by
  constructor
  · intro h
    rw [show ofText? (dataText x) = some (.float x) from h]
    rfl
  · intro h
    obtain ⟨j, hj, hbits⟩ := Option.bind_eq_some_iff.mp h
    cases j with
    | float y =>
      obtain ⟨bits⟩ := y
      cases hbits
      exact hj
    | _ => cases hbits

end Exactness

end Apiary.Json
