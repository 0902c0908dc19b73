import Apiary.Proofs.Source.Spelling

/-!
Decimal literals: which texts read as a number, the sign apart, and what may stand after one.
-/

namespace Apiary

/-- Nothing that could go on with a number or a word. -/
def EndsNumber (rest : List Char) : Prop := ∀ c ∈ rest.head?, c ∈ [',', ']', '\x7d', ')']

/-- A decimal literal without separators. -/
inductive Numeral : List Char → Prop
  | whole {whole exponent : List Char} : whole ≠ [] → Digits whole → Exponent exponent →
    Numeral (whole ++ exponent)
  | point {whole fraction exponent : List Char} : Digits whole → Digits fraction → whole ++ fraction ≠ [] →
    Exponent exponent → Numeral (whole ++ '.' :: fraction ++ exponent)

theorem optionalSign_eq (s : List Char) :
    s = (optionalSign s).2 ∧ (optionalSign s).1 = false ∨
      s = '-' :: (optionalSign s).2 ∧ (optionalSign s).1 = true ∨
      s = '+' :: (optionalSign s).2 ∧ (optionalSign s).1 = false := by
  unfold optionalSign
  split <;> simp

theorem takeWhile_digits (s : List Char) : Digits (s.takeWhile Char.isDigit) :=
  fun c hc => List.all_eq_true.mp List.all_takeWhile c hc

theorem exponent_of_part {s : List Char} {e : Int} (h : exponentPart? s = some e) : Exponent s := by
  cases s with
  | nil => exact .none
  | cons c r =>
    simp only [exponentPart?] at h
    split at h
    · next hc =>
      split at h
      · cases h
      · next hdigits =>
        simp only [digitRun, List.isEmpty_iff, not_or, not_not] at hdigits
        obtain ⟨hne, hrest⟩ := hdigits
        have hall : (optionalSign r).2.takeWhile Char.isDigit = (optionalSign r).2 := by
          have := List.takeWhile_append_dropWhile (p := Char.isDigit) (l := (optionalSign r).2)
          rwa [hrest, List.append_nil] at this
        rw [hall] at hne
        have hd : Digits (optionalSign r).2 := hall ▸ takeWhile_digits _
        rcases optionalSign_eq r with ⟨hr, -⟩ | ⟨hr, -⟩ | ⟨hr, -⟩
        · rw [hr]
          exact Exponent.some hc (.inl rfl) hne hd
        · rw [hr]
          exact Exponent.some hc (.inr (.inr rfl)) hne hd
        · rw [hr]
          exact Exponent.some hc (.inr (.inl rfl)) hne hd
    · cases h

theorem numeral_of_literal {s : List Char} {l : Literal} (h : Literal.ofChars? s = some l) :
    Numeral (optionalSign s).2 := by
  simp only [Literal.ofChars?, digitRun] at h
  generalize (optionalSign s).2 = u at h ⊢
  have hu := List.takeWhile_append_dropWhile (p := Char.isDigit) (l := u)
  obtain ⟨hne, h⟩ := Option.ite_none_left_eq_some.mp h
  obtain ⟨e, he, -⟩ := Option.map_eq_some_iff.mp h
  generalize u.dropWhile Char.isDigit = rest at hne he hu
  split at he
  · next r =>
    have hr := List.takeWhile_append_dropWhile (p := Char.isDigit) (l := r)
    have hnil : u.takeWhile Char.isDigit ++ r.takeWhile Char.isDigit ≠ [] := by simpa [not_and] using hne
    have := Numeral.point (takeWhile_digits u) (takeWhile_digits r) hnil (exponent_of_part he)
    rwa [List.append_assoc, List.cons_append, hr, hu] at this
  · next hpoint =>
    have hnil : u.takeWhile Char.isDigit ≠ [] := by
      intro hnil
      apply hne
      split
      · next r => exact absurd rfl (hpoint r)
      · simp [hnil]
    have := Numeral.whole hnil (takeWhile_digits u) (exponent_of_part he)
    rwa [hu] at this

theorem isBlank_of_isDigit {c : Char} (h : c.isDigit = true) : isBlank c = false := by
  simp only [Char.isDigit, Bool.and_eq_true, decide_eq_true_eq] at h
  have hlow : 48 ≤ c.toNat := h.1
  have hhigh : c.toNat ≤ 57 := h.2
  simp [isBlank]
  omega

theorem Numeral.head {u : List Char} (h : Numeral u) :
    ∃ c rest, u = c :: rest ∧ (c.isDigit = true ∨ c = '.' ∧ ∃ d ∈ rest.head?, d.isDigit = true) := by
  cases h with
  | @whole whole exponent hne hd _ =>
    obtain ⟨c, whole, rfl⟩ := List.exists_cons_of_ne_nil hne
    exact ⟨c, _, rfl, .inl (hd c List.mem_cons_self)⟩
  | @point whole fraction exponent hd hf hne _ =>
    cases whole with
    | cons c whole => exact ⟨c, _, rfl, .inl (hd c List.mem_cons_self)⟩
    | nil =>
      obtain ⟨c, fraction, rfl⟩ := List.exists_cons_of_ne_nil hne
      exact ⟨'.', _, rfl, .inr ⟨rfl, c, rfl, hf c List.mem_cons_self⟩⟩

theorem Numeral.unsigned {u : List Char} (h : Numeral u) : optionalSign u = (false, u) := by
  obtain ⟨c, rest, rfl, hc⟩ := h.head
  unfold optionalSign
  split
  · next heq =>
    cases heq
    simp at hc
  · next heq =>
    cases heq
    simp at hc
  · rfl

/-- A decimal text is a numeral with a sign before it, if any. -/
theorem unsigned_of_readDecimal {t : List Char} {x : Double} (h : readDecimal? t = some x) :
    Numeral (optionalSign t).2 ∧ ∃ z, readDecimal? (optionalSign t).2 = some z ∧
      x = if (optionalSign t).1 then -z else z := by
  obtain ⟨l, hl, rfl⟩ := Option.map_eq_some_iff.mp h
  have hnumeral := numeral_of_literal hl
  refine ⟨hnumeral, Literal.toDouble { l with negative := false }, ?_, ?_⟩
  · rw [readDecimal?, Option.map_eq_some_iff]
    refine ⟨_, ?_, rfl⟩
    simp only [Literal.ofChars?] at hl ⊢
    rw [hnumeral.unsigned]
    obtain ⟨hne, hl⟩ := Option.ite_none_left_eq_some.mp hl
    obtain ⟨e, he, rfl⟩ := Option.map_eq_some_iff.mp hl
    rw [if_neg hne, he]
    rfl
  · simp only [Literal.ofChars?] at hl
    obtain ⟨hne, hl⟩ := Option.ite_none_left_eq_some.mp hl
    obtain ⟨e, he, rfl⟩ := Option.map_eq_some_iff.mp hl
    simp only [Literal.toDouble]
    rfl

theorem digitRun_append {digits rest : List Char} (hd : Digits digits) (hrest : ∀ c ∈ rest.head?, c.isDigit = false) :
    digitRun (digits ++ rest) = (digits, rest) := by
  rw [digitRun, List.takeWhile_append_of_pos hd, List.dropWhile_append_of_pos hd]
  cases rest with
  | nil => simp
  | cons c rest => simp [hrest c rfl]

theorem head_of_exponentPart {s : List Char} {e : Int} (h : exponentPart? s = some e) :
    ∀ c ∈ s.head?, c.isDigit = false ∧ c ≠ '.' := by
  cases s with
  | nil => simp
  | cons c r =>
    simp only [exponentPart?] at h
    split at h
    · next hc =>
      rintro d ⟨⟩
      rcases hc with rfl | rfl <;> decide
    · cases h

theorem exponentPart_marked {mark : Char} {sign digits : List Char} (hmark : mark = 'e' ∨ mark = 'E')
    (hsign : sign = [] ∨ sign = ['+'] ∨ sign = ['-']) (hne : digits ≠ []) (hd : Digits digits) :
    exponentPart? (mark :: sign ++ digits) =
      some (if sign = ['-'] then -(natOfDigits digits : Int) else natOfDigits digits) := by
  have hrun : digitRun digits = (digits, []) := by
    have : digitRun (digits ++ []) = (digits, []) := digitRun_append hd (by simp)
    rwa [List.append_nil] at this
  have hplain : optionalSign digits = (false, digits) := by
    have := (Numeral.whole hne hd .none).unsigned
    rwa [List.append_nil] at this
  rcases hsign with rfl | rfl | rfl
  · simp [exponentPart?, hmark, hplain, hrun, hne]
  · simp [exponentPart?, hmark, optionalSign, hrun, hne]
  · simp [exponentPart?, hmark, optionalSign, hrun, hne]

theorem exists_exponentPart {s : List Char} (h : Exponent s) : ∃ e, exponentPart? s = some e := by
  cases h with
  | none => exact ⟨0, rfl⟩
  | some hmark hsign hne hd => exact ⟨_, exponentPart_marked hmark hsign hne hd⟩

namespace Literal

theorem ofChars_whole {whole exponent : List Char} {e : Int} (hne : whole ≠ []) (hd : Digits whole)
    (he : exponentPart? exponent = some e) : ofChars? (whole ++ exponent) = some ⟨false, natOfDigits whole, e⟩ := by
  have hhead := head_of_exponentPart he
  have hsign := (Numeral.whole hne hd (exponent_of_part he)).unsigned
  simp only [ofChars?, hsign, digitRun_append hd fun c hc => (hhead c hc).1]
  split
  · exact absurd rfl (hhead '.' rfl).2
  · simp [hne, he]

theorem ofChars_point {whole fraction exponent : List Char} {e : Int} (hd : Digits whole) (hf : Digits fraction)
    (hne : whole ++ fraction ≠ []) (he : exponentPart? exponent = some e) :
    ofChars? (whole ++ '.' :: fraction ++ exponent) =
      some ⟨false, natOfDigits (whole ++ fraction), e - fraction.length⟩ := by
  have hsign := (Numeral.point hd hf hne (exponent_of_part he)).unsigned
  rw [List.append_assoc, List.cons_append] at hsign ⊢
  simp only [ofChars?, hsign, digitRun_append hd (show ∀ c ∈ ('.' :: (fraction ++ exponent)).head?, c.isDigit = false by simp),
    digitRun_append hf fun c hc => (head_of_exponentPart he c hc).1]
  rw [if_neg (by simpa using hne), he]
  rfl

theorem ofChars_signed {c : Char} {u : List Char} (h : Numeral u) (hc : c = '-' ∨ c = '+') :
    ofChars? (c :: u) = (ofChars? u).map fun l => { l with negative := c = '-' } := by
  have hu := h.unsigned
  have hsign : optionalSign (c :: u) = (decide (c = '-'), u) := by rcases hc with rfl | rfl <;> rfl
  simp only [ofChars?, hsign, hu]
  rw [apply_ite (Option.map _), Option.map_none, Option.map_map]
  rfl

end Literal

theorem Numeral.exists_literal {u : List Char} (h : Numeral u) : ∃ l, Literal.ofChars? u = some l := by
  cases h with
  | whole hne hd he =>
    obtain ⟨e, he⟩ := exists_exponentPart he
    exact ⟨_, Literal.ofChars_whole hne hd he⟩
  | point hd hf hne he =>
    obtain ⟨e, he⟩ := exists_exponentPart he
    exact ⟨_, Literal.ofChars_point hd hf hne he⟩

/-- A decimal literal with a sign before it, if any. -/
inductive SignedNumeral : List Char → Prop
  | plain {u : List Char} : Numeral u → SignedNumeral u
  | sign {c : Char} {u : List Char} : c = '-' ∨ c = '+' → Numeral u → SignedNumeral (c :: u)

theorem signedNumeral_iff {t : List Char} : SignedNumeral t ↔ (readDecimal? t).isSome := by
  rw [readDecimal?, Option.isSome_map]
  constructor
  · rintro (h | ⟨hc, h⟩)
    · obtain ⟨l, hl⟩ := h.exists_literal
      simp [hl]
    · obtain ⟨l, hl⟩ := h.exists_literal
      simp [Literal.ofChars_signed h hc, hl]
  · intro h
    obtain ⟨l, hl⟩ := Option.isSome_iff_exists.mp h
    have hnumeral := numeral_of_literal hl
    rcases optionalSign_eq t with ⟨ht, -⟩ | ⟨ht, -⟩ | ⟨ht, -⟩ <;> rw [ht]
    · exact .plain hnumeral
    · exact .sign (.inl rfl) hnumeral
    · exact .sign (.inr rfl) hnumeral

theorem Digits.chars {text : List Char} (h : Digits text) :
    ∀ c ∈ text, c.isDigit = true ∨ c ∈ ['.', 'e', 'E', '+', '-'] := fun c hc => .inl (h c hc)

theorem Exponent.chars {text : List Char} (h : Exponent text) :
    ∀ c ∈ text, c.isDigit = true ∨ c ∈ ['.', 'e', 'E', '+', '-'] := by
  cases h with
  | none => simp
  | some hmark hsign _ hd =>
    intro c hc
    simp only [List.cons_append, List.mem_cons, List.mem_append] at hc
    rcases hc with rfl | hc | hc
    · rcases hmark with rfl | rfl <;> simp
    · rcases hsign with rfl | rfl | rfl <;> simp at hc <;> simp [hc]
    · exact hd.chars c hc

theorem Numeral.chars {u : List Char} (h : Numeral u) :
    ∀ c ∈ u, c.isDigit = true ∨ c ∈ ['.', 'e', 'E', '+', '-'] := by
  intro c hc
  cases h with
  | whole _ hd he =>
    rcases List.mem_append.mp hc with hc | hc
    · exact hd.chars c hc
    · exact he.chars c hc
  | point hd hf _ he =>
    simp only [List.append_assoc, List.cons_append, List.mem_append, List.mem_cons] at hc
    rcases hc with hc | rfl | hc | hc
    · exact hd.chars c hc
    · simp
    · exact hf.chars c hc
    · exact he.chars c hc

theorem Numeral.not_mem {u : List Char} (h : Numeral u) {c : Char} (hdigit : c.isDigit = false)
    (hc : c ∉ ['.', 'e', 'E', '+', '-']) : c ∉ u := by
  intro hmem
  rcases h.chars c hmem with hd | hd
  · simp [hdigit] at hd
  · exact hc hd

theorem Numeral.filter {u : List Char} (h : Numeral u) : u.filter (· ≠ '_') = u := by
  refine List.filter_eq_self.mpr fun c hc => ?_
  rw [decide_eq_true_eq]
  rintro rfl
  exact h.not_mem (by decide) (by decide) hc

theorem EndsNumber.head {p : Char → Bool} {rest : List Char} (h : EndsNumber rest)
    (hp : [',', ']', '\x7d', ')'].all (!p ·) = true) : ∀ c ∈ rest.head?, p c = false := by
  intro c hc
  have hnot : (!p c) = true := List.all_eq_true.mp hp c (h c hc)
  exact Bool.not_eq_true' _ |>.mp hnot

end Apiary
