import Apiary.Json.Printer
import Apiary.Json.Reader
import Apiary.Proofs.Script.NumberText
import Apiary.Proofs.Script.Radix

/-!
Strings and numbers in the text of data. A string reads back as it was. A number is read the same in whatever stands
after it, and to its last digit.
-/

namespace Apiary.Json

theorem toOption_bind {ε α β : Type} (x : Except ε α) (f : α → Except ε β) :
    (x >>= f).toOption = x.toOption.bind fun a => (f a).toOption := by
  cases x <;> rfl

section Strings

theorem hexValue_hexDigit : ∀ n < 16, hexValue? (hexDigit n) = some n := by decide

theorem hexUnit_code {c : Char} (h : c.toNat < 32) (rest : List Char) :
    hexUnit ('0' :: '0' :: hexDigit (c.toNat / 16) :: hexDigit (c.toNat % 16) :: rest) = .ok (c.toNat, rest) := by
  have hhigh := hexValue_hexDigit (c.toNat / 16) (by omega)
  have hlow := hexValue_hexDigit (c.toNat % 16) (by omega)
  have hzero : hexValue? '0' = some 0 := by decide
  have hvalue : ((0 * 16 + 0) * 16 + c.toNat / 16) * 16 + c.toNat % 16 = c.toNat := by omega
  simp only [hexUnit, hzero, hhigh, hlow, hvalue]

theorem escaped_code {c : Char} (h : c.toNat < 32) (rest : List Char) :
    escaped ('u' :: '0' :: '0' :: hexDigit (c.toNat / 16) :: hexDigit (c.toNat % 16) :: rest) = .ok (c, rest) := by
  have hunit := hexUnit_code h rest
  simp only [escaped, codeUnit, hunit, bind, Except.bind]
  rw [if_neg (by omega), if_pos (by omega), Char.ofNat_toNat]
  rfl

theorem stringBody_escape (n : Nat) (done : List Char) (c : Char) (rest : List Char) :
    stringBody (n + 1) done (escape c ++ rest) = stringBody n (c :: done) rest := by
  have taken {text : List Char} (h : escaped text = .ok (c, rest)) :
      stringBody (n + 1) done ('\\' :: text) = stringBody n (c :: done) rest := by
    simp only [stringBody, h, bind, Except.bind]
    rfl
  have of_code {k : Nat} (hk : c.toNat = k) : c = Char.ofNat k := by rw [← hk, Char.ofNat_toNat]
  unfold escape
  split_ifs with hquote hslash hline hreturn htab hback hfeed hcode
  · exact taken (by rw [hquote]; rfl)
  · exact taken (by rw [hslash]; rfl)
  · exact taken (by rw [hline]; rfl)
  · exact taken (by rw [hreturn]; rfl)
  · exact taken (by rw [htab]; rfl)
  · exact taken (by rw [of_code hback]; rfl)
  · exact taken (by rw [of_code hfeed]; rfl)
  · exact taken (escaped_code hcode rest)
  · simp [stringBody, hquote, hslash, hcode]

theorem stringBody_text (s : List Char) (rest : List Char) {n : Nat} (h : s.length < n) (done : List Char) :
    stringBody n done (s.flatMap escape ++ '"' :: rest) = .ok (String.ofList (done.reverse ++ s), rest) := by
  induction s generalizing n done with
  | nil =>
    obtain ⟨n, rfl⟩ : ∃ k, n = k + 1 := ⟨n - 1, by simp only [List.length_nil] at h; omega⟩
    simp [stringBody]
  | cons c s ih =>
    rw [List.length_cons] at h
    obtain ⟨n, rfl⟩ : ∃ k, n = k + 1 := ⟨n - 1, by omega⟩
    rw [List.flatMap_cons, List.append_assoc, stringBody_escape, ih (by omega)]
    simp

theorem escape_ne_nil (c : Char) : escape c ≠ [] := by
  unfold escape
  split_ifs <;> exact List.cons_ne_nil _ _

theorem length_le_escaped (s : List Char) : s.length ≤ (s.flatMap escape).length := by
  induction s with
  | nil => exact Nat.le_refl _
  | cons c s ih =>
    have hc := List.length_pos_iff.mpr (escape_ne_nil c)
    rw [List.flatMap_cons, List.length_append, List.length_cons]
    omega

theorem toList_quoted (s : String) : (quoted s).toList = '"' :: (s.toList.flatMap escape ++ ['"']) :=
  String.toList_ofList

theorem readString_quoted (s : String) (rest : List Char) {n : Nat} (h : (s.toList.flatMap escape).length < n) :
    readString n (s.toList.flatMap escape ++ '"' :: rest) = .ok (s, rest) := by
  have hlength := length_le_escaped s.toList
  rw [readString, stringBody_text s.toList rest (by omega)]
  simp

end Strings

section Numbers

/-- Whatever may stand after a number, what a reader takes from a text in front of it is the same. -/
def Local (f : List Char → Except (List Char) (Taken Json)) : Prop :=
  ∀ s rest, EndsNumber rest → (f (s ++ rest)).toOption = (f s).toOption.map fun (j, r) => (j, r ++ rest)

theorem Local.of_cons {f : List Char → Except (List Char) (Taken Json)}
    (h : ∀ s d rest, EndsNumber (d :: rest) →
      (f (s ++ d :: rest)).toOption = (f s).toOption.map fun (j, r) => (j, r ++ d :: rest)) : Local f := by
  intro s rest hend
  cases rest with
  | nil => simp
  | cons d rest => exact h s d rest hend

section Digits

variable {rest : List Char} (hrest : ∀ c ∈ rest.head?, c.isDigit = false)

include hrest

theorem significandDigits_append (significand count : Nat) (s : List Char) :
    significandDigits significand count (s ++ rest) =
      ((significandDigits significand count s).1, (significandDigits significand count s).2.1,
        (significandDigits significand count s).2.2 ++ rest) := by
  induction s generalizing significand count with
  | nil =>
    cases rest with
    | nil => rfl
    | cons d rest => simp [significandDigits, hrest d rfl]
  | cons c s ih =>
    rw [List.cons_append, significandDigits, significandDigits]
    split
    · exact ih _ _
    · rfl

theorem exponentDigits_append (exponent : Nat) (s : List Char) :
    exponentDigits exponent (s ++ rest) =
      ((exponentDigits exponent s).1, (exponentDigits exponent s).2 ++ rest) := by
  induction s generalizing exponent with
  | nil =>
    cases rest with
    | nil => rfl
    | cons d rest => simp [exponentDigits, hrest d rfl]
  | cons c s ih =>
    rw [List.cons_append, exponentDigits, exponentDigits]
    split
    · exact ih _
    · rfl

theorem startsWithDigit_append (s : List Char) : startsWithDigit (s ++ rest) = startsWithDigit s := by
  rcases s with _ | ⟨c, s⟩
  · cases rest with
    | nil => rfl
    | cons d rest => exact hrest d rfl
  · rfl

theorem dropWhile_append (s : List Char) :
    (s ++ rest).dropWhile Char.isDigit = s.dropWhile Char.isDigit ++ rest := by
  induction s with
  | nil =>
    cases rest with
    | nil => rfl
    | cons d rest => simp [hrest d rfl]
  | cons c s ih =>
    rw [List.cons_append, List.dropWhile_cons, List.dropWhile_cons]
    split
    · exact ih
    · rfl

theorem takeWhile_append (s : List Char) : (s ++ rest).takeWhile Char.isDigit = s.takeWhile Char.isDigit := by
  induction s with
  | nil =>
    cases rest with
    | nil => rfl
    | cons d rest => simp [hrest d rfl]
  | cons c s ih =>
    rw [List.cons_append, List.takeWhile_cons, List.takeWhile_cons, ih]

end Digits

variable {d : Char} {rest : List Char}

theorem not_digit_of_ends (hend : EndsNumber rest) : ∀ c ∈ rest.head?, c.isDigit = false := hend.head (by decide)

theorem ne_of_ends (hend : EndsNumber (d :: rest)) {c : Char}
    (hc : [',', ']', '\x7d', ')'].all (!· == c) = true) : d ≠ c :=
  ne_of_beq_false (hend.head (p := (· == c)) hc d rfl)

theorem optionalSign_append (hminus : d ≠ '-') (hplus : d ≠ '+') (s : List Char) :
    optionalSign (s ++ d :: rest) = ((optionalSign s).1, (optionalSign s).2 ++ d :: rest) := by
  cases s with
  | nil => simp [optionalSign, hminus, hplus]
  | cons c s =>
    unfold optionalSign
    rw [List.cons_append]
    split <;> simp_all

theorem local_finishFloat (negative : Bool) (significand : Nat) (exponent : Int) :
    Local (finishFloat negative significand exponent) := by
  intro s rest _
  unfold finishFloat
  cases scaled? significand exponent <;> rfl

/-- What is read of an exponent after its sign. -/
def readPower (negative : Bool) (significand : Nat) (start : Int) (down : Bool) :
    List Char → Except (List Char) (Taken Json)
  | [] => .error []
  | c :: rest =>
    if ¬ c.isDigit then .error rest
    else
      let (exponent, rest) := exponentDigits (digitValue c) rest
      if startsWithDigit rest then
        if significand ≠ 0 ∧ ¬ down then .error rest.tail
        else .ok (.float (if negative then -0.0 else 0.0), rest.dropWhile Char.isDigit)
      else
        finishFloat negative significand (if down then start - exponent else start + exponent) rest

theorem readExponent_eq (negative : Bool) (significand : Nat) (start : Int) (s : List Char) :
    readExponent negative significand start s =
      readPower negative significand start (optionalSign s).1 (optionalSign s).2 := by
  unfold readExponent optionalSign readPower
  rcases s with _ | ⟨c, s⟩
  · rfl
  · by_cases hplus : c = '+'
    · subst hplus
      rfl
    · by_cases hminus : c = '-'
      · subst hminus
        rfl
      · simp [hplus, hminus]

theorem local_readPower (negative : Bool) (significand : Nat) (start : Int) (down : Bool) :
    Local (readPower negative significand start down) := by
  refine .of_cons fun s d rest hend => ?_
  have hdigit := not_digit_of_ends hend
  cases s with
  | nil => simp [readPower, hdigit d rfl, Except.toOption]
  | cons c s =>
    rw [List.cons_append, readPower, readPower]
    split
    · rfl
    · rw [exponentDigits_append hdigit]
      dsimp only
      rw [startsWithDigit_append hdigit]
      split
      · split
        · rfl
        · rw [dropWhile_append hdigit]
          rfl
      · exact local_finishFloat _ _ _ _ _ hend

theorem local_readExponent (negative : Bool) (significand : Nat) (start : Int) :
    Local (readExponent negative significand start) := by
  refine .of_cons fun s d rest hend => ?_
  rw [readExponent_eq, readExponent_eq, optionalSign_append (ne_of_ends hend (by decide)) (ne_of_ends hend (by decide))]
  exact local_readPower _ _ _ _ _ _ hend

theorem local_readTail (negative : Bool) (significand : Nat) (exponent : Int) :
    Local (readTail negative significand exponent) := by
  refine .of_cons fun s d rest hend => ?_
  cases s with
  | nil =>
    have hlower : d ≠ 'e' := ne_of_ends hend (by decide)
    have hupper : d ≠ 'E' := ne_of_ends hend (by decide)
    simp only [List.nil_append, readTail, hlower, hupper, or_false, if_false]
    exact local_finishFloat _ _ _ [] _ hend
  | cons c s =>
    rw [List.cons_append, readTail, readTail]
    split
    · exact local_readExponent _ _ _ _ _ hend
    · exact local_finishFloat _ _ _ (c :: s) _ hend

theorem local_readFraction (negative : Bool) (significand : Nat) (start : Int) :
    Local (readFraction negative significand start) := by
  refine .of_cons fun s d rest hend => ?_
  have hdigit := not_digit_of_ends hend
  unfold readFraction
  rw [significandDigits_append hdigit]
  dsimp only
  rw [startsWithDigit_append hdigit]
  split
  · rfl
  · rw [dropWhile_append hdigit]
    exact local_readTail _ _ _ _ _ hend

/-- A number that ends after its whole part. -/
def readWhole (negative : Bool) (significand dropped : Nat) (s : List Char) : Except (List Char) (Taken Json) :=
  if 0 < dropped then finishFloat negative significand dropped s
  else if ¬ negative then .ok (.int significand, s)
  else if 0 < significand ∧ significand ≤ twoTo 63 then .ok (.int (-significand), s)
  else .ok (.float (-Double.ofNat significand), s)

theorem afterWhole_cases (negative : Bool) (significand dropped : Nat) (s : List Char) :
    (∃ r, s = '.' :: r ∧
      readNumber.afterWhole negative significand dropped s = readFraction negative significand dropped r) ∨
    (∃ c r, s = c :: r ∧ (c = 'e' ∨ c = 'E') ∧
      readNumber.afterWhole negative significand dropped s = readExponent negative significand dropped r) ∨
    (∀ c ∈ s.head?, c ≠ '.' ∧ c ≠ 'e' ∧ c ≠ 'E') ∧
      readNumber.afterWhole negative significand dropped s = readWhole negative significand dropped s := by
  rcases s with _ | ⟨c, r⟩
  · exact .inr (.inr ⟨nofun, rfl⟩)
  by_cases hpoint : c = '.'
  · subst hpoint
    exact .inl ⟨r, rfl, rfl⟩
  by_cases hlower : c = 'e'
  · subst hlower
    exact .inr (.inl ⟨_, r, rfl, .inl rfl, rfl⟩)
  by_cases hupper : c = 'E'
  · subst hupper
    exact .inr (.inl ⟨_, r, rfl, .inr rfl, rfl⟩)
  refine .inr (.inr ⟨fun c hc => ?_, ?_⟩)
  · cases hc
    exact ⟨hpoint, hlower, hupper⟩
  · simp [readNumber.afterWhole, readWhole, hpoint, hlower, hupper]

theorem afterWhole_whole (negative : Bool) (significand dropped : Nat) {s : List Char}
    (h : ∀ c ∈ s.head?, c ≠ '.' ∧ c ≠ 'e' ∧ c ≠ 'E') :
    readNumber.afterWhole negative significand dropped s = readWhole negative significand dropped s := by
  rcases afterWhole_cases negative significand dropped s with ⟨r, rfl, -⟩ | ⟨c, r, rfl, hc, -⟩ | ⟨-, heq⟩
  · exact absurd rfl (h '.' rfl).1
  · rcases hc with rfl | rfl
    · exact absurd rfl (h 'e' rfl).2.1
    · exact absurd rfl (h 'E' rfl).2.2
  · exact heq

theorem local_readWhole (negative : Bool) (significand dropped : Nat) :
    Local (readWhole negative significand dropped) := by
  intro s rest hend
  unfold readWhole
  split_ifs
  · exact local_finishFloat _ _ _ _ _ hend
  all_goals rfl

theorem local_afterWhole (negative : Bool) (significand dropped : Nat) :
    Local (readNumber.afterWhole negative significand dropped) := by
  refine .of_cons fun s d rest hend => ?_
  rcases afterWhole_cases negative significand dropped s with ⟨r, rfl, heq⟩ | ⟨c, r, rfl, hc, heq⟩ | ⟨hs, heq⟩
  · rw [heq]
    exact local_readFraction _ _ _ r _ hend
  · rw [heq]
    rcases hc with rfl | rfl <;> exact local_readExponent _ _ _ r _ hend
  · rw [heq, afterWhole_whole]
    · exact local_readWhole _ _ _ s _ hend
    · intro c hc
      cases s with
      | nil =>
        cases hc
        exact ⟨ne_of_ends hend (by decide), ne_of_ends hend (by decide), ne_of_ends hend (by decide)⟩
      | cons c' s => exact hs c hc

/-- A number that does not start with a zero in front of others. -/
def readDigits (negative : Bool) : List Char → Except (List Char) (Taken Json)
  | [] => .error []
  | c :: rest =>
    if ¬ c.isDigit then .error rest
    else
      let (significand, _, rest) := significandDigits (digitValue c) 0 rest
      let (dropped, rest) := digitRun rest
      readNumber.afterWhole negative significand dropped.length rest

theorem readNumber_zero (negative : Bool) (s : List Char) :
    readNumber negative ('0' :: s) =
      if startsWithDigit s then .error s.tail else readNumber.afterWhole negative 0 0 s := by
  cases s <;> rfl

theorem readNumber_of_ne (negative : Bool) {s : List Char} (h : s.head? ≠ some '0') :
    readNumber negative s = readDigits negative s := by
  rcases s with _ | ⟨c, s⟩
  · rfl
  · have hc : c ≠ '0' := fun hc => h (congrArg some hc)
    simp [readNumber, readDigits, hc]

theorem local_readDigits (negative : Bool) : Local (readDigits negative) := by
  refine .of_cons fun s d rest hend => ?_
  have hdigit := not_digit_of_ends hend
  cases s with
  | nil => simp [readDigits, hdigit d rfl, Except.toOption]
  | cons c s =>
    rw [List.cons_append, readDigits, readDigits]
    split
    · rfl
    · rw [significandDigits_append hdigit]
      dsimp only [digitRun]
      rw [takeWhile_append hdigit, dropWhile_append hdigit]
      exact local_afterWhole _ _ _ _ _ hend

theorem local_readNumber (negative : Bool) : Local (readNumber negative) := by
  refine .of_cons fun s d rest hend => ?_
  have hdigit := not_digit_of_ends hend
  by_cases hzero : s.head? = some '0'
  · obtain ⟨s, rfl⟩ : ∃ r, s = '0' :: r := ⟨s.tail, (List.cons_head?_tail hzero).symm⟩
    rw [List.cons_append, readNumber_zero, readNumber_zero, startsWithDigit_append hdigit]
    split
    · rfl
    · exact local_afterWhole _ _ _ _ _ hend
  · have hzero' : (s ++ d :: rest).head? ≠ some '0' := by
      cases s with
      | nil =>
        intro h
        cases h
        cases hdigit '0' rfl
      | cons c s => exact hzero
    rw [readNumber_of_ne negative hzero, readNumber_of_ne negative hzero']
    exact local_readDigits _ _ _ hend

/-- What is read leaves nothing over. -/
def Consumes (f : List Char → Except (List Char) (Taken Json)) (s : List Char) : Prop :=
  ∀ j r, f s = .ok (j, r) → r = []

theorem consumes_finishFloat (negative : Bool) (significand : Nat) (exponent : Int) :
    Consumes (finishFloat negative significand exponent) [] := by
  intro j r h
  unfold finishFloat at h
  split at h <;> cases h
  rfl

theorem suffix_significandDigits (significand count : Nat) (s : List Char) :
    (significandDigits significand count s).2.2 <:+ s := by
  induction s generalizing significand count with
  | nil => exact List.suffix_rfl
  | cons c s ih =>
    rw [significandDigits]
    split
    · exact (ih _ _).trans (List.suffix_cons c s)
    · exact List.suffix_rfl

theorem suffix_exponentDigits (exponent : Nat) (s : List Char) : (exponentDigits exponent s).2 <:+ s := by
  induction s generalizing exponent with
  | nil => exact List.suffix_rfl
  | cons c s ih =>
    rw [exponentDigits]
    split
    · exact (ih _).trans (List.suffix_cons c s)
    · exact List.suffix_rfl

theorem dropWhile_digits {s : List Char} (h : Digits s) : s.dropWhile Char.isDigit = [] :=
  List.dropWhile_eq_nil_iff.mpr h

theorem eq_nil_of_digits {s : List Char} (h : Digits s) (hs : ¬ startsWithDigit s = true) : s = [] := by
  rcases s with _ | ⟨c, s⟩
  · rfl
  · exact absurd (h c List.mem_cons_self) hs

theorem consumes_readPower (negative : Bool) (significand : Nat) (start : Int) (down : Bool) {digits : List Char}
    (hd : Digits digits) : Consumes (readPower negative significand start down) digits := by
  intro j r h
  rcases digits with _ | ⟨c, digits⟩
  · cases h
  · have hrest : Digits (exponentDigits (digitValue c) digits).2 :=
      fun c' hc' => hd c' (List.mem_cons_of_mem c ((suffix_exponentDigits _ digits).subset hc'))
    rw [readPower] at h
    split at h
    · cases h
    · dsimp only at h
      split at h
      · split at h
        · cases h
        · cases h
          exact dropWhile_digits hrest
      · next hstart =>
        rw [eq_nil_of_digits hrest hstart] at h
        exact consumes_finishFloat _ _ _ j r h

theorem optionalSign_digits {s : List Char} (h : Digits s) : optionalSign s = (false, s) := by
  rcases s with _ | ⟨c, s⟩
  · rfl
  · have hc := h c List.mem_cons_self
    unfold optionalSign
    split
    · next heq =>
      cases heq
      cases hc
    · next heq =>
      cases heq
      cases hc
    · rfl

theorem consumes_readExponent (negative : Bool) (significand : Nat) (start : Int) {sign digits : List Char}
    (hsign : sign = [] ∨ sign = ['+'] ∨ sign = ['-']) (hd : Digits digits) :
    Consumes (readExponent negative significand start) (sign ++ digits) := by
  intro j r h
  rw [readExponent_eq] at h
  rcases hsign with rfl | rfl | rfl
  · rw [List.nil_append, optionalSign_digits hd] at h
    exact consumes_readPower _ _ _ _ hd j r h
  · exact consumes_readPower _ _ _ _ hd j r h
  · exact consumes_readPower _ _ _ _ hd j r h

theorem head_exponent {s : List Char} (h : Exponent s) : ∀ c ∈ s.head?, c = 'e' ∨ c = 'E' := by
  cases h with
  | none => exact nofun
  | some hmark =>
    intro c hc
    cases hc
    exact hmark

theorem not_digit_of_exponent {s : List Char} (h : Exponent s) : ∀ c ∈ s.head?, c.isDigit = false := by
  intro c hc
  rcases head_exponent h c hc with rfl | rfl <;> rfl

theorem consumes_readTail (negative : Bool) (significand : Nat) (exponent : Int) {s : List Char} (h : Exponent s) :
    Consumes (readTail negative significand exponent) s := by
  cases h with
  | none => exact consumes_finishFloat _ _ _
  | some hmark hsign _ hd =>
    intro j r h
    rw [List.cons_append, readTail, if_pos hmark] at h
    exact consumes_readExponent _ _ _ hsign hd j r h

theorem consumes_readFraction (negative : Bool) (significand : Nat) (start : Int) {fraction exponent : List Char}
    (hf : Digits fraction) (he : Exponent exponent) :
    Consumes (readFraction negative significand start) (fraction ++ exponent) := by
  intro j r h
  unfold readFraction at h
  rw [significandDigits_append (not_digit_of_exponent he)] at h
  dsimp only at h
  split at h
  · cases h
  · have hrest : Digits (significandDigits significand 0 fraction).2.2 :=
      fun c hc => hf c ((suffix_significandDigits _ _ fraction).subset hc)
    rw [dropWhile_append (not_digit_of_exponent he), dropWhile_digits hrest] at h
    exact consumes_readTail _ _ _ he j r h

theorem consumes_afterWhole (negative : Bool) (significand dropped : Nat) {s : List Char} (h : Exponent s) :
    Consumes (readNumber.afterWhole negative significand dropped) s := by
  cases h with
  | none =>
    intro j r h
    rw [afterWhole_whole _ _ _ (by simp), readWhole] at h
    split at h
    · exact consumes_finishFloat _ _ _ j r h
    · split_ifs at h <;> cases h <;> rfl
  | some hmark hsign _ hd =>
    rcases hmark with rfl | rfl <;> exact consumes_readExponent _ _ _ hsign hd

theorem consumes_whole (negative : Bool) {whole tail : List Char} (hd : Digits whole)
    (htail : ∀ c ∈ tail.head?, c.isDigit = false)
    (h : ∀ significand dropped, Consumes (readNumber.afterWhole negative significand dropped) tail) :
    Consumes (readNumber negative) (whole ++ tail) := by
  intro j r hread
  rcases whole with _ | ⟨c, whole⟩
  · rw [List.nil_append, readNumber_of_ne] at hread
    · rcases tail with _ | ⟨d, tail⟩
      · cases hread
      · rw [readDigits, if_pos (by simp [htail d rfl])] at hread
        cases hread
    · intro hzero
      cases htail '0' hzero
  · have hwhole : Digits whole := fun c' hc' => hd c' (List.mem_cons_of_mem c hc')
    by_cases hzero : c = '0'
    · subst hzero
      rw [List.cons_append, readNumber_zero, startsWithDigit_append htail] at hread
      split at hread
      · cases hread
      · next hstart =>
        rw [eq_nil_of_digits hwhole hstart] at hread
        exact h _ _ j r hread
    · have hc : c.isDigit = true := hd c List.mem_cons_self
      have hrest : Digits (significandDigits (digitValue c) 0 whole).2.2 :=
        fun c' hc' => hwhole c' ((suffix_significandDigits _ _ whole).subset hc')
      rw [List.cons_append, readNumber_of_ne _ (by simpa using hzero), readDigits, if_neg (by simp [hc]),
        significandDigits_append htail] at hread
      dsimp only [digitRun] at hread
      rw [dropWhile_append htail, dropWhile_digits hrest] at hread
      exact h _ _ j r hread

theorem consumes_numeral (negative : Bool) {s : List Char} (h : Numeral s) : Consumes (readNumber negative) s := by
  cases h with
  | whole _ hd he =>
    exact consumes_whole negative hd (not_digit_of_exponent he) fun _ _ => consumes_afterWhole _ _ _ he
  | point hd hf _ he =>
    rw [List.append_assoc]
    refine consumes_whole negative hd (fun c hc => by cases hc; rfl) fun significand dropped => ?_
    exact consumes_readFraction _ _ _ hf he

theorem le_afterDigits (n : Nat) (digits : List Char) : n ≤ afterDigits n digits := by
  rw [afterDigits_eq]
  have hpos : 0 < tenTo digits.length := Nat.pow_pos (by decide)
  have hle := Nat.le_mul_of_pos_right n hpos
  omega

theorem significandDigits_whole {digits : List Char} (hd : Digits digits) {significand : Nat}
    (h : afterDigits significand digits < twoTo 64) (count : Nat) :
    significandDigits significand count digits = (afterDigits significand digits, count + digits.length, []) := by
  induction digits generalizing significand count with
  | nil => rfl
  | cons c digits ih =>
    have hrest : Digits digits := fun c' hc' => hd c' (List.mem_cons_of_mem c hc')
    have hnext : afterDigits significand (c :: digits) = afterDigits (significand * 10 + digitValue c) digits := rfl
    rw [hnext] at h ⊢
    have hlt := Nat.lt_of_le_of_lt (le_afterDigits _ digits) h
    rw [significandDigits, if_pos (by simp [hd c List.mem_cons_self, hlt]), ih hrest h, List.length_cons,
      Nat.add_right_comm, Nat.add_assoc]

theorem readNumber_decimalDigits (negative : Bool) {n : Nat} (h : n < twoTo 64) :
    readNumber negative (decimalDigits n) = readWhole negative n 0 [] := by
  have hspells : Spells 10 (numeral 10 n) n := spells_numeral (by decide) (by decide) n
  rw [numeral_ten] at hspells
  obtain ⟨hd, hne, hvalue⟩ := decimalDigits_spec n
  rw [natOfDigits_eq] at hvalue
  generalize decimalDigits n = digits at hspells hd hne hvalue
  obtain ⟨c, rest, rfl⟩ := List.exists_cons_of_ne_nil hne
  by_cases hzero : c = '0'
  · subst hzero
    obtain rfl : rest = [] := List.tail_eq_of_cons_eq (hspells.leading rfl)
    obtain rfl : n = 0 := hvalue.symm
    rfl
  · have hrest : Digits rest := fun c' hc' => hd c' (List.mem_cons_of_mem c hc')
    have hfirst : afterDigits (digitValue c) rest = n := by
      rw [← hvalue]
      exact congrArg (afterDigits · rest) (Nat.zero_add (digitValue c)).symm
    have hread := significandDigits_whole hrest (hfirst ▸ h) 0
    rw [readNumber_of_ne _ (by simpa using hzero), readDigits, if_neg (by simp [hd c List.mem_cons_self]), hread,
      hfirst]
    exact afterWhole_whole _ _ _ (by simp)

end Numbers

section Values

variable {s rest : List Char}

/-- A numeral, or one with a minus sign. -/
def NumberText (s : List Char) : Prop := ∃ u, Numeral u ∧ (s = u ∨ s = '-' :: u)

theorem skip_cons {c : Char} (h : isSpace c = false) (s : List Char) : skip (c :: s) = c :: s :=
  List.dropWhile_cons_of_neg (by simp [h])

theorem readValue_minus (n depth : Nat) (s : List Char) : readValue n depth ('-' :: s) = readNumber true s := by
  unfold readValue
  rw [skip_cons (by decide)]
  rfl

theorem ne_of_isDigit {c d : Char} (hc : c.isDigit = true) (hd : d.isDigit = false) : c ≠ d := by
  rintro rfl
  rw [hc] at hd
  cases hd

theorem isSpace_of_isDigit {c : Char} (hc : c.isDigit = true) : isSpace c = false := by
  simp [isSpace, ne_of_isDigit hc (d := ' ') rfl, ne_of_isDigit hc (d := '\n') rfl, ne_of_isDigit hc (d := '\t') rfl,
    ne_of_isDigit hc (d := '\r') rfl]

theorem readValue_digit (n depth : Nat) {c : Char} (hc : c.isDigit = true) (s : List Char) :
    readValue n depth (c :: s) = readNumber false (c :: s) := by
  have hne {d : Char} (hd : d.isDigit = false) : c ≠ d := ne_of_isDigit hc hd
  unfold readValue
  rw [skip_cons (isSpace_of_isDigit hc)]
  simp [hne (d := 'n') rfl, hne (d := 't') rfl, hne (d := 'f') rfl, hne (d := '"') rfl, hne (d := '-') rfl,
    hne (d := '[') rfl, hne (d := '\x7b') rfl, hc]

theorem readValue_numeral (h : Numeral s) (n depth : Nat) (rest : List Char) :
    (readValue n depth (s ++ rest)).toOption = (readNumber false (s ++ rest)).toOption := by
  obtain ⟨c, s, rfl, hc | ⟨rfl, -⟩⟩ := h.head
  · rw [List.cons_append, readValue_digit n depth hc]
  · rw [List.cons_append, readNumber_of_ne _ (by simp), readValue, skip_cons (by decide)]
    rfl

/-- The reading of a number: whether there is one, and then the number, with nothing left over. -/
theorem exists_reading (h : NumberText s) : ∃ number : Option Json, ∀ n depth rest, EndsNumber rest →
    (readValue n depth (s ++ rest)).toOption = number.map fun j => (j, rest) := by
  obtain ⟨u, hu, hs⟩ := h
  have local_number (negative : Bool) : ∃ number : Option Json, ∀ rest, EndsNumber rest →
      (readNumber negative (u ++ rest)).toOption = number.map fun j => (j, rest) := by
    refine ⟨(readNumber negative u).toOption.map Prod.fst, fun rest hend => ?_⟩
    have hconsumes := consumes_numeral negative hu
    rw [local_readNumber negative u rest hend]
    cases hread : readNumber negative u with
    | error e => rfl
    | ok result =>
      obtain ⟨j, r⟩ := result
      rw [hconsumes j r hread]
      rfl
  rcases hs with rfl | rfl
  · obtain ⟨number, hnumber⟩ := local_number false
    exact ⟨number, fun n depth rest hend => by rw [readValue_numeral hu, hnumber rest hend]⟩
  · obtain ⟨number, hnumber⟩ := local_number true
    exact ⟨number, fun n depth rest hend => by rw [List.cons_append, readValue_minus, hnumber rest hend]⟩

theorem toOption_readChars {r : Option Json}
    (h : (readValue (s.length + 1) 127 s).toOption = r.map fun j => (j, [])) : (readChars s).toOption = r := by
  unfold readChars
  cases hread : readValue (s.length + 1) 127 s with
  | error e =>
    rw [hread] at h
    cases r with
    | none => rfl
    | some j => cases h
  | ok result =>
    rw [hread] at h
    cases r with
    | none => cases h
    | some j =>
      cases h
      rfl

theorem readValue_number (h : NumberText s) (n depth : Nat) (hend : EndsNumber rest) :
    (readValue n depth (s ++ rest)).toOption = (readChars s).toOption.map fun j => (j, rest) := by
  obtain ⟨number, hnumber⟩ := exists_reading h
  have hall := hnumber (s.length + 1) 127 [] nofun
  rw [List.append_nil] at hall
  rw [hnumber n depth rest hend, toOption_readChars hall]

theorem numberText_int (i : Int) : NumberText (toString i).toList := by
  rw [toList_toString_int]
  refine ⟨decimalDigits i.natAbs, (Writes.whole _).1, ?_⟩
  split
  · exact .inr rfl
  · exact .inl rfl

theorem readChars_int {i : Int} (hlow : -(twoTo 63 : Int) ≤ i) (hhigh : i < twoTo 64) :
    readChars (toString i).toList = .ok (.int i) := by
  have hnarrow : twoTo 63 < twoTo 64 := by decide
  have hword : i.natAbs < twoTo 64 := by omega
  rw [toList_toString_int, readChars]
  by_cases hneg : i < 0
  · have hsome : 0 < i.natAbs ∧ i.natAbs ≤ twoTo 63 := by omega
    have hvalue : -(i.natAbs : Int) = i := by omega
    rw [if_pos hneg, readValue_minus, readNumber_decimalDigits true hword, readWhole, if_neg (by decide),
      if_neg (by decide), if_pos hsome, hvalue]
    rfl
  · have hvalue : (i.natAbs : Int) = i := by omega
    obtain ⟨hd, hne, -⟩ := decimalDigits_spec i.natAbs
    have hread := readNumber_decimalDigits false hword
    rw [if_neg hneg]
    generalize decimalDigits i.natAbs = digits at hd hne hread
    obtain ⟨c, rest, rfl⟩ := List.exists_cons_of_ne_nil hne
    rw [readValue_digit _ _ (hd c List.mem_cons_self), hread, readWhole, if_neg (by decide), if_pos (by decide), hvalue]
    rfl

theorem toList_signed (x : Double) (text : List Char) :
    (signed x text).toList = if x.isNegative then '-' :: text else text :=
  String.toList_ofList

theorem numberText_signed (x : Double) {text : List Char} (h : Numeral text) : NumberText (signed x text).toList := by
  rw [toList_signed]
  refine ⟨text, h, ?_⟩
  split
  · exact .inr rfl
  · exact .inl rfl

theorem numberText_data (x : Double) : NumberText (dataText x).toList := by
  unfold dataText
  split
  · have hzero : Numeral (['0'] ++ '.' :: ['0'] ++ []) :=
      .point (by simp [Digits]) (by simp [Digits]) (by simp) .none
    exact numberText_signed x hzero
  · generalize shortest .even x.magnitude = d
    dsimp only
    split
    · exact numberText_signed x (Writes.scientific d).1
    · split
      · next hwhole =>
        obtain ⟨hd, hne, -⟩ := decimalDigits_spec d.digits
        have hdigits : Digits (decimalDigits d.digits ++ zeros d.exponent.toNat) := by
          intro c hc
          rcases List.mem_append.mp hc with hc | hc
          · exact hd c hc
          · rw [List.eq_of_mem_replicate hc]
            rfl
        have hzero : Digits ['0'] := by simp [Digits]
        have hnumeral := Numeral.point hdigits hzero (by simp) .none
        rw [List.append_nil] at hnumeral
        rw [Decimal.positional, if_pos hwhole]
        exact numberText_signed x hnumeral
      · next hwhole => exact numberText_signed x (Writes.positional (by omega)).1

end Values

end Apiary.Json
