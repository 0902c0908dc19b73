import Mathlib.Data.String.Lemmas
import Apiary.Proofs.Number.Integer
import Apiary.Proofs.Script.Buffer
import Apiary.Proofs.Script.Circular

/-!
Strings as characters. Repeating and padding keep to a limit, which counts bytes for the one and characters for the other.
Every way to read the character at a position counts characters from the start; a negative position has none, but
`charAt` and `charCodeAt` take it for the first.
-/

namespace Apiary

section Bytes

variable {width n : Nat} {c : Char} {s text : String}

theorem length_le_utf8Len (cs : List Char) : cs.length ≤ String.utf8Len cs := by
  induction cs with
  | nil => exact Nat.le_refl 0
  | cons c cs ih =>
    have := c.utf8Size_pos
    rw [List.length_cons, String.utf8Len_cons]
    omega

theorem utf8Len_le {cs : List Char} (h : ∀ c ∈ cs, c.utf8Size ≤ width) : String.utf8Len cs ≤ width * cs.length := by
  induction cs with
  | nil => exact Nat.zero_le _
  | cons c cs ih =>
    rw [List.forall_mem_cons] at h
    rw [List.length_cons, String.utf8Len_cons, Nat.mul_succ]
    exact Nat.add_le_add (ih h.2) h.1

theorem length_le_utf8ByteSize (s : String) : s.length ≤ s.utf8ByteSize := by
  rw [← String.utf8Len_toList, ← String.length_toList]
  exact length_le_utf8Len _

theorem utf8ByteSize_le (h : ∀ c ∈ s.toList, c.utf8Size ≤ width) : s.utf8ByteSize ≤ width * s.length := by
  rw [← String.utf8Len_toList, ← String.length_toList]
  exact utf8Len_le h

theorem mem_repeatText (hc : c ∈ (repeatText n s).toList) : c ∈ s.toList := by
  fun_induction repeatText n s with
  | case1 => cases hc
  | case2 n hn half heven ih =>
    rw [String.toList_append, List.mem_append, or_self] at hc
    exact ih hc
  | case3 n hn half hodd ih =>
    rw [String.toList_append, String.toList_append, List.mem_append, List.mem_append, or_self] at hc
    exact hc.elim ih id

theorem mem_cycled (hc : c ∈ (cycled n text).toList) : c ∈ text.toList := by
  rw [cycled, String.toList_append, String.toList_ofList] at hc
  exact (List.mem_append.mp hc).elim mem_repeatText List.mem_of_mem_take

end Bytes

/-- What padding fills with. -/
def Heap.fill? (h : Heap) (args : List Value) : Option String :=
  match Act.argAt args 1 with
  | .undefined => some " "
  | v => h.display? v

theorem Heap.not_circular_undefined {h : Heap} : ¬ h.Circular .undefined := by
  rintro ⟨u, hreach, hloop⟩
  rcases Relation.ReflTransGen.cases_head hreach with rfl | ⟨v, hstep, -⟩
  · obtain ⟨v, hstep, -⟩ := Relation.TransGen.head'_iff.mp hloop
    cases hstep
  · cases hstep

theorem Heap.mem_of_circular {h : Heap} {args : List Value} {i : Nat} (hcircular : h.Circular (Act.argAt args i)) :
    Act.argAt args i ∈ args := by
  unfold Act.argAt at hcircular ⊢
  rcases Nat.lt_or_ge i args.length with hlt | hge
  · rw [List.getD_eq_getElem _ _ hlt]
    exact List.getElem_mem hlt
  · rw [List.getD_eq_default _ _ hge] at hcircular
    exact absurd hcircular not_circular_undefined

section

variable {σ : Type}

/-- How a method that lengthens a string ends. An argument that contains itself has no conversion. -/
inductive Lengthened (w : World σ) (args : List Value) (bound : String → Prop) :
    EStateM.Result Interrupt (World σ) Value → Prop
  | refused (message : String) : Lengthened w args bound (.error (.message message) w)
  | endless {v : Value} : v ∈ args → w.heap.Circular v →
      Lengthened w args bound (.error (.endless (.conversion [v])) w)
  | text {t : String} : bound t → Lengthened w args bound (.ok (.string t) w)

variable {w : World σ} {args : List Value} {bound : String → Prop}

theorem Lengthened.mono {bound' : String → Prop} {r : EStateM.Result Interrupt (World σ) Value}
    (h : Lengthened w args bound r) (hbound : ∀ t, bound t → bound' t) : Lengthened w args bound' r := by
  cases h with
  | refused message => exact .refused message
  | endless hv hcircular => exact .endless hv hcircular
  | text ht => exact .text (hbound _ ht)

namespace Act

theorem lengthened_convert (i : Nat) {α : Type} (g : Heap → Option α) {f : α → Act σ Value}
    (hg : g w.heap = none → w.heap.Circular (argAt args i))
    (h : ∀ a, g w.heap = some a → Lengthened w args bound (f a w)) :
    Lengthened w args bound ((convert [argAt args i] g >>= f) w) := by
  simp only [convert, bind, EStateM.bind]
  cases hvalue : g w.heap with
  | some a => exact h a hvalue
  | none => exact .endless (Heap.mem_of_circular (hg hvalue)) (hg hvalue)

theorem lengthened_number (i : Nat) {f : Double → Act σ Value} (h : ∀ x, Lengthened w args bound (f x w)) :
    Lengthened w args bound ((numberArg args i >>= f) w) :=
  lengthened_convert i (·.number? (argAt args i)) Heap.circular_of_number fun x _ => h x

theorem lengthened_fill {f : String → Act σ Value}
    (h : ∀ fill, w.heap.fill? args = some fill → Lengthened w args bound (f fill w)) :
    Lengthened w args bound ((displayArgOr " " args 1 >>= f) w) := by
  unfold displayArgOr
  split
  · next hnone => exact h " " (by rw [Heap.fill?, hnone])
  · next hsome =>
    refine lengthened_convert 1 (·.display? (argAt args 1)) Heap.circular_of_display fun fill hfill => h fill ?_
    rw [Heap.fill?, ← hfill]
    split
    · next hnone => exact absurd hnone hsome
    · rfl

theorem callMethod_of_map {host : Host σ} {call : Calling σ} {this : Value} {name : String} {m : Act σ Value}
    (what : String) (hthis : this.isNullish = false) (hmethod : method? host call this name args = some <$> m) :
    callMethod host call this name args what = m := by
  cases this with
  | undefined | null => cases hthis
  | _ =>
    refine (congrArg (· >>= _) hmethod).trans ?_
    rw [bind_map_left]
    exact bind_pure m

theorem lengthened_repeat (w : World σ) (s : String) (args : List Value) :
    Lengthened w args (·.utf8ByteSize ≤ maxStringLength) (repeatMethod s args w) := by
  refine lengthened_number 0 fun x => ?_
  dsimp only
  split
  · exact .refused _
  · split
    · next hfits =>
      rw [Nat.mul_comm, ← utf8ByteSize_repeatText] at hfits
      exact .text hfits
    · exact .refused _

/-- Every character comes from the string or from the fill. -/
theorem lengthened_pad (w : World σ) (atStart : Bool) {s : String} (args : List Value)
    (hs : s.utf8ByteSize ≤ maxStringLength) :
    Lengthened w args (fun t => t.length ≤ maxStringLength ∧
      ∀ c ∈ t.toList, c ∈ s.toList ∨ ∃ fill, w.heap.fill? args = some fill ∧ c ∈ fill.toList)
      (padMethod atStart s args w) := by
  refine lengthened_number 0 fun x => ?_
  dsimp only
  split
  · exact .refused _
  · next hlimit =>
    refine lengthened_fill fun fill hfill => ?_
    split
    · exact .text ⟨Nat.le_trans (length_le_utf8ByteSize s) hs, fun c hc => .inl hc⟩
    · next hpad =>
      simp only [Bool.or_eq_true, decide_eq_true_eq, not_or, String.isEmpty_iff] at hpad
      have hlength : (cycled (padTarget x - s.length) fill).length = padTarget x - s.length :=
        length_cycled _ (Nat.pos_of_ne_zero fun h => hpad.2 (String.length_eq_zero_iff.mp h))
      have hchars : ∀ c ∈ (cycled (padTarget x - s.length) fill).toList,
          c ∈ s.toList ∨ ∃ fill, w.heap.fill? args = some fill ∧ c ∈ fill.toList :=
        fun c hc => .inr ⟨fill, hfill, mem_cycled hc⟩
      have howns : ∀ c ∈ s.toList, c ∈ s.toList ∨ ∃ fill, w.heap.fill? args = some fill ∧ c ∈ fill.toList :=
        fun c hc => .inl hc
      refine .text ⟨?_, ?_⟩
      · cases atStart <;> simp only [Bool.false_eq_true, if_true, if_false, String.length_append, hlength] <;> omega
      · cases atStart <;> simp only [Bool.false_eq_true, if_true, if_false, String.toList_append, List.forall_mem_append]
        · exact ⟨howns, hchars⟩
        · exact ⟨hchars, howns⟩

/-- Padding keeps to the limit in characters, and so in bytes when no character has more than one. -/
theorem lengthened_within (host : Host σ) (call : Calling σ) (w : World σ) (s what : String) (args : List Value)
    (hs : s.utf8ByteSize ≤ maxStringLength) :
    Lengthened w args (·.utf8ByteSize ≤ maxStringLength) (callMethod host call (.string s) "repeat" args what w) ∧
    ∀ name ∈ ["padStart", "padEnd"], Lengthened w args (fun t => t.length ≤ maxStringLength ∧
      ∀ width, (∀ c ∈ s.toList, c.utf8Size ≤ width) →
        (∀ fill, w.heap.fill? args = some fill → ∀ c ∈ fill.toList, c.utf8Size ≤ width) →
        t.utf8ByteSize ≤ width * maxStringLength)
      (callMethod host call (.string s) name args what w) := by
  refine ⟨?_, fun name hname => ?_⟩
  · rw [callMethod_of_map what rfl rfl]
    exact lengthened_repeat w s args
  · have hmethod : ∃ atStart, method? host call (.string s) name args = some <$> padMethod atStart s args := by
      simp only [List.mem_cons, List.not_mem_nil, or_false] at hname
      rcases hname with rfl | rfl
      · exact ⟨true, rfl⟩
      · exact ⟨false, rfl⟩
    obtain ⟨atStart, hmethod⟩ := hmethod
    rw [callMethod_of_map what rfl hmethod]
    refine (lengthened_pad w atStart args hs).mono fun t ⟨hlength, hchars⟩ => ⟨hlength, fun width hs hfill => ?_⟩
    have hwidth : ∀ c ∈ t.toList, c.utf8Size ≤ width := by
      intro c hc
      obtain hc | ⟨fill, hsome, hc⟩ := hchars c hc
      · exact hs c hc
      · exact hfill fill hsome c hc
    exact Nat.le_trans (utf8ByteSize_le hwidth) (Nat.mul_le_mul_left width hlength)

theorem dashes_within : "ab".utf8ByteSize ≤ maxStringLength ∧
    Lengthened ⟨⟨{}, 0⟩, #[], #[], 0⟩ [.ofNat 5, .string "-"] (·.utf8ByteSize ≤ maxStringLength)
      (callMethod .countdown (calling .countdown 1 257) (.string "ab") "padEnd" [.ofNat 5, .string "-"] "s.padEnd"
        ⟨⟨{}, 0⟩, #[], #[], 0⟩) := by
  have hs : "ab".utf8ByteSize ≤ maxStringLength := by decide
  refine ⟨hs, ?_⟩
  refine ((lengthened_within .countdown (calling .countdown 1 257) ⟨⟨{}, 0⟩, #[], #[], 0⟩ "ab" "s.padEnd"
    [.ofNat 5, .string "-"] hs).2 "padEnd" (by decide)).mono fun t ht => ?_
  have hfill : ∀ fill, some "-" = some fill → ∀ c ∈ fill.toList, c.utf8Size ≤ 1 := by
    rintro fill ⟨⟩
    simp [Char.utf8Size]
  have hbytes := ht.2 1 (by simp [Char.utf8Size]) hfill
  rwa [Nat.one_mul] at hbytes

/-- A fill of four bytes. -/
theorem wideFill_exceeds : "".utf8ByteSize ≤ maxStringLength ∧ ∃ t,
    callMethod .countdown (calling .countdown 1 257) (.string "") "padEnd" [.ofNat 67108865, .string "😀"] "s.padEnd"
      ⟨⟨{}, 0⟩, #[], #[], 0⟩ = .ok (.string t) ⟨⟨{}, 0⟩, #[], #[], 0⟩ ∧ maxStringLength < t.utf8ByteSize := by
  have htarget : padTarget (Double.ofNat 67108865) = 67108865 := by decide +kernel
  have hsize : (cycled 67108865 "😀").utf8ByteSize = 268435460 := by
    have hlength : "😀".length = 1 := by decide
    have hbytes : "😀".utf8ByteSize = 4 := by decide
    rw [cycled, String.utf8ByteSize_append, utf8ByteSize_repeatText, hlength, hbytes, Nat.mod_one, List.take_zero,
      Nat.div_one]
    rfl
  refine ⟨by decide, "" ++ cycled 67108865 "😀", ?_, ?_⟩
  · rw [callMethod_of_map (m := padMethod false "" [.ofNat 67108865, .string "😀"]) _ rfl rfl]
    have hrun : padMethod false "" [.ofNat 67108865, .string "😀"] ⟨⟨{}, 0⟩, #[], #[], 0⟩ =
        (if maxStringLength < padTarget (Double.ofNat 67108865) then fail "Invalid string length"
        else if padTarget (Double.ofNat 67108865) ≤ "".length || "😀".isEmpty then pure (.string "")
        else pure (.string ("" ++ cycled (padTarget (Double.ofNat 67108865) - "".length) "😀")) : Act Nat Value)
          ⟨⟨{}, 0⟩, #[], #[], 0⟩ := rfl
    rw [hrun, htarget, if_neg (by decide), if_neg (by decide)]
    rfl
  · rw [String.utf8ByteSize_append, hsize]
    decide

end Act

end

/-- The character at a position, of which none is negative. -/
def characterAt? (s : String) (i : Int) : Option Char := if 0 ≤ i then s.toList[i.toNat]? else none

theorem characterAt_of_nonneg (s : String) {i : Int} (h : 0 ≤ i) : characterAt? s i = s.toList[i.toNat]? := if_pos h

/-- Taking a negative position for the first one shows, unless there is no character. -/
theorem characterAt_clamped_iff {found : Char → Value} {missing : Value} (hne : ∀ c, found c ≠ missing) (s : String)
    (i : Int) :
    ((characterAt? s (max i 0)).map found).getD missing = ((characterAt? s i).map found).getD missing ↔
      0 ≤ i ∨ s = "" := by
  rcases Int.lt_or_le i 0 with hnegative | hnonneg
  · have hnone : characterAt? s i = none := if_neg (Int.not_le.mpr hnegative)
    rw [hnone, characterAt_of_nonneg s (Int.le_max_right i 0), Int.max_eq_right (Int.le_of_lt hnegative),
      ← String.toList_eq_nil_iff]
    cases s.toList with
    | nil => simp
    | cons c rest => simp [hne c, hnegative]
  · simp [hnonneg]

theorem sliceList_next {α : Type} (n : Nat) (xs : List α) :
    sliceList (min n xs.length) (min (n + 1) xs.length) xs = xs[n]?.toList := by
  rcases Nat.lt_or_ge n xs.length with hlt | hge
  · rw [sliceList, Nat.min_eq_left (Nat.le_of_lt hlt), Nat.min_eq_left hlt, List.drop_take, Nat.succ_sub (Nat.le_refl n),
      Nat.sub_self, List.take_one, List.head?_drop]
  · have hstart : min n xs.length = xs.length := Nat.min_eq_right hge
    rw [sliceList, hstart, List.getElem?_eq_none hge]
    exact List.drop_eq_nil_of_le (List.length_take_le' _ _)

theorem ofList_character (found : Option Char) :
    Value.string (String.ofList found.toList) = (found.map Value.ofChar).getD (.string "") := by
  cases found <;> rfl

section Position

variable {x : Double}

theorem toNatCapped_of_lt (hx : x.isWhole = true) (hsize : x.toInt < twoTo 64) :
    Double.toNatCapped 64 x = x.toInt.toNat := by
  rw [Double.toNatCapped_of_isWhole hx]
  omega

theorem relativePosition_of_nonneg (hx : x.isWhole = true) (hsize : x.toInt < twoTo 64) (hnonneg : 0 ≤ x.toInt)
    (length : Nat) : relativePosition length x = min x.toInt.toNat length := by
  have hsign : ¬ x < 0 := by rwa [Double.lt_zero_iff_toInt hx, Int.not_lt]
  rw [relativePosition, Double.isNaN_of_isFinite (Double.isFinite_of_isWhole hx), Double.trunc_of_isWhole hx]
  simp only [Bool.false_eq_true, if_false, if_neg hsign, toNatCapped_of_lt hx hsize]

theorem clampedPosition_of_nonneg (hx : x.isWhole = true) (hsize : x.toInt < twoTo 64) (hnonneg : 0 ≤ x.toInt)
    (length : Nat) : clampedPosition length x = min x.toInt.toNat length := by
  have hsign : ¬ x < 0 := by rwa [Double.lt_zero_iff_toInt hx, Int.not_lt]
  rw [clampedPosition, Double.isNaN_of_isFinite (Double.isFinite_of_isWhole hx), toNatCapped_of_lt hx hsize]
  simp only [Bool.false_or, decide_eq_true_eq, if_neg hsign]

end Position

theorem counts_toString {i : Int} {n : Nat} : Counts (toString i) n ↔ i = n := by
  constructor
  · intro h
    have htext := toList_toString_int i
    split at htext
    · have hminus := h.chars (c := '-') (by rw [htext]; exact List.mem_cons_self)
      exact absurd hminus (by decide)
    · have hcounts := counts_decimalDigits i.natAbs
      rw [← htext, String.ofList_toList] at hcounts
      have := h.unique hcounts
      omega
  · rintro rfl
    have hcounts := counts_decimalDigits n
    have htext := toList_toString_int n
    rw [if_neg (by omega)] at htext
    rw [Int.natAbs_natCast] at htext
    rwa [← htext, String.ofList_toList] at hcounts

theorem sequenceProperty_toString (length : Nat) (item : Nat → Value) {i : Int} (hi : i < twoTo 64) :
    Act.sequenceProperty length item (toString i) = if 0 ≤ i then item i.toNat else .undefined := by
  unfold Act.sequenceProperty
  rcases Int.lt_or_le i 0 with hnegative | hnonneg
  · have hname : toString i ≠ "length" := by
      intro hlength
      have htext := toList_toString_int i
      rw [hlength, if_pos hnegative] at htext
      exact absurd (List.cons.inj htext).1 (by decide)
    have hnone : positionOfName? (toString i) = none := by
      refine Option.eq_none_iff_forall_ne_some.mpr fun n hn => ?_
      have := counts_toString.mp (positionOfName_iff.mp hn).1
      omega
    rw [if_neg hname, hnone, if_neg (Int.not_le.mpr hnegative)]
    rfl
  · obtain ⟨n, rfl⟩ := Int.eq_ofNat_of_zero_le hnonneg
    have hcounts : Counts (toString (n : Int)) n := counts_toString.mpr rfl
    rw [if_neg hcounts.ne_length, positionOfName_iff.mpr ⟨hcounts, Int.ofNat_lt.mp hi⟩, if_pos hnonneg]
    rfl

namespace Act

variable {σ : Type} {x y : Double}

theorem getIndex_character (s : String) (hx : x.isWhole = true) (hsize : x.toInt.natAbs < twoTo 53) (w : World σ) :
    getIndex (.string s) (.number x) w =
      .ok (((characterAt? s x.toInt).map Value.ofChar).getD .undefined) w := by
  have htext : numberText x = toString x.toInt :=
    numberText_of_isWhole hx (by rw [← Double.natAbs_toInt]; exact Nat.lt_trans hsize (by decide))
  have hread : getIndex (.string s) (.number x) w = .ok (sequenceProperty s.length
      (fun i => ((charAt? s i).map Value.ofChar).getD .undefined) (numberText x)) w := by
    unfold getIndex
    cases (Value.number x).index? <;> rfl
  have hposition : x.toInt < twoTo 64 := by
    have : twoTo 53 < twoTo 64 := by decide
    omega
  rw [hread, htext, sequenceProperty_toString _ _ hposition, characterAt?]
  split <;> rfl

theorem callMethod_character (host : Host σ) (call : Calling σ) (name : String) {found : Char → Value} {missing : Value}
    (s what : String) (hx : x.isWhole = true) (hsize : x.toInt.natAbs < twoTo 53) (w : World σ)
    (hmethod : method? host call (.string s) name [.number x] = some <$> charMethod s [.number x] found missing) :
    callMethod host call (.string s) name [.number x] what w =
      .ok (((characterAt? s (max x.toInt 0)).map found).getD missing) w := by
  have hcapped : Double.toNatCapped 64 x = (max x.toInt 0).toNat := by
    rw [Double.toNatCapped_of_isWhole hx]
    have : twoTo 53 < twoTo 64 := by decide
    omega
  have hrun : charMethod s [.number x] found missing w =
      .ok (((s.toList[Double.toNatCapped 64 x]?).map found).getD missing) w := rfl
  rw [callMethod_of_map what rfl hmethod, hrun, hcapped, characterAt_of_nonneg s (by omega)]

theorem callMethod_slice (host : Host σ) (call : Calling σ) (s what : String) (hx : x.isWhole = true)
    (hy : y.isWhole = true) (hnonneg : 0 ≤ x.toInt) (hsize : x.toInt.natAbs < twoTo 53) (hnext : y.toInt = x.toInt + 1)
    (w : World σ) : ∀ name ∈ ["slice", "substring"],
      callMethod host call (.string s) name [.number x, .number y] what w =
        .ok (((characterAt? s x.toInt).map Value.ofChar).getD (.string "")) w := by
  have hword : twoTo 53 < twoTo 64 := by decide
  have hbound : x.toInt < twoTo 64 := by omega
  have hbound' : y.toInt < twoTo 64 := by omega
  have hposition : y.toInt.toNat = x.toInt.toNat + 1 := by omega
  have hcharacter : Value.string (String.ofList (sliceList (min x.toInt.toNat s.toList.length)
      (min y.toInt.toNat s.toList.length) s.toList)) = ((characterAt? s x.toInt).map Value.ofChar).getD (.string "") := by
    rw [hposition, sliceList_next, ofList_character, characterAt_of_nonneg s hnonneg]
  intro name hname
  simp only [List.mem_cons, List.not_mem_nil, or_false] at hname
  rcases hname with rfl | rfl
  · have hrun : sliceMethod s [.number x, .number y] w = .ok (.string (String.ofList (sliceList
        (relativePosition s.toList.length x) (relativePosition s.toList.length y) s.toList))) w := rfl
    rw [callMethod_of_map (m := sliceMethod s [.number x, .number y]) what rfl rfl, hrun,
      relativePosition_of_nonneg hx hbound hnonneg, relativePosition_of_nonneg hy hbound' (by omega), hcharacter]
  · have hrun : substringMethod s [.number x, .number y] w = .ok (.string (String.ofList (sliceList
        (min (clampedPosition s.toList.length x) (clampedPosition s.toList.length y))
        (max (clampedPosition s.toList.length x) (clampedPosition s.toList.length y)) s.toList))) w := rfl
    rw [callMethod_of_map (m := substringMethod s [.number x, .number y]) what rfl rfl, hrun,
      clampedPosition_of_nonneg hx hbound hnonneg, clampedPosition_of_nonneg hy hbound' (by omega),
      Nat.min_eq_left (by omega), Nat.max_eq_right (by omega), hcharacter]

end Act

section

variable {σ : Type}

/-- What reads the character at the position `x`, before the position `y`. A negative position is the first one for
`charAt` and `charCodeAt`. -/
structure ReadsCharacter (host : Host σ) (call : Calling σ) (w : World σ) (s what : String) (x y : Double) : Prop where
  index : Act.getIndex (.string s) (.number x) w = .ok (((characterAt? s x.toInt).map Value.ofChar).getD .undefined) w
  charAt : Act.callMethod host call (.string s) "charAt" [.number x] what w =
    .ok (((characterAt? s (max x.toInt 0)).map Value.ofChar).getD (.string "")) w
  charCodeAt : Act.callMethod host call (.string s) "charCodeAt" [.number x] what w =
    .ok (((characterAt? s (max x.toInt 0)).map fun c => .ofNat c.toNat).getD (.number Double.nan)) w
  slice : 0 ≤ x.toInt → ∀ name ∈ ["slice", "substring"],
    Act.callMethod host call (.string s) name [.number x, .number y] what w =
      Act.callMethod host call (.string s) "charAt" [.number x] what w
  length : Act.getProperty (.string s) "length" w = .ok (.ofNat s.toList.length) w
  keys : ∃ keys, Act.keysIn (.string s) w = .ok keys w ∧ keys.length = s.toList.length ∧
    ∀ c, characterAt? s x.toInt = some c → keys[x.toInt.toNat]? = some (.string (numberText x))

theorem ofNat_ne_nan (c : Char) : Value.ofNat c.toNat ≠ .number Double.nan := by
  intro heq
  have hsize : c.toNat < 0x20000000000000 := Nat.lt_trans c.val.toNat_lt (by decide)
  have hfinite := Double.isFinite_of_isWhole (Double.isNat_ofNat hsize).1
  rw [Value.number.inj heq] at hfinite
  exact absurd hfinite (by decide)

theorem ofChar_ne_empty (c : Char) : Value.ofChar c ≠ .string "" := by
  intro heq
  have hchars := congrArg String.toList (Value.string.inj heq)
  simp at hchars

theorem indexTexts_at {s : String} {x : Double} {c : Char} (htext : numberText x = toString x.toInt)
    (hc : characterAt? s x.toInt = some c) : (Act.indexTexts s.length)[x.toInt.toNat]? = some (.string (numberText x)) := by
  unfold characterAt? at hc
  split at hc
  · next hnonneg =>
    obtain ⟨hlt, -⟩ := List.getElem?_eq_some_iff.mp hc
    rw [String.length_toList] at hlt
    have hname : toString x.toInt.toNat = toString x.toInt := by
      conv => rhs; rw [← Int.toNat_of_nonneg hnonneg]
      rfl
    rw [htext, ← hname]
    simp [Act.indexTexts, hlt]
  · cases hc

/-- All ways to read a character agree, except that `charAt` and `charCodeAt` find one at a negative position. -/
theorem character_read (host : Host σ) (call : Calling σ) (w : World σ) (s what : String) {x y : Double}
    (hx : x.isWhole = true) (hsize : x.toInt.natAbs < twoTo 53) (hy : y.isWhole = true) (hnext : y.toInt = x.toInt + 1) :
    ReadsCharacter host call w s what x y ∧
    (Act.callMethod host call (.string s) "charAt" [.number x] what w =
      .ok (((characterAt? s x.toInt).map Value.ofChar).getD (.string "")) w ↔ 0 ≤ x.toInt ∨ s = "") ∧
    (Act.callMethod host call (.string s) "charCodeAt" [.number x] what w =
      .ok (((characterAt? s x.toInt).map fun c => .ofNat c.toNat).getD (.number Double.nan)) w ↔
        0 ≤ x.toInt ∨ s = "") := by
  have hcharAt := Act.callMethod_character host call "charAt" s what hx hsize w rfl
  have hcode := Act.callMethod_character host call "charCodeAt" s what hx hsize w rfl
  have hok {a b : Value} : (EStateM.Result.ok a w : EStateM.Result Interrupt (World σ) Value) = .ok b w ↔ a = b := by simp
  refine ⟨?_, ?_, ?_⟩
  · refine ⟨Act.getIndex_character s hx hsize w, hcharAt, hcode, fun hnonneg name hname => ?_, ?_, ?_⟩
    · rw [Act.callMethod_slice host call s what hx hy hnonneg hsize hnext w name hname, hcharAt, Int.max_eq_left hnonneg]
    · rw [String.length_toList]
      rfl
    · have htext : numberText x = toString x.toInt :=
        numberText_of_isWhole hx (by rw [← Double.natAbs_toInt]; exact Nat.lt_trans hsize (by decide))
      refine ⟨Act.indexTexts s.length, rfl, ?_, fun c hc => indexTexts_at htext hc⟩
      rw [Act.indexTexts, List.length_map, List.length_range, String.length_toList]
  · rw [hcharAt, hok]
    exact characterAt_clamped_iff ofChar_ne_empty s x.toInt
  · rw [hcode, hok]
    exact characterAt_clamped_iff ofNat_ne_nan s x.toInt

theorem lastCharacter_read : (Double.ofNat 2).isWhole = true ∧ (Double.ofNat 2).toInt.natAbs < twoTo 53 ∧
    (Double.ofNat 3).isWhole = true ∧ (Double.ofNat 3).toInt = (Double.ofNat 2).toInt + 1 ∧
    Act.callMethod .countdown (Act.calling .countdown 1 257) (.string "aé😀") "slice" [.ofNat 2, .ofNat 3] "s.slice"
      ⟨⟨{}, 0⟩, #[], #[], 0⟩ = .ok (.string "😀") ⟨⟨{}, 0⟩, #[], #[], 0⟩ := by
  have hx : (Double.ofNat 2).IsNat 2 := Double.isNat_ofNat (by decide)
  have hy : (Double.ofNat 3).IsNat 3 := Double.isNat_ofNat (by decide)
  have hsize : (Double.ofNat 2).toInt.natAbs < twoTo 53 := by rw [hx.2]; decide
  have hnext : (Double.ofNat 3).toInt = (Double.ofNat 2).toInt + 1 := by rw [hx.2, hy.2]; rfl
  have hreads := (character_read .countdown (Act.calling .countdown 1 257) ⟨⟨{}, 0⟩, #[], #[], 0⟩ "aé😀" "s.slice"
    hx.1 hsize hy.1 hnext).1
  have hnonneg : 0 ≤ (Double.ofNat 2).toInt := by rw [hx.2]; decide
  refine ⟨hx.1, hsize, hy.1, hnext, (hreads.slice hnonneg "slice" (by decide)).trans ?_⟩
  rw [hreads.charAt, hx.2]
  rfl

/-- The last place before the first finds the first character. -/
theorem negativePosition_misread : (Double.ofInt (-1)).toInt = -1 ∧
    Act.getIndex (.string "abc") (.number (Double.ofInt (-1))) ⟨⟨{}, 0⟩, #[], #[], 0⟩ =
      .ok .undefined (⟨⟨{}, 0⟩, #[], #[], 0⟩ : World Nat) ∧
    Act.callMethod .countdown (Act.calling .countdown 1 257) (.string "abc") "charAt" [.number (Double.ofInt (-1))] "s.charAt"
      ⟨⟨{}, 0⟩, #[], #[], 0⟩ = .ok (.string "a") ⟨⟨{}, 0⟩, #[], #[], 0⟩ ∧
    Act.callMethod .countdown (Act.calling .countdown 1 257) (.string "abc") "charCodeAt" [.number (Double.ofInt (-1))]
      "s.charCodeAt" ⟨⟨{}, 0⟩, #[], #[], 0⟩ = .ok (.ofNat 97) ⟨⟨{}, 0⟩, #[], #[], 0⟩ := by
  have hint : (Double.ofInt (-1)).toInt = -1 := by decide +kernel
  have hwhole : (Double.ofInt (-1)).isWhole = true := by decide +kernel
  have hsize : (Double.ofInt (-1)).toInt.natAbs < twoTo 53 := by rw [hint]; decide
  refine ⟨hint, ?_, ?_, ?_⟩
  · rw [Act.getIndex_character "abc" hwhole hsize, hint]
    rfl
  · rw [Act.callMethod_character .countdown (Act.calling .countdown 1 257) "charAt" "abc" _ hwhole hsize _ rfl, hint]
    rfl
  · rw [Act.callMethod_character .countdown (Act.calling .countdown 1 257) "charCodeAt" "abc" _ hwhole hsize _ rfl, hint]
    rfl

end

end Apiary
