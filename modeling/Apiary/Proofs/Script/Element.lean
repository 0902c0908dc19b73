import Apiary.Proofs.Number.Written
import Apiary.Script.Property

/-!
Writing the elements of arrays. A key is told by its text, except that a number is the position that it is; what a write
does is decided by the position or the name that the key has.
-/

namespace Apiary

def Value.IsCount : Value → Nat → Prop
  | .number x, n => x.IsNat n
  | .string s, n => Counts s n
  | _, _ => False

def Heap.Names (h : Heap) : Value → Nat → Prop
  | .number x, i => x.IsNat i
  | key, i => ∃ text, h.display? key = some text ∧ Counts text i

inductive Target
  | item (i : Nat)
  | beyond (i : Nat)
  | length
  | none

def Heap.Aims (h : Heap) (key : Value) : Target → Prop
  | .item i => h.Names key i ∧ i < twoTo 24
  | .beyond i => h.Names key i ∧ twoTo 24 ≤ i ∧ i < twoTo 64
  | .length => h.display? key = some "length"
  | .none => (∀ i, h.Names key i → twoTo 64 ≤ i) ∧ h.display? key ≠ some "length"

/-- The items after a write at a position: new places before it are undefined, the other items are as they were. -/
structure Stored (items items' : Array Value) (i : Nat) (value : Value) : Prop where
  size : items'.size = max items.size (i + 1)
  here : items'[i]? = some value
  kept : ∀ j, j < items.size → j ≠ i → items'[j]? = items[j]?
  added : ∀ j, items.size ≤ j → j < i → items'[j]? = some .undefined

structure Resized (items items' : Array Value) (n : Nat) : Prop where
  size : items'.size = n
  kept : ∀ j, j < items.size → j < n → items'[j]? = items[j]?
  added : ∀ j, items.size ≤ j → j < n → items'[j]? = some .undefined

section

variable {σ : Type}

def World.withItems (w : World σ) (cell : Nat) (items : Array Value) : World σ :=
  { w with heap := w.heap.setArray cell items }

/-- How a write ends. After the write of an element, every key that names its position reads the value. -/
inductive Written (w : World σ) (cell : Nat) (value : Value) : Target → EStateM.Result Interrupt (World σ) Unit → Prop
  | item {i : Nat} {items : Array Value} : Stored (w.heap.array cell) items i value →
      (∀ key, (w.withItems cell items).heap.Names key i →
        Act.getIndex (.array cell) key (w.withItems cell items) = .ok value (w.withItems cell items)) →
      Written w cell value (.item i) (.ok () (w.withItems cell items))
  | beyond {i : Nat} : Written w cell value (.beyond i) (.error (.message "Invalid array length") w)
  | resized {n : Nat} {items : Array Value} : value.IsCount n → n ≤ twoTo 24 →
      Resized (w.heap.array cell) items n → Written w cell value .length (.ok () (w.withItems cell items))
  | refused : (∀ n, value.IsCount n → twoTo 24 < n) →
      Written w cell value .length (.error (.message "Invalid array length") w)
  | none : Written w cell value .none (.ok () w)

end

namespace Value

theorem isCount_of_index {v : Value} {n : Nat} (h : v.index? = some n) : v.IsCount n := by
  cases v with
  | number x => exact (index?_number.mp h).1
  | string s => exact (Counts.unsigned_iff.mp h).1
  | _ => cases h

theorem index_of_isCount {v : Value} {n : Nat} (h : v.IsCount n) (hn : n < 9000000000000000) : v.index? = some n := by
  cases v with
  | number x => exact index?_number.mpr ⟨h, hn⟩
  | string s => exact Counts.unsigned_iff.mpr ⟨h, Nat.lt_trans hn (by decide)⟩
  | _ => exact h.elim

theorem index_lt {v : Value} {n : Nat} (h : v.index? = some n) : n < twoTo 64 := by
  cases v with
  | number x => exact Nat.lt_trans (index?_number.mp h).2 (by decide)
  | string s => exact (Counts.unsigned_iff.mp h).2
  | _ => cases h

end Value

theorem positionOfName_iff {key : String} {i : Nat} : positionOfName? key = some i ↔ Counts key i ∧ i < twoTo 64 :=
  Counts.unsigned_iff

namespace Heap

variable {h : Heap} {key : Value} {i j : Nat}

theorem display_number (h : Heap) (x : Double) : h.display? (.number x) = some (numberText x) := rfl

theorem display_string (h : Heap) (s : String) : h.display? (.string s) = some s := rfl

theorem Names.unique (hi : h.Names key i) (hj : h.Names key j) : i = j := by
  cases key with
  | number x => exact Double.IsNat.unique hi hj
  | _ =>
    obtain ⟨text, htext, hcounts⟩ := hi
    obtain ⟨text', htext', hcounts'⟩ := hj
    rw [htext] at htext'
    rw [← Option.some.inj htext'] at hcounts'
    exact hcounts.unique hcounts'

theorem names_of_index (hindex : key.index? = some i) : h.Names key i := by
  cases key with
  | number x => exact Value.isCount_of_index hindex
  | string s => exact ⟨s, h.display_string s, Value.isCount_of_index hindex⟩
  | _ => cases hindex

theorem Names.text (hnames : h.Names key i) (hindex : key.index? = none) (hi : i < 9000000000000000) :
    ∃ text, h.display? key = some text ∧ Counts text i := by
  cases key with
  | number x =>
    rw [Value.index?_number.mpr ⟨hnames, hi⟩] at hindex
    cases hindex
  | _ => exact hnames

theorem names_of_counts {text : String} (htext : h.display? key = some text) (hcounts : Counts text i) :
    h.Names key i := by
  cases key with
  | number x =>
    rw [display_number] at htext
    rw [← Option.some.inj htext] at hcounts
    rcases numberText_cases x with ⟨j, hnat, hnumeral⟩ | hnameless
    · rw [hnumeral] at hcounts
      rwa [hcounts.unique (counts_decimalDigits j)]
    · exact absurd hcounts (hnameless.1 i)
  | _ => exact ⟨text, htext, hcounts⟩

theorem not_names_length (hlength : h.display? key = some "length") : ¬ h.Names key i := by
  intro hnames
  cases key with
  | number x =>
    rw [display_number] at hlength
    rcases numberText_cases x with ⟨j, -, hnumeral⟩ | hnameless
    · exact (counts_decimalDigits j).ne_length (hnumeral.symm.trans (Option.some.inj hlength))
    · exact hnameless.2 (Option.some.inj hlength)
  | _ =>
    obtain ⟨text, htext, hcounts⟩ := hnames
    exact hcounts.ne_length (Option.some.inj (htext.symm.trans hlength))

theorem Aims.unique {t t' : Target} (ht : h.Aims key t) (ht' : h.Aims key t') : t = t' := by
  have hbounds : twoTo 24 < twoTo 64 := by decide
  cases t with
  | item i =>
    have hi := ht.2
    cases t' with
    | item j => rw [ht.1.unique ht'.1]
    | beyond j =>
      have := ht.1.unique ht'.1
      have := ht'.2.1
      omega
    | length => exact absurd ht.1 (not_names_length ht')
    | none =>
      have := ht'.1 i ht.1
      omega
  | beyond i =>
    have hi := ht.2
    cases t' with
    | item j =>
      have := ht.1.unique ht'.1
      have := ht'.2
      omega
    | beyond j => rw [ht.1.unique ht'.1]
    | length => exact absurd ht.1 (not_names_length ht')
    | none =>
      have := ht'.1 i ht.1
      omega
  | length =>
    cases t' with
    | item j => exact absurd ht'.1 (not_names_length ht)
    | beyond j => exact absurd ht'.1 (not_names_length ht)
    | length => rfl
    | none => exact absurd ht ht'.2
  | none =>
    cases t' with
    | item j =>
      have := ht.1 j ht'.1
      have := ht'.2
      omega
    | beyond j =>
      have := ht.1 j ht'.1
      have := ht'.2
      omega
    | length => exact absurd ht' ht.2
    | none => rfl

theorem modifyArray_eq {cell : Nat} (hcell : cell < h.arrays.size) (f : Array Value → Array Value) :
    h.modifyArray cell f = h.setArray cell (f (h.array cell)) := by
  have harrays : h.arrays.modify cell f = h.arrays.setIfInBounds cell (f (h.array cell)) := by
    refine Array.ext_getElem? fun k => ?_
    rw [Array.getElem?_modify, Array.getElem?_setIfInBounds]
    split
    · next heq => simp [← heq, hcell, array]
    · rfl
  rw [modifyArray, setArray, harrays]

end Heap

theorem array_withItems {σ : Type} {w : World σ} {cell : Nat} {items : Array Value} (hcell : cell < w.heap.arrays.size) :
    (w.withItems cell items).heap.array cell = items := by
  simp [World.withItems, Heap.setArray, Heap.array, hcell]

theorem getElem_resizedArray (items : Array Value) (n j : Nat) :
    (resizedArray items n .undefined)[j]? = if j < n then some (items.getD j .undefined) else none := by
  unfold resizedArray
  split
  · next hless =>
    rw [Array.getElem?_extract]
    split
    · next hj => simp [show j < items.size by omega, show j < n by omega]
    · next hj => simp [show ¬ j < n by omega]
  · next hmore =>
    rw [Array.getElem?_append]
    split
    · next hj => simp [hj, show j < n by omega]
    · next hj => simp [Array.getElem?_replicate, show j - items.size < n - items.size ↔ j < n by omega]

theorem resized_resizedArray (items : Array Value) (n : Nat) : Resized items (resizedArray items n .undefined) n where
  size := by
    unfold resizedArray
    split
    · next hless => simp [Nat.le_of_lt hless]
    · next hmore => simp [Nat.not_lt.mp hmore]
  kept j hj hn := by simp [getElem_resizedArray, hn, hj]
  added j hj hn := by simp [getElem_resizedArray, hn, Nat.not_lt.mpr hj]

def storedItems (items : Array Value) (i : Nat) (value : Value) : Array Value :=
  if i < items.size then items.setIfInBounds i value else (resizedArray items i .undefined).push value

theorem stored_storedItems (items : Array Value) (i : Nat) (value : Value) :
    Stored items (storedItems items i value) i value := by
  unfold storedItems
  split
  · next hless =>
    constructor
    case size => simp [Nat.max_eq_left hless]
    case here => simp [hless]
    case kept =>
      intro j _ hne
      exact Array.getElem?_setIfInBounds_ne hne.symm
    case added => omega
  · next hmore =>
    have hlonger := resized_resizedArray items i
    constructor
    case size =>
      rw [Array.size_push, hlonger.size]
      omega
    case here => rw [Array.getElem?_push, hlonger.size, if_pos rfl]
    case kept =>
      intro j hj _
      rw [Array.getElem?_push, hlonger.size, if_neg (by omega), hlonger.kept j hj (by omega)]
    case added =>
      intro j hj hi
      rw [Array.getElem?_push, hlonger.size, if_neg (by omega), hlonger.added j hj hi]

namespace Act

variable {σ : Type} {w : World σ} {cell i : Nat} {key value : Value}

theorem setIndex_index (hindex : key.index? = some i) :
    setIndex (.array cell) key value = (setItem cell i value : Act σ Unit) := by
  simp only [setIndex, hindex]

theorem display_of_text {text : String} (htext : w.heap.display? key = some text) : display key w = .ok text w := by
  simp only [display, convert, htext]

theorem setIndex_text {text : String} (hindex : key.index? = none) (htext : w.heap.display? key = some text) :
    setIndex (.array cell) key value w = setProperty (.array cell) text value w := by
  simp only [setIndex, hindex, bind, EStateM.bind, display_of_text htext]

theorem getIndex_names (hnames : w.heap.Names key i) (hi : i < 9000000000000000) :
    getIndex (.array cell) key w = .ok (itemAt (w.heap.array cell) i) w := by
  cases hindex : key.index? with
  | some j =>
    rw [hnames.unique (Heap.names_of_index hindex)]
    simp only [getIndex, hindex]
    rfl
  | none =>
    obtain ⟨text, htext, hcounts⟩ := hnames.text hindex hi
    have hposition := positionOfName_iff.mpr ⟨hcounts, Nat.lt_trans hi (by decide)⟩
    simp only [getIndex, hindex, bind, EStateM.bind, display_of_text htext, getProperty, sequenceProperty,
      if_neg hcounts.ne_length, hposition]
    rfl

theorem setItem_lt (hcell : cell < w.heap.arrays.size) (hi : i < twoTo 24) :
    setItem cell i value w = .ok () (w.withItems cell (storedItems (w.heap.array cell) i value)) := by
  have hbound : ¬ maxArrayLength ≤ i := Nat.not_le.mpr hi
  rw [setItem, if_neg hbound]
  exact congrArg (fun heap => EStateM.Result.ok () { w with heap := heap }) (Heap.modifyArray_eq hcell _)

theorem setItem_ge (hi : twoTo 24 ≤ i) : setItem cell i value w = .error (.message "Invalid array length") w := by
  have hbound : maxArrayLength ≤ i := hi
  rw [setItem, if_pos hbound]
  rfl

theorem setItem_written (hcell : cell < w.heap.arrays.size) (hnames : w.heap.Names key i) (hi : i < twoTo 64) :
    ∃ t, w.heap.Aims key t ∧ Written w cell value t (setItem cell i value w) := by
  rcases Nat.lt_or_ge i (twoTo 24) with hlt | hge
  · refine ⟨.item i, ⟨hnames, hlt⟩, ?_⟩
    rw [setItem_lt hcell hlt]
    have hstored := stored_storedItems (w.heap.array cell) i value
    refine .item hstored fun key' hnames' => ?_
    rw [getIndex_names hnames' (Nat.lt_trans hlt (by decide)), array_withItems hcell, itemAt, Array.getD_eq_getD_getElem?,
      hstored.here]
    rfl
  · refine ⟨.beyond i, ⟨hnames, hge, hi⟩, ?_⟩
    rw [setItem_ge hge]
    exact .beyond

theorem setLength_written (hcell : cell < w.heap.arrays.size) : Written w cell value .length (setLength cell value w) := by
  by_cases hcount : ∃ n, value.IsCount n ∧ n ≤ twoTo 24
  · obtain ⟨n, hn, hle⟩ := hcount
    have hbound : n ≤ maxArrayLength := hle
    have hlength : setLength cell value w =
        .ok () (w.withItems cell (resizedArray (w.heap.array cell) n .undefined)) := by
      simp only [setLength, Value.index_of_isCount hn (Nat.lt_of_le_of_lt hle (by decide)), if_pos hbound]
      exact congrArg (fun heap => EStateM.Result.ok () { w with heap := heap }) (Heap.modifyArray_eq hcell _)
    rw [hlength]
    exact .resized hn hle (resized_resizedArray ..)
  · have hlength : setLength cell value w = .error (.message "Invalid array length") w := by
      cases hindex : value.index? with
      | some n =>
        have hbound : ¬ n ≤ maxArrayLength := fun hle => hcount ⟨n, Value.isCount_of_index hindex, hle⟩
        simp only [setLength, hindex, if_neg hbound]
        rfl
      | none =>
        simp only [setLength, hindex]
        rfl
    rw [hlength]
    exact .refused fun n hn => Nat.not_le.mp fun hle => hcount ⟨n, hn, hle⟩

theorem setNamedItem_eq (hi : i < 9000000000000000) : setNamedItem cell i value = (setItem cell i value : Act σ Unit) := by
  have hnat : (Double.ofNat i).IsNat i := Double.isNat_ofNat (Nat.lt_trans hi (by decide))
  rw [setNamedItem, if_pos (hnat.lt_positionBound.mpr hi)]

theorem setProperty_written {text : String} (hcell : cell < w.heap.arrays.size) (hindex : key.index? = none)
    (htext : w.heap.display? key = some text)
    (hsettled : ∀ i, w.heap.Names key i → i < 9000000000000000 ∨ twoTo 64 ≤ i) :
    ∃ t, w.heap.Aims key t ∧ Written w cell value t (setProperty (.array cell) text value w) := by
  by_cases hlength : text = "length"
  · refine ⟨.length, htext.trans (congrArg some hlength), ?_⟩
    simp only [setProperty, if_pos hlength]
    exact setLength_written hcell
  · cases hposition : positionOfName? text with
    | some i =>
      obtain ⟨hcounts, hi⟩ := positionOfName_iff.mp hposition
      have hnames := Heap.names_of_counts htext hcounts
      -- The write goes on through the nearest number, which is the position itself as long as it is small.
      have hsmall := (hsettled i hnames).resolve_right (Nat.not_le.mpr hi)
      simp only [setProperty, if_neg hlength, hposition, setNamedItem_eq hsmall]
      exact setItem_written hcell hnames hi
    | none =>
      refine ⟨.none, ⟨fun i hnames => ?_, fun heq => hlength (Option.some.inj (htext.symm.trans heq))⟩, ?_⟩
      · refine (hsettled i hnames).resolve_left fun hsmall => ?_
        obtain ⟨text', htext', hcounts⟩ := hnames.text hindex hsmall
        rw [htext] at htext'
        rw [← Option.some.inj htext'] at hcounts
        have := positionOfName_iff.mpr ⟨hcounts, Nat.lt_trans hsmall (by decide)⟩
        rw [hposition] at this
        cases this
      · simp only [setProperty, if_neg hlength, hposition]
        exact .none

/-- A write to an array ends in the way of the one target that its key has. The key has a text; only as a string is it a
position from `9 * 10 ^ 15` to `2 ^ 64`. -/
theorem element_written (w : World σ) (cell : Nat) (key value : Value) (hcell : cell < w.heap.arrays.size)
    (htext : (w.heap.display? key).isSome = true)
    (hsettled : ∀ i, w.heap.Names key i → (∃ s, key = .string s) ∨ i < 9000000000000000 ∨ twoTo 64 ≤ i) :
    ∃ t, w.heap.Aims key t ∧ (∀ t', w.heap.Aims key t' → t' = t) ∧
      Written w cell value t (setIndex (.array cell) key value w) := by
  have hends : ∃ t, w.heap.Aims key t ∧ Written w cell value t (setIndex (.array cell) key value w) := by
    cases hindex : key.index? with
    | some i =>
      rw [setIndex_index hindex]
      exact setItem_written hcell (Heap.names_of_index hindex) (Value.index_lt hindex)
    | none =>
      obtain ⟨text, htext⟩ := Option.isSome_iff_exists.mp htext
      rw [setIndex_text hindex htext]
      refine setProperty_written hcell hindex htext fun i hnames => ?_
      rcases hsettled i hnames with ⟨s, rfl⟩ | hsettled
      · refine .inr (Nat.not_lt.mp fun hi => ?_)
        obtain ⟨text', htext', hcounts⟩ := hnames
        rw [Heap.display_string] at htext'
        rw [← Option.some.inj htext'] at hcounts
        have := positionOfName_iff.mpr ⟨hcounts, hi⟩
        rw [show positionOfName? s = (Value.string s).index? from rfl, hindex] at this
        cases this
      · exact hsettled
  obtain ⟨t, haims, hwritten⟩ := hends
  exact ⟨t, haims, fun t' haims' => haims'.unique haims, hwritten⟩

end Act

def twoLists : World Unit :=
  ⟨⟨{ arrays := #[#[.number 1], #[.number 5]] }, ()⟩, #[], #[], 0⟩

theorem twoLists_display : twoLists.heap.display? (.array 1) = some "5" := by decide +kernel

theorem twoLists_names {i : Nat} (h : twoLists.heap.Names (.array 1) i) : i = 5 :=
  h.unique ⟨"5", twoLists_display, counts_decimalDigits 5⟩

theorem twoLists_written : 0 < twoLists.heap.arrays.size ∧ (twoLists.heap.display? (.array 1)).isSome = true ∧
    ∃ t, twoLists.heap.Aims (.array 1) t ∧ (∀ t', twoLists.heap.Aims (.array 1) t' → t' = t) ∧
      Written twoLists 0 (.number 7) t (Act.setIndex (.array 0) (.array 1) (.number 7) twoLists) := by
  have htext : (twoLists.heap.display? (.array 1)).isSome = true := by rw [twoLists_display]; rfl
  refine ⟨by decide, htext, Act.element_written twoLists 0 (.array 1) (.number 7) (by decide) htext fun i hnames => ?_⟩
  rw [twoLists_names hnames]
  exact .inr (.inl (by decide))

/-- A list as a key is neither a number nor a string, and an element is written all the same. -/
theorem listKey_writes : ∃ w', Act.setIndex (.array 0) (.array 1) (.number 7) twoLists = .ok () w' ∧
    (twoLists.heap.array 0).size = 1 ∧ (w'.heap.array 0).size = 6 ∧ (w'.heap.array 0)[5]? = some (.number 7) := by
  have hcell : 0 < twoLists.heap.arrays.size := by decide
  have hstored := stored_storedItems (twoLists.heap.array 0) 5 (.number 7)
  have hposition : positionOfName? "5" = some 5 := by decide
  refine ⟨twoLists.withItems 0 (storedItems (twoLists.heap.array 0) 5 (.number 7)), ?_, rfl, ?_, ?_⟩
  · rw [Act.setIndex_text rfl twoLists_display]
    simp only [Act.setProperty, hposition, Act.setNamedItem_eq (show 5 < 9000000000000000 by decide)]
    exact Act.setItem_lt hcell (show 5 < twoTo 24 by decide)
  · rw [array_withItems hcell]
    exact hstored.size
  · rw [array_withItems hcell]
    exact hstored.here

end Apiary
