import Apiary.Proofs.Net.Generator
import Mathlib.Algebra.GroupWithZero.Nat
import Mathlib.Logic.Function.Iterate

/-!
What draws make of a generator. Every kind of draw takes a fixed number of words, and so as many steps, and a step
brings no two states together. However a generator that comes of a word is drawn from and split, its state is never
zero, and so the generator comes back from its state. A whole number that is drawn lies in the range asked for.
-/

namespace Apiary

namespace Prng

theorem shiftStep_xor (x y : UInt64) : shiftStep (x ^^^ y) = shiftStep x ^^^ shiftStep y := by
  have hright (k x y : UInt64) : x ^^^ y ^^^ (x ^^^ y) >>> k = x ^^^ x >>> k ^^^ (y ^^^ y >>> k) := by
    rw [UInt64.shiftRight_xor]
    ac_rfl
  have hleft (k x y : UInt64) : x ^^^ y ^^^ (x ^^^ y) <<< k = x ^^^ x <<< k ^^^ (y ^^^ y <<< k) := by
    rw [UInt64.shiftLeft_xor]
    ac_rfl
  unfold shiftStep
  dsimp only
  rw [hright 12, hleft 25, hright 27]

theorem shiftStep_injective : Function.Injective shiftStep := by
  intro x y h
  by_contra hne
  -- two words with one successor would differ by a word that a step sends to zero
  have hnonzero : shiftStep (x ^^^ y) ≠ 0 :=
    Nonzero.step (g := ⟨x ^^^ y⟩) fun hzero => hne (UInt64.xor_eq_zero_iff.mp hzero)
  rw [shiftStep_xor, h, UInt64.xor_self] at hnonzero
  exact hnonzero rfl

theorem step_injective : Function.Injective step := by
  rintro ⟨x⟩ ⟨y⟩ h
  exact congrArg Prng.mk (shiftStep_injective (congrArg state h))

/-- A request to a generator: a draw of some kind, or a split. -/
inductive Draw
  | word
  | unit32
  | unit64
  | range32 (low high : Single)
  | range (low high : Nat)
  | chance (p : Single)
  | sign
  | normal (mean deviation : Double)
  | split

inductive Drawn
  | word (x : UInt32)
  | single (x : Single)
  | double (x : Double)
  | whole (n : Nat)
  | truth (b : Bool)
  | generator (g : Prng)

namespace Draw

/-- What is drawn, and the generator that is left. A range may have no answer. -/
def answer? : Draw → Prng → Option (Drawn × Prng)
  | .word, g => some (g.next32.map .word id)
  | .unit32, g => some (g.unit32.map .single id)
  | .unit64, g => some (g.unit64.map .double id)
  | .range32 low high, g => some ((g.range32 low high).map .single id)
  | .range low high, g => (g.rangeNat? low high).map (·.map .whole id)
  | .chance p, g => some ((g.chance p).map .truth id)
  | .sign, g => some (g.sign.map .single id)
  | .normal mean deviation, g => some ((g.normal mean deviation).map .double id)
  | .split, g => some (g.split.map .generator id)

/-- How many words of the stream are taken. -/
def words : Draw → Nat
  | .range low high => if high ≤ low then 0 else 1
  | .normal .. => 2
  | _ => 1

end Draw

/-- What is drawn by requests in turn, and the generator that is left. -/
def answers? : List Draw → Prng → Option (List Drawn × Prng)
  | [], g => some ([], g)
  | d :: ds, g => do
    let (x, g) ← d.answer? g
    let (xs, g) ← answers? ds g
    pure (x :: xs, g)

def words (ds : List Draw) : Nat := (ds.map Draw.words).sum

variable {g h g' h' : Prng} {d : Draw} {x : Drawn} {ds es : List Draw} {xs ys : List Drawn}

section Range

variable {low high : Nat}

theorem rangeNat?_of_le (hle : high ≤ low) (g : Prng) : g.rangeNat? low high = some (low, g) := by
  rw [rangeNat?, if_pos hle]

theorem rangeNat?_of_lt (hlt : low < high) (g : Prng) : g.rangeNat? low high =
    if (high - low) % twoTo 32 = 0 then none
    else some (low + g.next32.1.toNat % ((high - low) % twoTo 32), g.step) := by
  rw [rangeNat?, if_neg (Nat.not_le_of_lt hlt)]
  rfl

theorem rangeNat?_state {n : Nat} (h : g.rangeNat? low high = some (n, g')) :
    g' = step^[(Draw.range low high).words] g := by
  rw [Draw.words]
  split
  · next hle =>
    rw [rangeNat?_of_le hle] at h
    cases h
    rfl
  · next hlt =>
    rw [rangeNat?_of_lt (Nat.lt_of_not_le hlt)] at h
    split at h
    · cases h
    · cases h
      rfl

end Range

theorem Draw.answer?_state (hd : d.answer? g = some (x, g')) : g' = step^[d.words] g := by
  cases d with
  | range low high =>
    obtain ⟨⟨n, g''⟩, hn, heq⟩ := Option.map_eq_some_iff.mp hd
    cases heq
    exact rangeNat?_state hn
  | _ =>
    cases hd
    rfl

theorem answers?_state (hds : answers? ds g = some (xs, g')) : g' = step^[words ds] g := by
  induction ds generalizing g xs with
  | nil =>
    cases hds
    rfl
  | cons d ds ih =>
    obtain ⟨⟨x, g₁⟩, hd, hds⟩ := Option.bind_eq_some_iff.mp hds
    obtain ⟨⟨xs, g₂⟩, hds, heq⟩ := Option.bind_eq_some_iff.mp hds
    cases heq
    have hwords : words (d :: ds) = words ds + d.words := by
      rw [words, List.map_cons, List.sum_cons, Nat.add_comm]
      rfl
    rw [ih hds, Draw.answer?_state hd, hwords, Function.iterate_add_apply]

theorem Nonzero.steps (hg : g.Nonzero) (n : Nat) : Nonzero (Prng.step^[n] g) := by
  induction n generalizing g with
  | zero => exact hg
  | succ n ih => exact ih hg.step

/-- The generators that come of words: what a word makes, what a request leaves, and what is split off. -/
inductive Derived : Prng → Prop
  | seeded (word : UInt64) : Derived (ofSeed word)
  | drawn {d : Draw} {g g' : Prng} {x : Drawn} : Derived g → d.answer? g = some (x, g') → Derived g'
  | splitOff {d : Draw} {g g' child : Prng} : Derived g → d.answer? g = some (.generator child, g') → Derived child

theorem Draw.nonzero_child {child : Prng} (hd : d.answer? g = some (.generator child, g')) : child.Nonzero := by
  cases d with
  | split =>
    cases hd
    exact nonzero_ofSeed _
  | range low high =>
    obtain ⟨_, -, heq⟩ := Option.map_eq_some_iff.mp hd
    cases heq
  | _ => cases hd

theorem Derived.nonzero (hg : Derived g) : g.Nonzero := by
  induction hg with
  | seeded word => exact nonzero_ofSeed word
  | drawn _ hd ih =>
    rw [Draw.answer?_state hd]
    exact Nonzero.steps ih _
  | splitOff _ hd => exact Draw.nonzero_child hd

theorem ofSeed_of_nonzero (hg : g.Nonzero) : ofSeed g.state = g := by
  rw [ofSeed, if_neg hg]

/-- A whole number of an empty range is its low end, and nothing is drawn for it. One of any other range takes one
draw and lies in the range, unless the width is a multiple of two to the 32nd: then there is no answer. -/
theorem range_drawn_within (low high : UInt64) (g : Prng) :
    (high ≤ low → g.rangeNat? low.toNat high.toNat = some (low.toNat, g)) ∧
    (low < high → UInt32.size ∣ high.toNat - low.toNat → g.rangeNat? low.toNat high.toNat = none) ∧
    (low < high → ¬ UInt32.size ∣ high.toNat - low.toNat →
      ∃ r : UInt64, g.rangeNat? low.toNat high.toNat = some (r.toNat, g.next32.2) ∧ low ≤ r ∧ r < high) := by
  refine ⟨fun hle => rangeNat?_of_le hle g, fun hlt hdvd => ?_, fun hlt hdvd => ?_⟩
  · rw [rangeNat?_of_lt (UInt64.lt_iff_toNat_lt.mp hlt), if_pos (Nat.mod_eq_zero_of_dvd hdvd)]
  have hlt : low.toNat < high.toNat := UInt64.lt_iff_toNat_lt.mp hlt
  have hspan : (high.toNat - low.toNat) % twoTo 32 ≠ 0 := fun h => hdvd (Nat.dvd_of_mod_eq_zero h)
  have hdrawn := Nat.mod_lt g.next32.1.toNat (Nat.pos_of_ne_zero hspan)
  have hwidth := Nat.mod_le (high.toNat - low.toNat) (twoTo 32)
  have hbelow : low.toNat + g.next32.1.toNat % ((high.toNat - low.toNat) % twoTo 32) < high.toNat := by omega
  refine ⟨.ofNatLT _ (Nat.lt_trans hbelow high.toNat_lt), ?_, ?_, ?_⟩
  · rw [rangeNat?_of_lt hlt, if_neg hspan, UInt64.toNat_ofNatLT]
    rfl
  · exact UInt64.le_iff_toNat_le.mpr (Nat.le_add_right _ _)
  · exact UInt64.lt_iff_toNat_lt.mpr hbelow

/-- The widest range that has an answer, and one of no width. -/
theorem widest_range_drawn :
    (∃ r : UInt64, (ofSeed 1).rangeNat? 7 4294967302 = some (r.toNat, (ofSeed 1).next32.2) ∧ 7 ≤ r ∧ r < 4294967302) ∧
    (ofSeed 1).rangeNat? 0 4294967296 = none ∧ (ofSeed 1).rangeNat? 7 7 = some (7, ofSeed 1) :=
  ⟨(range_drawn_within 7 4294967302 (ofSeed 1)).2.2 (by decide) (by decide),
    (range_drawn_within 0 4294967296 (ofSeed 1)).2.1 (by decide) (by decide),
    (range_drawn_within 7 7 (ofSeed 1)).1 (by decide)⟩

/-- A range of that width has no answer, whatever would be drawn. -/
theorem wide_range_unanswered : (0 : Nat) < 4294967296 ∧ (ofSeed 1).rangeNat? 0 4294967296 = none :=
  ⟨by decide, rfl⟩

/-- Generators in different states stay in different states while as many words are taken from the one as from the
other, and a generator that comes of a word goes on alike from its state. -/
theorem generators_stay_apart :
    (∀ {g}, Derived g → g.state ≠ 0 ∧ ofSeed g.state = g ∧ ∀ ds, answers? ds (ofSeed g.state) = answers? ds g) ∧
    Function.Injective shiftStep ∧
    ∀ {g h g' h' ds es xs ys}, g.state ≠ h.state → words ds = words es → answers? ds g = some (xs, g') →
      answers? es h = some (ys, h') → g'.state ≠ h'.state := by
  refine ⟨fun {g} hg => ?_, shiftStep_injective, fun {g h g' h' ds es xs ys} hne hwords hds hes heq => hne ?_⟩
  · have hsame := ofSeed_of_nonzero hg.nonzero
    exact ⟨hg.nonzero, hsame, fun ds => by rw [hsame]⟩
  · have hsteps : step^[words es] g = step^[words es] h := by
      rw [← answers?_state hes, ← hwords, ← answers?_state hds]
      exact congrArg Prng.mk heq
    rw [step_injective.iterate _ hsteps]

/-- The generator of zero, and the one split off it. -/
theorem of_zero_stay_apart : ∃ child left, Draw.split.answer? (ofSeed 0) = some (.generator child, left) ∧
    left.state ≠ 0 ∧ child.state ≠ 0 ∧ ofSeed child.state = child ∧
    answers? [.word, .split] (ofSeed left.state) = answers? [.word, .split] left ∧ shiftStep left.state ≠ shiftStep child.state := by
  have hsplit : Draw.split.answer? (ofSeed 0) = some (.generator (ofSeed 0).split.1, (ofSeed 0).split.2) := rfl
  obtain ⟨hderived, hinjective, happart⟩ := generators_stay_apart
  have hleft := hderived (.drawn (.seeded 0) hsplit)
  have hchild := hderived (.splitOff (.seeded 0) hsplit)
  refine ⟨_, _, hsplit, hleft.1, hchild.1, hchild.2.1, hleft.2.2 _, ?_⟩
  exact @happart _ _ _ _ [.word] [.word] _ _ (by decide +kernel) rfl rfl rfl

end Prng

end Apiary
