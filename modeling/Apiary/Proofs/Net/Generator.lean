import Apiary.Net.Tensor
import Mathlib.Algebra.Group.Nat.Defs
import Mathlib.Tactic.NthRewrite

/-!
The state of a generator stays off zero, whatever is drawn from it. A word that a shift step sends to zero
equals its own shift, and only zero does.
-/

namespace Apiary

namespace Prng

def Nonzero (g : Prng) : Prop := g.state ≠ 0

theorem eq_of_xor {x y : UInt64} (h : x ^^^ y = 0) : x = y := by
  have hbits : x.toBitVec ^^^ y.toBitVec = 0#64 := by
    rw [← UInt64.toBitVec_xor, h]
    rfl
  exact UInt64.toBitVec_inj.mp (BitVec.xor_eq_zero_iff.mp hbits)

theorem toNat_ne_zero {x : UInt64} (hx : x ≠ 0) : x.toNat ≠ 0 := fun h => hx (UInt64.toNat_inj.mp h)

theorem xor_shiftRight_ne {x : UInt64} (hx : x ≠ 0) (k : UInt64) (hk : 0 < k.toNat % 64) :
    x ^^^ (x >>> k) ≠ 0 := by
  intro h
  have heq := congrArg UInt64.toNat (eq_of_xor h)
  rw [UInt64.toNat_shiftRight, Nat.shiftRight_eq_div_pow] at heq
  have hpow : 1 < 2 ^ (k.toNat % 64) := Nat.one_lt_two_pow (Nat.ne_of_gt hk)
  have hpos : 0 < x.toNat := Nat.pos_of_ne_zero (toNat_ne_zero hx)
  exact absurd heq.symm (Nat.ne_of_lt (Nat.div_lt_self hpos hpow))

theorem eq_zero_of_shift {n : Nat} (hn : n < 2 ^ 64) (h : n * 2 ^ 25 % 2 ^ 64 = n) : n = 0 := by
  have hdvd : 2 ^ 64 ∣ n * (2 ^ 25 - 1) := by
    rw [Nat.mul_sub_one]
    nth_rewrite 2 [← h]
    exact Nat.dvd_sub_mod _
  have hcoprime : Nat.Coprime (2 ^ 64) (2 ^ 25 - 1) := by decide
  exact Nat.eq_zero_of_dvd_of_lt (hcoprime.dvd_of_dvd_mul_right hdvd) hn

theorem xor_shiftLeft_ne {x : UInt64} (hx : x ≠ 0) : x ^^^ (x <<< 25) ≠ 0 := by
  intro h
  have heq := congrArg UInt64.toNat (eq_of_xor h)
  rw [UInt64.toNat_shiftLeft, Nat.shiftLeft_eq] at heq
  exact toNat_ne_zero hx (eq_zero_of_shift x.toNat_lt heq.symm)

theorem Nonzero.step {g : Prng} (h : g.Nonzero) : g.step.Nonzero :=
  xor_shiftRight_ne (xor_shiftLeft_ne (xor_shiftRight_ne h 12 (by decide))) 27 (by decide)

theorem nonzero_ofSeed (seed : UInt64) : (ofSeed seed).Nonzero := by
  unfold ofSeed Nonzero
  split
  · decide
  · assumption

theorem mapList_keeps {α β : Type} {f : α → Prng → β × Prng} {P : Prng → Prop}
    (hf : ∀ a g, P g → P (f a g).2) (xs : List α) {g : Prng} (hg : P g) :
    P (mapList f xs g).2 := by
  induction xs generalizing g with
  | nil => exact hg
  | cons a rest ih => exact ih (hf a g hg)

theorem mapArray_keeps {α β : Type} {f : α → Prng → β × Prng} {P : Prng → Prop}
    (hf : ∀ a g, P g → P (f a g).2) (xs : Array α) {g : Prng} (hg : P g) :
    P (mapArray f xs g).2 := by
  unfold mapArray
  apply Array.foldl_induction (fun _ (r : Array β × Prng) => P r.2)
  · exact hg
  · intro i r h
    exact hf _ _ h

end Prng

namespace Tensor

theorem nonzero_drawEntries (scale : Single) (n : Nat) (drawn : Array Single) {g : Prng}
    (hg : g.Nonzero) : (drawEntries scale n drawn g).2.Nonzero := by
  induction n generalizing drawn g with
  | zero => exact hg
  | succ n ih => exact ih _ hg.step

theorem nonzero_entries (shape : List Nat) (count : Nat) (init : TensorInit) {g : Prng}
    (hg : g.Nonzero) : (entries shape count init g).2.Nonzero := by
  cases init with
  | zeros => exact hg
  | random => exact nonzero_drawEntries _ _ _ hg
  | identity =>
    unfold entries
    dsimp only
    split
    · exact hg
    · exact nonzero_drawEntries _ _ _ hg

end Tensor

end Apiary
