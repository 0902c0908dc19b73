import Apiary.Engine.Context
import Apiary.Service.Board
import Mathlib.Data.List.Count

/-!
The prompts on the board of a service: each stands there once under its number until a client withdraws it, and
numbers of different prompts differ as long as both halves of a number fit their words.
-/

namespace Apiary

namespace RunContext

theorem toNat_promptId {run n : Nat} (hrun : run < UInt32.size) (hn : n < UInt32.size) :
    (promptId run n).toNat = run * UInt32.size + n := by
  have hsize : UInt32.size = 2 ^ 32 := rfl
  rw [hsize] at hrun hn ⊢
  have hword : run % 2 ^ 64 = run := Nat.mod_eq_of_lt (by omega)
  have hn' : n % 2 ^ 64 = n := Nat.mod_eq_of_lt (by omega)
  have hhigh : (run * 2 ^ 32) % 2 ^ 64 = run * 2 ^ 32 := Nat.mod_eq_of_lt (by omega)
  have hshift : (UInt64.ofNat run <<< 32).toNat = run <<< 32 := by
    rw [UInt64.toNat_shiftLeft, UInt64.toNat_ofNat', hword]
    rw [show (32 : UInt64).toNat % 64 = 32 from rfl, Nat.shiftLeft_eq, hhigh]
  rw [promptId, UInt64.toNat_or, hshift, UInt64.toNat_ofNat', hn']
  rw [← Nat.shiftLeft_add_eq_or_of_lt hn, Nat.shiftLeft_eq]

theorem promptId_inj {run run' n n' : Nat} (hrun : run < UInt32.size) (hn : n < UInt32.size)
    (hrun' : run' < UInt32.size) (hn' : n' < UInt32.size) (h : promptId run n = promptId run' n') :
    run = run' ∧ n = n' := by
  have hsum : run * UInt32.size + n = run' * UInt32.size + n' := by
    rw [← toNat_promptId hrun hn, h, toNat_promptId hrun' hn']
  have hsize : UInt32.size = 2 ^ 32 := rfl
  rw [hsize] at hsum hrun hn hrun' hn'
  constructor <;> omega

end RunContext

namespace RunBoard

theorem acquire?_eq_some {b b' : RunBoard} (h : b.acquire? = some b') :
    b.busy = false ∧ b' = { b with busy := true } := by
  unfold acquire? at h
  split at h
  · cases h
  · next hbusy =>
    cases h
    exact ⟨Bool.eq_false_iff.mpr hbusy, rfl⟩

def listed (id : UInt64) (b : RunBoard) : Nat := b.pending.countP fun p => p.id = id

theorem mem_insertPrompt {p q : Prompt} {l : List Prompt} (h : q ∈ insertPrompt p l) : q = p ∨ q ∈ l := by
  induction l with
  | nil => exact .inl (List.mem_singleton.mp h)
  | cons r rest ih =>
    unfold insertPrompt at h
    split at h
    · exact List.mem_cons.mp h
    · split at h
      · exact (List.mem_cons.mp h).imp_right (List.mem_cons_of_mem r)
      · rcases List.mem_cons.mp h with rfl | h
        · exact .inr List.mem_cons_self
        · exact (ih h).imp_right (List.mem_cons_of_mem r)

theorem countP_cons_singleton (f : Prompt → Bool) (p : Prompt) (l : List Prompt) :
    (p :: l).countP f = [p].countP f + l.countP f := by
  rw [← List.singleton_append, List.countP_append]

theorem countP_insertPrompt (f : Prompt → Bool) (p : Prompt) (l : List Prompt) :
    (insertPrompt p l).countP f ≤ [p].countP f + l.countP f := by
  induction l with
  | nil => exact Nat.le_refl _
  | cons r rest ih =>
    unfold insertPrompt
    split
    · exact Nat.le_of_eq (countP_cons_singleton f p _)
    · split
      · have hrest : (p :: rest).countP f = [p].countP f + rest.countP f := countP_cons_singleton f p rest
        have hmore : rest.countP f ≤ (r :: rest).countP f := (List.sublist_cons_self r rest).countP_le
        omega
      · have hold : (r :: rest).countP f = [r].countP f + rest.countP f := countP_cons_singleton f r rest
        have hnew : (r :: insertPrompt p rest).countP f = [r].countP f + (insertPrompt p rest).countP f :=
          countP_cons_singleton f r _
        omega

theorem listed_ask (id : UInt64) (p : Prompt) (slot : Slot) (b : RunBoard) :
    (b.ask p slot).listed id ≤ [p.id].count id + b.listed id := by
  have hinsert := countP_insertPrompt (fun q => decide (q.id = id)) p b.pending
  have hone : [p].countP (fun q => decide (q.id = id)) = [p.id].count id := by
    by_cases h : p.id = id <;> simp [h]
  rw [hone] at hinsert
  exact hinsert

theorem withdraw?_eq_some {id : UInt64} {b b' : RunBoard} (h : b.withdraw? id = some b') :
    b' = { b with pending := b.pending.filter fun p => p.id ≠ id } ∧ 0 < b.listed id := by
  unfold withdraw? at h
  split at h
  · next hany =>
    cases h
    refine ⟨rfl, List.countP_pos_iff.mpr ?_⟩
    simpa using hany
  · cases h

theorem listed_withdraw {id : UInt64} {b b' : RunBoard} (h : b.withdraw? id = some b') (other : UInt64) :
    [id].count other + b'.listed other ≤ b.listed other := by
  obtain ⟨rfl, hlisted⟩ := withdraw?_eq_some h
  unfold listed at hlisted ⊢
  rw [List.countP_filter]
  by_cases hother : id = other
  · subst hother
    have hnone : b.pending.countP (fun p => decide (p.id = id) && decide (p.id ≠ id)) = 0 := by
      rw [List.countP_eq_zero]
      intro p hp
      by_cases hid : p.id = id <;> simp [hid]
    rw [hnone, List.count_singleton_self]
    exact hlisted
  · rw [List.count_singleton, if_neg (by simpa using hother), Nat.zero_add]
    apply List.countP_mono_left
    intro p hp hboth
    exact (Bool.and_eq_true _ _ ▸ hboth).1

theorem answer?_eq_some {id : UInt64} {approved : Bool} {b b' : RunBoard} (h : b.answer? id approved = some b') :
    ∃ waiting, b' = { b with waiting := waiting } := by
  unfold answer? at h
  split at h
  · split at h
    · cases hfill : Slot.fill? approved _ with
      | none =>
        rw [hfill] at h
        cases h
      | some slot =>
        rw [hfill] at h
        cases h
        exact ⟨_, rfl⟩
    · cases h
  · cases h

end RunBoard

end Apiary
