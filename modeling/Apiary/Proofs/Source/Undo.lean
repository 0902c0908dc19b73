import Apiary.Engine.Context
import Apiary.Proofs.Text.Pieces
import Mathlib.Data.List.Induction

/-!
The live source under edits and rollbacks. An edit and the rollback that takes it back match like an opening
and a closing bracket, and what stands between the two leaves the buffer as it was.
-/

namespace Apiary

inductive Revision
  | edit (target replacement : String)
  | rollback

/-- A request and whether it was granted. -/
structure Revised where
  revision : Revision
  granted : Bool

namespace Revised

def opens : Revised → Bool
  | ⟨.edit _ _, granted⟩ => granted
  | ⟨.rollback, _⟩ => false

def closes : Revised → Bool
  | ⟨.edit _ _, _⟩ => false
  | ⟨.rollback, granted⟩ => granted

end Revised

def edits (log : List Revised) : Nat := log.countP Revised.opens

def rollbacks (log : List Revised) : Nat := log.countP Revised.closes

theorem edits_append (log log' : List Revised) : edits (log ++ log') = edits log + edits log' :=
  List.countP_append

theorem rollbacks_append (log log' : List Revised) :
    rollbacks (log ++ log') = rollbacks log + rollbacks log' := List.countP_append

/-- At no point more edits are taken back than were made, and in the end all are. -/
structure Balanced (log : List Revised) : Prop where
  within : ∀ front, front <+: log → rollbacks front ≤ edits front
  level : edits log = rollbacks log

theorem within_snoc {log : List Revised} {e : Revised}
    (h : ∀ front, front <+: log → rollbacks front ≤ edits front)
    (he : rollbacks (log ++ [e]) ≤ edits (log ++ [e])) :
    ∀ front, front <+: log ++ [e] → rollbacks front ≤ edits front := by
  intro front hfront
  rcases List.prefix_concat_iff.mp hfront with rfl | hshort
  · exact he
  · exact h front hshort

namespace CodeBuffer

def revise? (c : CodeBuffer) : Revision → Option CodeBuffer
  | .edit target replacement => c.edit? target replacement
  | .rollback => c.rollback?

/-- A request that is refused leaves the buffer as it is. -/
def after (c : CodeBuffer) (r : Revision) : CodeBuffer := (c.revise? r).getD c

def afterAll (c : CodeBuffer) (rs : List Revision) : CodeBuffer := rs.foldl after c

def log : CodeBuffer → List Revision → List Revised
  | _, [] => []
  | c, r :: rs => ⟨r, (c.revise? r).isSome⟩ :: log (c.after r) rs

/-- The text and below it the texts that rollbacks bring back, the next one first. -/
def texts (c : CodeBuffer) : List String := c.text :: c.history

variable {c : CodeBuffer}

theorem eq_of_texts {d : CodeBuffer} (h : c.texts = d.texts) : c = d := by
  obtain ⟨text, history⟩ := c
  cases h
  rfl

theorem edit?_isSome (c : CodeBuffer) (target replacement : String) :
    (c.edit? target replacement).isSome ↔ target ≠ "" ∧ target.toList <:+: c.text.toList := by
  rw [edit?, Option.isSome_ite', Bool.or_eq_true, not_or, String.isEmpty_iff, Bool.not_eq_true',
    Bool.not_eq_false, occurs_iff]

theorem edit?_eq_some {target replacement : String} {d : CodeBuffer}
    (h : c.edit? target replacement = some d) :
    d = ⟨replaceText target replacement c.text, c.texts⟩ := by
  unfold edit? at h
  split at h
  · cases h
  · exact (Option.some.inj h).symm

theorem edit?_replaces {target replacement : String} {d : CodeBuffer}
    (h : c.edit? target replacement = some d) :
    ∃ pieces, Cut target.toList c.text.toList pieces ∧ 2 ≤ pieces.length ∧
      d.text.toList = replacement.toList.intercalate pieces := by
  obtain ⟨htarget, hocc⟩ := (c.edit?_isSome target replacement).mp (Option.isSome_of_eq_some h)
  have hne : target.toList ≠ [] := fun hnil => htarget (String.toList_eq_nil_iff.mp hnil)
  obtain ⟨pieces, hpieces⟩ := exists_cut hne c.text.toList
  refine ⟨pieces, hpieces, hpieces.two_le hocc, ?_⟩
  rw [edit?_eq_some h]
  exact hpieces.replaceText_eq htarget

theorem rollback?_isSome : c.rollback?.isSome ↔ c.history ≠ [] := by
  cases h : c.history <;> simp [rollback?, h]

theorem rollback?_eq_some {d : CodeBuffer} (h : c.rollback? = some d) : c.texts = c.text :: d.texts := by
  unfold rollback? at h
  split at h
  · cases h
  · rename_i text rest hhistory
    cases h
    exact congrArg (c.text :: ·) hhistory

/-- The ways of a request: an edit lays a text on top, a rollback takes the top one off, or nothing happens. -/
inductive Effect (c : CodeBuffer) : Revised → CodeBuffer → Prop
  | edited {target replacement : String} {d : CodeBuffer} : d.texts = d.text :: c.texts →
    Effect c ⟨.edit target replacement, true⟩ d
  | restored {d : CodeBuffer} : c.texts = c.text :: d.texts → Effect c ⟨.rollback, true⟩ d
  | refused (r : Revision) : Effect c ⟨r, false⟩ c

theorem effect (c : CodeBuffer) (r : Revision) : Effect c ⟨r, (c.revise? r).isSome⟩ (c.after r) := by
  cases h : c.revise? r with
  | none =>
    have hsame : c.after r = c := by rw [after, h, Option.getD_none]
    rw [hsame]
    exact .refused r
  | some d =>
    have hafter : c.after r = d := by rw [after, h, Option.getD_some]
    rw [hafter]
    cases r with
    | edit target replacement =>
      refine .edited ?_
      rw [edit?_eq_some h]
      rfl
    | rollback => exact .restored (rollback?_eq_some h)

theorem afterAll_append (c : CodeBuffer) (rs rs' : List Revision) :
    c.afterAll (rs ++ rs') = (c.afterAll rs).afterAll rs' := List.foldl_append

theorem log_append (c : CodeBuffer) (rs rs' : List Revision) :
    c.log (rs ++ rs') = c.log rs ++ (c.afterAll rs).log rs' := by
  induction rs generalizing c with
  | nil => rfl
  | cons r rs ih => exact congrArg (_ :: ·) (ih (c.after r))

theorem log_snoc (c : CodeBuffer) (rs : List Revision) (r : Revision) :
    c.log (rs ++ [r]) = c.log rs ++ [⟨r, ((c.afterAll rs).revise? r).isSome⟩] := c.log_append rs [r]

theorem afterAll_snoc (c : CodeBuffer) (rs : List Revision) (r : Revision) :
    c.afterAll (rs ++ [r]) = (c.afterAll rs).after r := c.afterAll_append rs [r]

theorem Effect.history_length {d : CodeBuffer} {e : Revised} (h : Effect c e d) :
    d.history.length + rollbacks [e] = c.history.length + edits [e] := by
  cases h with
  | edited htexts =>
    have hlength := congrArg List.length htexts
    simpa [texts, edits, rollbacks, Revised.opens, Revised.closes] using hlength
  | restored htexts =>
    have hlength := congrArg List.length htexts
    simp [texts, edits, rollbacks, Revised.opens, Revised.closes] at hlength ⊢
    omega
  | refused r => cases r <;> rfl

theorem history_length (c : CodeBuffer) (rs : List Revision) :
    (c.afterAll rs).history.length + rollbacks (c.log rs) = c.history.length + edits (c.log rs) := by
  induction rs using List.reverseRecOn with
  | nil => rfl
  | append_singleton rs r ih =>
    have hlast := ((c.afterAll rs).effect r).history_length
    rw [afterAll_snoc, log_snoc, edits_append, rollbacks_append]
    omega

theorem Effect.above {d : CodeBuffer} {e : Revised} {start : CodeBuffer} {above : List String}
    (h : Effect c e d) (habove : c.texts = above ++ start.texts)
    (hlevel : rollbacks [e] ≤ above.length + edits [e]) :
    ∃ above', d.texts = above' ++ start.texts ∧
      above'.length + rollbacks [e] = above.length + edits [e] := by
  cases h with
  | edited htexts =>
    refine ⟨d.text :: above, ?_, rfl⟩
    rw [htexts, habove]
    rfl
  | restored htexts =>
    obtain ⟨top, below, rfl⟩ := List.exists_cons_of_length_pos hlevel
    have htail := (List.cons.inj (htexts.symm.trans habove)).2
    exact ⟨below, htail, rfl⟩
  | refused r => exact ⟨above, habove, by cases r <;> rfl⟩

/-- While no text from below `c` is taken off, what lies on top of it is what was not taken back. -/
theorem exists_above {rs : List Revision}
    (h : ∀ front, front <+: c.log rs → rollbacks front ≤ edits front) :
    ∃ above, (c.afterAll rs).texts = above ++ c.texts ∧
      above.length + rollbacks (c.log rs) = edits (c.log rs) := by
  induction rs using List.reverseRecOn with
  | nil => exact ⟨[], rfl, rfl⟩
  | append_singleton rs r ih =>
    rw [log_snoc] at h ⊢
    obtain ⟨above, habove, hlength⟩ := ih fun front hfront =>
      h front (hfront.trans (List.prefix_append _ _))
    have hlevel := h _ (List.prefix_refl _)
    rw [edits_append, rollbacks_append] at hlevel ⊢
    obtain ⟨above', habove', hlength'⟩ :=
      ((c.afterAll rs).effect r).above habove (by omega)
    refine ⟨above', ?_, by omega⟩
    rw [afterAll_snoc]
    exact habove'

theorem afterAll_balanced {rs : List Revision} (h : Balanced (c.log rs)) : c.afterAll rs = c := by
  obtain ⟨above, habove, hlength⟩ := exists_above h.within
  have hlevel := h.level
  obtain rfl : above = [] := List.length_eq_zero_iff.mp (by omega)
  exact eq_of_texts habove

/-- The edit between `before` and `between` was made and is the latest that is not taken back. -/
structure Stands (c : CodeBuffer) (before : List Revision) (target replacement : String)
    (between : List Revision) : Prop where
  made : ((c.afterAll before).edit? target replacement).isSome
  balanced : Balanced ((c.afterAll (before ++ [.edit target replacement])).log between)

theorem Stands.rollback {before between : List Revision} {target replacement : String}
    (h : c.Stands before target replacement between) :
    (c.afterAll (before ++ .edit target replacement :: between)).rollback? =
      some (c.afterAll before) := by
  obtain ⟨d, hd⟩ := Option.isSome_iff_exists.mp h.made
  have hlatest : c.afterAll (before ++ .edit target replacement :: between) = d := by
    have hedit : c.afterAll (before ++ [.edit target replacement]) = d := by
      rw [afterAll_snoc, after, revise?, hd, Option.getD_some]
    rw [List.append_cons, afterAll_append, afterAll_balanced h.balanced, hedit]
  rw [hlatest, edit?_eq_some hd]
  rfl

theorem history_length_edited {before : List Revision} {target replacement : String}
    (h : ((c.afterAll before).edit? target replacement).isSome) :
    (c.afterAll (before ++ [.edit target replacement])).history.length =
      (c.afterAll before).history.length + 1 := by
  obtain ⟨d, hd⟩ := Option.isSome_iff_exists.mp h
  rw [afterAll_snoc, after, revise?, hd, Option.getD_some, edit?_eq_some hd]
  rfl

theorem edit_of_grows {r : Revision} (h : c.history.length < (c.after r).history.length) :
    ∃ target replacement, r = .edit target replacement ∧ (c.edit? target replacement).isSome := by
  have hlength := (c.effect r).history_length
  cases r with
  | rollback =>
    have hnone : edits [⟨.rollback, (c.revise? .rollback).isSome⟩] = 0 := rfl
    omega
  | edit target replacement =>
    refine ⟨target, replacement, rfl, ?_⟩
    cases hgranted : (c.edit? target replacement).isSome with
    | true => rfl
    | false =>
      have hnone : edits [⟨.edit target replacement, (c.revise? (.edit target replacement)).isSome⟩] = 0 := by
        rw [revise?, hgranted]
        rfl
      omega

/-- The edit that put the text at height `k` below its own; what was laid on that later, and no more, may
have been taken off. -/
theorem exists_edit_at (hstart : c.history = []) {rs : List Revision} {k : Nat}
    (hk : k < (c.afterAll rs).history.length) :
    ∃ before target replacement between, rs = before ++ .edit target replacement :: between ∧
      ((c.afterAll before).edit? target replacement).isSome ∧
      (c.afterAll before).history.length = k ∧
      ∀ front, front <+: (c.afterAll (before ++ [.edit target replacement])).log between →
        rollbacks front ≤ edits front := by
  induction rs using List.reverseRecOn with
  | nil =>
    have hnone : (c.afterAll []).history = [] := hstart
    rw [hnone] at hk
    exact absurd hk (Nat.not_lt_zero k)
  | append_singleton rs r ih =>
    by_cases hlow : k < (c.afterAll rs).history.length
    · obtain ⟨before, target, replacement, between, rfl, hmade, hheight, hwithin⟩ := ih hlow
      have hsplit : before ++ .edit target replacement :: between ++ [r] =
          before ++ [.edit target replacement] ++ (between ++ [r]) := by simp
      have hlength := history_length (c.afterAll (before ++ [.edit target replacement])) (between ++ [r])
      rw [← afterAll_append, ← hsplit, history_length_edited hmade, log_snoc] at hlength
      refine ⟨before, target, replacement, between ++ [r], by simp, hmade, hheight, ?_⟩
      rw [log_snoc]
      exact within_snoc hwithin (by omega)
    · rw [afterAll_snoc] at hk
      have hgrows : (c.afterAll rs).history.length < ((c.afterAll rs).after r).history.length := by omega
      obtain ⟨target, replacement, rfl, hmade⟩ := edit_of_grows hgrows
      have hheight := history_length_edited hmade
      rw [afterAll_snoc] at hheight
      refine ⟨rs, target, replacement, [], rfl, hmade, by omega, fun front hfront => ?_⟩
      rw [List.prefix_nil.mp hfront]
      exact Nat.le_refl _

theorem exists_stands (hstart : c.history = []) {rs : List Revision}
    (h : (c.afterAll rs).history ≠ []) :
    ∃ before target replacement between, rs = before ++ .edit target replacement :: between ∧
      c.Stands before target replacement between := by
  have hpos := List.length_pos_iff.mpr h
  obtain ⟨before, target, replacement, between, rfl, hmade, hheight, hwithin⟩ :=
    exists_edit_at hstart (Nat.sub_one_lt_of_lt hpos)
  refine ⟨before, target, replacement, between, rfl, hmade, hwithin, ?_⟩
  have hlength := history_length (c.afterAll (before ++ [.edit target replacement])) between
  rw [← afterAll_append, ← List.append_cons, history_length_edited hmade] at hlength
  omega

theorem within_of_start (hstart : c.history = []) (rs : List Revision) :
    ∀ front, front <+: c.log rs → rollbacks front ≤ edits front := by
  induction rs using List.reverseRecOn with
  | nil =>
    intro front hfront
    rw [List.prefix_nil.mp hfront]
    exact Nat.le_refl _
  | append_singleton rs r ih =>
    have hlength := c.history_length (rs ++ [r])
    rw [hstart, List.length_nil] at hlength
    rw [log_snoc] at hlength ⊢
    exact within_snoc ih (by omega)

theorem afterAll_undone (hstart : c.history = []) {rs : List Revision}
    (h : (c.afterAll rs).history = []) : c.afterAll rs = c := by
  have hlength := c.history_length rs
  rw [hstart, h] at hlength
  exact afterAll_balanced ⟨within_of_start hstart rs, by omega⟩

theorem history_rollback (c : CodeBuffer) : (c.after .rollback).history = c.history.tail := by
  obtain ⟨text, history⟩ := c
  cases history <;> rfl

theorem history_rollbacks (c : CodeBuffer) (n : Nat) :
    (c.afterAll (List.replicate n .rollback)).history = c.history.drop n := by
  induction n generalizing c with
  | zero => rfl
  | succ n ih =>
    have hfirst : c.afterAll (List.replicate (n + 1) .rollback) =
      (c.after .rollback).afterAll (List.replicate n .rollback) := rfl
    rw [hfirst, ih, history_rollback, List.drop_tail]

/-- What requests to a fresh buffer do, with the number of edits that are not taken back as a count of the
requests that were granted. -/
structure ExactUndo (start : CodeBuffer) (rs : List Revision) : Prop where
  edit_granted (target replacement : String) :
    ((start.afterAll rs).revise? (.edit target replacement)).isSome ↔
      target ≠ "" ∧ target.toList <:+: (start.afterAll rs).text.toList
  edit_replaces (target replacement : String) (d : CodeBuffer) :
    (start.afterAll rs).revise? (.edit target replacement) = some d →
      ∃ pieces, Cut target.toList (start.afterAll rs).text.toList pieces ∧ 2 ≤ pieces.length ∧
        d.text.toList = replacement.toList.intercalate pieces
  refused (r : Revision) :
    (start.afterAll rs).revise? r = none → (start.afterAll rs).after r = start.afterAll rs
  open_edits : (start.afterAll rs).history.length + rollbacks (start.log rs) = edits (start.log rs)
  rollback_refused : (start.afterAll rs).revise? .rollback = none ↔
    edits (start.log rs) = rollbacks (start.log rs)
  latest_edit : edits (start.log rs) ≠ rollbacks (start.log rs) →
    ∃ before target replacement between, rs = before ++ .edit target replacement :: between ∧
      start.Stands before target replacement between
  rollback_restores (before between : List Revision) (target replacement : String) :
    rs = before ++ .edit target replacement :: between →
    start.Stands before target replacement between →
    (start.afterAll rs).revise? .rollback = some (start.afterAll before)
  undone : start.afterAll
    (rs ++ List.replicate (edits (start.log rs) - rollbacks (start.log rs)) .rollback) = start

theorem undo_exact (text : String) (rs : List Revision) : ExactUndo ⟨text, []⟩ rs := by
  have hopen := history_length ⟨text, []⟩ rs
  rw [List.length_nil, Nat.zero_add] at hopen
  refine
    { edit_granted := fun target replacement => edit?_isSome _ target replacement
      edit_replaces := fun target replacement d => edit?_replaces
      refused := fun r hr => by rw [after, hr, Option.getD_none]
      open_edits := hopen
      rollback_refused := ?_
      latest_edit := fun hlevel => exists_stands rfl fun hnil => ?_
      rollback_restores := ?_
      undone := afterAll_undone rfl ?_ }
  · have hrollback := rollback?_isSome (c := afterAll ⟨text, []⟩ rs)
    rw [revise?, ← Option.not_isSome_iff_eq_none, hrollback, not_not, ← List.length_eq_zero_iff]
    omega
  · rw [hnil, List.length_nil] at hopen
    omega
  · rintro before between target replacement rfl hstands
    exact hstands.rollback
  · rw [afterAll_append, history_rollbacks]
    exact List.drop_of_length_le (by omega)

/-- The first edits bring their own targets back; the fifth finds none. -/
def doubling : List Revision :=
  [.edit "a" "aa", .edit "aa" "a", .rollback, .edit "aa" "", .edit "d" "e", .edit "b" "c"]

theorem doubling_undone :
    (afterAll ⟨"a b", []⟩ doubling).text = " c" ∧ edits (log ⟨"a b", []⟩ doubling) = 4 ∧
      rollbacks (log ⟨"a b", []⟩ doubling) = 1 ∧
      afterAll ⟨"a b", []⟩ (doubling ++ List.replicate 3 .rollback) = ⟨"a b", []⟩ :=
  ⟨by decide, by decide, by decide, (undo_exact "a b" doubling).undone⟩

end CodeBuffer

end Apiary
