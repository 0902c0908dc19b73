import Apiary.Files.Project
import Apiary.Proofs.Files.Tree
import Apiary.Proofs.Image.RoundTrip

/-!
What is written to a project at a path is read back there: the segments of a project's path only descend, so
that a walk goes where the write went. No path that a script chooses leads out of its directory.
-/

namespace Apiary

namespace Directory

def Descending (segments : List String) : Prop :=
  ∀ name ∈ segments, name ≠ "" ∧ name ≠ "." ∧ name ≠ parentSegment

theorem descending_of_projectSegments {path : String} {segments : List String}
    (h : projectSegments? path = some segments) : Descending segments := by
  unfold projectSegments? at h
  dsimp only at h
  split at h
  · cases h
  · next hnot =>
    cases h
    rw [Bool.or_eq_true, not_or, List.contains_iff_mem] at hnot
    intro name hname
    have hkept := (List.mem_filter.mp hname).2
    rw [decide_eq_true_eq] at hkept
    exact ⟨hkept.1, hkept.2, fun hparent => hnot.2 (hparent ▸ hname)⟩

theorem descending_of_resolve {path : String} {segments : List String}
    (h : Project.resolve path = .ok segments) : Descending segments := by
  unfold Project.resolve at h
  split at h
  · next hs =>
    cases h
    exact descending_of_projectSegments hs
  · cases h

theorem walk_name {name : String} {rest : List String} {d : Directory} {above : List Directory} {e : Entry}
    (hname : name ≠ "" ∧ name ≠ "." ∧ name ≠ parentSegment) (hlong : ¬ longestName < name.utf8ByteSize)
    (he : d.lookup name = some e) : walk above (.folder d) (name :: rest) = walk (d :: above) e rest := by
  have hself : ¬ (name = "" || name = ".") = true := by simp [hname.1, hname.2.1]
  have hparent : ¬ name = ".." := hname.2.2
  simp only [walk, hself, hparent, hlong, he, if_false, Bool.false_eq_true]

theorem walk_write {bytes : List UInt8} {segments : List String} {d d' : Directory}
    (hs : Descending segments) (h : write bytes segments d = .ok d') (above : List Directory) :
    walk above (.folder d') segments = .ok (.file bytes) := by
  induction segments generalizing d d' above with
  | nil => cases h
  | cons name rest ih =>
    have hname := hs name List.mem_cons_self
    unfold write at h
    split at h
    · cases h
    · next hlong =>
      split at h
      · cases h
      · cases h
        rw [walk_name hname hlong (by rw [lookup_setField, if_pos rfl]), walk]
      · cases h
      · cases h
      · next next rest entries hfound =>
        cases hw : write bytes (next :: rest) entries with
        | error fault =>
          rw [hw] at h
          cases h
        | ok e =>
          rw [hw] at h
          cases h
          rw [walk_name hname hlong (by rw [lookup_setField, if_pos rfl])]
          exact ih (fun n hn => hs n (List.mem_cons_of_mem _ hn)) hw _

end Directory

theorem fileText?_toUTF8 (text : String) : fileText? text.toUTF8.toList = some text :=
  ByteReader.toText?_ofText text

theorem Project.read_of_write {p p' : Project} {path text : String} (h : p.write path text = .ok p') :
    p'.read path = .ok text := by
  unfold Project.write at h
  cases hs : resolve path with
  | error e =>
    rw [hs] at h
    cases h
  | ok segments =>
    simp only [hs, bind, Except.bind] at h
    cases hw : p.writeAt text.toUTF8.toList segments with
    | error fault =>
      rw [hw] at h
      cases h
    | ok q =>
      rw [hw] at h
      cases h
      have hfile : p'.file? segments = some text.toUTF8.toList := by
        unfold writeAt at hw
        split at hw
        · cases hw
        · cases hw
        · next d _ _ =>
          cases hd : Directory.write text.toUTF8.toList segments d with
          | error fault =>
            rw [hd] at hw
            cases hw
          | ok d' =>
            rw [hd] at hw
            cases hw
            have hwalk := Directory.walk_write (Directory.descending_of_resolve hs) hd []
            simp only [file?, bind, Option.bind, Directory.entry, hwalk]
      simp only [Project.read, hs, bind, Except.bind, hfile, fileText?_toUTF8]
      rfl

namespace Directory

theorem walk_above {names : List String} (h : Descending names) (above above' : List Directory) (e : Entry) :
    walk above e names = walk above' e names := by
  induction names generalizing above above' e with
  | nil => simp [walk]
  | cons name rest ih =>
    obtain ⟨⟨hne, hpoint, hparent⟩, hrest⟩ := List.forall_mem_cons.mp h
    have hself : ¬ (name = "" || name = ".") = true := by simp [hne, hpoint]
    have hup : ¬ name = ".." := hparent
    cases e with
    | file bytes => simp [walk]
    | folder d =>
      simp only [walk, if_neg hself, if_neg hup]
      split
      · rfl
      · cases d.lookup name with
        | none => rfl
        | some e => exact ih hrest _ _ _

/-- Names that lead from any directory to a place below it, one level for each name. -/
structure StaysBelow (names : List String) : Prop where
  ne_nil : names ≠ []
  descending : Descending names
  segments : ∀ s ∈ names, IsSegment s
  path {above : List String} : (∀ s ∈ above, IsSegment s) →
    pathSegments (joinSegments (above ++ names)) = pathSegments (joinSegments above) ++ names
  walk (above : List Directory) (d : Directory) : walk above (.folder d) names = d.entry names

theorem Descending.staysBelow {names : List String} (h : Descending names) (hsegments : ∀ s ∈ names, IsSegment s)
    (hne : names ≠ []) : StaysBelow names where
  ne_nil := hne
  descending := h
  segments := hsegments
  path {above} habove := by
    have hcounts : names.filter counts = names :=
      List.filter_eq_self.mpr fun s hs => decide_eq_true ⟨(h s hs).1, (h s hs).2.1⟩
    have hall : ∀ s ∈ above ++ names, IsSegment s := List.forall_mem_append.mpr ⟨habove, hsegments⟩
    rw [pathSegments_join hall, pathSegments_join habove, List.filter_append, hcounts]
  walk above d := walk_above h above [] _

end Directory

section Chosen

variable {names : List String} (h : ∀ s ∈ names, IsSegment s)

include h

theorem projectSegments_join : projectSegments? (joinSegments names) =
    if parentSegment ∈ names ∨ ∀ s ∈ names, s = "" ∨ s = "." then none else some (names.filter counts) := by
  have hparent : parentSegment ∈ names.filter counts ↔ parentSegment ∈ names := by
    rw [List.mem_filter, and_iff_left]
    decide
  have hempty : names.filter counts = [] ↔ ∀ s ∈ names, s = "" ∨ s = "." := by
    rw [List.filter_eq_nil_iff]
    refine forall₂_congr fun s _ => ?_
    rw [counts, decide_eq_true_eq, not_and_or, not_not, not_not]
  simp only [projectSegments?, pathSegments_join h, Bool.or_eq_true, List.isEmpty_iff, List.contains_iff_mem, hparent, hempty,
    or_comm]

theorem checkpointName_join :
    checkpointName (joinSegments names) ∈ unnamedCheckpoint :: (names.filter counts).filter (· ≠ parentSegment) := by
  rw [checkpointName, pathSegments_join h]
  split
  · next name hname =>
    split
    · exact List.mem_cons_self
    · next hparent =>
      exact List.mem_cons_of_mem _ (List.mem_filter.mpr ⟨List.mem_of_getLast? hname, decide_eq_true hparent⟩)
  · exact List.mem_cons_self

theorem checkpointName_staysBelow : Directory.StaysBelow [checkpointName (joinSegments names)] := by
  have hname : ∀ s ∈ [checkpointName (joinSegments names)], (s ≠ "" ∧ s ≠ "." ∧ s ≠ parentSegment) ∧ IsSegment s := by
    rw [List.forall_mem_singleton]
    rcases List.mem_cons.mp (checkpointName_join h) with heq | hmem
    · rw [heq]
      exact ⟨by decide, by simp [IsSegment, unnamedCheckpoint]⟩
    · rw [List.mem_filter, List.mem_filter, counts, decide_eq_true_eq, decide_eq_true_eq] at hmem
      obtain ⟨⟨hmem, hne, hpoint⟩, hparent⟩ := hmem
      exact ⟨⟨hne, hpoint, hparent⟩, h _ hmem⟩
  exact Directory.Descending.staysBelow (fun s hs => (hname s hs).1) (fun s hs => (hname s hs).2) (List.cons_ne_nil _ _)

end Chosen

/-- A project's path is refused exactly when it has a parent segment or no segment that counts. Any other one, and
every name of a checkpoint, leads to a place below its directory. -/
theorem chosen_paths_stay_below (path : String) :
    ∃ names, names ≠ [] ∧ (∀ s ∈ names, IsSegment s) ∧ path = joinSegments names ∧
      (if parentSegment ∈ names ∨ ∀ s ∈ names, s = "" ∨ s = "." then
        Project.resolve path = .error (.invalidPath path)
      else Project.resolve path = .ok (names.filter counts) ∧ Directory.StaysBelow (names.filter counts)) ∧
      Directory.StaysBelow [checkpointName path] := by
  obtain ⟨names, hne, hsegments, rfl⟩ := exists_segments path
  refine ⟨names, hne, hsegments, rfl, ?_, checkpointName_staysBelow hsegments⟩
  have hresolve := projectSegments_join hsegments
  split
  · next hrefused =>
    rw [if_pos hrefused] at hresolve
    rw [Project.resolve, hresolve]
  · next hkept =>
    rw [if_neg hkept] at hresolve
    have hdescending := Directory.descending_of_projectSegments hresolve
    rw [Project.resolve, hresolve]
    refine ⟨rfl, hdescending.staysBelow (fun s hs => hsegments s (List.mem_of_mem_filter hs)) ?_⟩
    intro hnil
    refine hkept (.inr fun s hs => ?_)
    have hout := List.filter_eq_nil_iff.mp hnil s hs
    rwa [counts, decide_eq_true_eq, not_and_or, not_not, not_not] at hout

end Apiary
