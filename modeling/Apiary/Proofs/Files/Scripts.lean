import Apiary.Files.Project
import Apiary.Proofs.Files.Shown
import Apiary.Proofs.Script.Agreement.Statement
import Apiary.Proofs.Script.Seam.Program
import Mathlib.Algebra.Order.BigOperators.Group.List

/-!
The scripts of a project as one text. They stand in it by their paths, each once, and the text is read as one program
after another, if no script goes on with the one before it.
-/

namespace Apiary

namespace FileNode

variable {d : Directory}

theorem path_eq_id (h : (Entry.folder d).Tidy) {n : FileNode} (hn : n ∈ d.nodes) : path d.nodes n = n.id := by
  have hlisted := h.visible
  rw [Entry.visible] at hlisted
  obtain ⟨names, t, hne, ht, rfl⟩ := mem_entries.mp hn
  exact path_eq hlisted hne ht

theorem ids_distinct (h : (Entry.folder d).Tidy) : d.nodes.Pairwise fun m n => m.id ≠ n.id := by
  have hlisted := h.visible
  rw [Entry.visible] at hlisted
  have horder : SiblingsInOrder (entryNodes (folderId []) ([] : List String).length _) :=
    entryNodes_inOrder (by simp) _ hlisted
  refine List.Pairwise.imp_of_mem ?_ horder
  intro m n hm hn hlt hid
  obtain ⟨names, t, hne, ht, rfl⟩ := mem_entries.mp hm
  obtain ⟨names', t', hne', ht', rfl⟩ := mem_entries.mp hn
  have hsegments {names : List String} {t : Entry} (ht : Entry.Leads _ names t) : ∀ s ∈ names, IsSegment s :=
    fun s hs => (hlisted.names_ok ht s hs).2
  obtain rfl := joinSegments_inj (hsegments ht) (hsegments ht') hne hne' hid
  exact absurd (hlt rfl) (lt_irrefl _)

end FileNode

namespace Project

theorem insertByPath_perm (n : FileNode) (ns : List FileNode) : (insertByPath n ns).Perm (n :: ns) := by
  induction ns with
  | nil => exact .refl _
  | cons m ns ih =>
    unfold insertByPath
    split
    · exact .refl _
    · exact (ih.cons m).trans (.swap n m ns)

theorem insertByPath_sorted {n : FileNode} {ns : List FileNode} (h : ns.Pairwise fun l m => l.id < m.id)
    (hnew : ∀ m ∈ ns, m.id ≠ n.id) : (insertByPath n ns).Pairwise fun l m => l.id < m.id := by
  induction ns with
  | nil => exact List.pairwise_singleton _ _
  | cons m ns ih =>
    obtain ⟨hm, hns⟩ := List.pairwise_cons.mp h
    obtain ⟨hne, hnew⟩ := List.forall_mem_cons.mp hnew
    unfold insertByPath
    split
    · next hlt =>
      refine List.pairwise_cons.mpr ⟨fun l hl => ?_, h⟩
      rcases List.mem_cons.mp hl with rfl | hl
      · exact hlt
      · exact lt_trans hlt (hm l hl)
    · next hle =>
      refine List.pairwise_cons.mpr ⟨fun l hl => ?_, ih hns hnew⟩
      rcases List.mem_cons.mp ((insertByPath_perm n ns).mem_iff.mp hl) with rfl | hl
      · exact lt_of_le_of_ne (not_lt.mp hle) hne
      · exact hm l hl

section Fold

variable {ns done : List FileNode}

theorem foldl_insertByPath_perm (ns done : List FileNode) :
    (ns.foldl (fun done n => insertByPath n done) done).Perm (ns ++ done) := by
  induction ns generalizing done with
  | nil => exact .refl _
  | cons n ns ih => exact (ih _).trans (((insertByPath_perm n done).append_left ns).trans List.perm_middle)

theorem foldl_insertByPath_sorted (hdone : done.Pairwise fun m n => m.id < n.id)
    (hnew : (ns ++ done).Pairwise fun m n => m.id ≠ n.id) :
    (ns.foldl (fun done n => insertByPath n done) done).Pairwise fun m n => m.id < n.id := by
  induction ns generalizing done with
  | nil => exact hdone
  | cons n ns ih =>
    obtain ⟨hn, -⟩ := List.pairwise_cons.mp hnew
    refine ih (insertByPath_sorted hdone fun m hm => (hn m (List.mem_append_right _ hm)).symm) ?_
    refine hnew.perm ?_ Ne.symm
    exact List.perm_middle.symm.trans ((insertByPath_perm n done).symm.append_left ns)

end Fold

theorem scripts_perm (d : Directory) : (scripts d).Perm (d.nodes.filter isScript) := by
  have hall := foldl_insertByPath_perm (d.nodes.filter isScript) []
  rwa [List.append_nil] at hall

theorem scripts_sorted {d : Directory} (h : (Entry.folder d).Tidy) :
    (scripts d).Pairwise fun m n => m.id < n.id := by
  refine foldl_insertByPath_sorted .nil ?_
  rw [List.append_nil]
  exact (FileNode.ids_distinct h).filter _

/-- The line before a script that names it. -/
def header (n : FileNode) : String := "// --- File: " ++ n.name ++ " ---\n"

/-- The text of scripts, without the line before the first of them. -/
def textAfter : FileNode → List FileNode → String
  | n, [] => n.content
  | n, m :: rest => n.content ++ ("\n\n" ++ header m ++ textAfter m rest)

theorem intercalate_marked (n : FileNode) (ns : List FileNode) :
    "\n\n".intercalate ((n :: ns).map marked) = header n ++ textAfter n ns := by
  induction ns generalizing n with
  | nil => simp [marked, header, textAfter]
  | cons m ns ih =>
    rw [List.map_cons, List.map_cons, String.intercalate_cons_cons, ← List.map_cons, ih]
    simp [marked, header, textAfter, String.append_assoc]

theorem break_header {n : FileNode} (h : '\n' ∉ n.name.toList) : Break (header n).toList := by
  have hline : '\n' ∉ " --- File: ".toList ++ n.name.toList ++ " ---".toList := by simp [h]
  simpa [header, String.toList_append] using Break.comment hline

-- A line break in the name ends the comment, and what comes after it is read.
example : (parse (header ⟨"a\n).gb", "a\n).gb", .file, none, "", 0⟩)).isOk = false := by decide +kernel

theorem break_between {n : FileNode} (h : '\n' ∉ n.name.toList) : Break ("\n\n" ++ header n).toList := by
  have hblank : isBlank '\n' = true := by decide
  simpa [String.toList_append] using ((break_header h).blank hblank).blank hblank

/-- The tokens of a source, none where it has no tokens. -/
def tokensOf (n : FileNode) : Tokens := (tokenize n.content).toOption.getD ⟨[], .start, false⟩

theorem tokensOf_eq {n : FileNode} {p : Program} (h : parse n.content = .ok p) :
    tokenize n.content = .ok (tokensOf n) := by
  obtain ⟨ts, hts, -⟩ := ok_of_bind h
  rw [tokensOf, hts]
  rfl

section Text

variable {programs : FileNode → Program} {n : FileNode} {ns : List FileNode}

theorem tokenize_textAfter (hparse : ∀ m ∈ n :: ns, parse m.content = .ok (programs m))
    (hnames : ∀ m ∈ n :: ns, '\n' ∉ m.name.toList) :
    ∃ vs, tokenize (textAfter n ns) = .ok vs ∧ vs.unplaced = ((tokensOf n).joined (ns.map tokensOf)).unplaced := by
  induction ns generalizing n with
  | nil => exact ⟨_, tokensOf_eq (hparse n List.mem_cons_self), rfl⟩
  | cons m ns ih =>
    obtain ⟨hn, hparse⟩ := List.forall_mem_cons.mp hparse
    obtain ⟨-, hnames⟩ := List.forall_mem_cons.mp hnames
    obtain ⟨us, hus, hsame⟩ := ih hparse hnames
    have hbreak := break_between (hnames m List.mem_cons_self)
    have hstart : ("\n\n" ++ header m).toList.head? = some '\n' := by
      rw [String.toList_append]
      rfl
    obtain ⟨vs, hvs, hjoined⟩ := tokenize_joined (tokensOf_eq hn) hus hbreak hstart
    refine ⟨vs, by rw [textAfter, hvs], ?_⟩
    rw [hjoined, Tokens.unplaced_extend, Tokens.unplaced_opened, hsame, ← Tokens.unplaced_opened, ← Tokens.unplaced_extend]
    rfl

/-- The fuel for all the scripts is that for their text. -/
theorem length_textAfter (n : FileNode) (ns : List FileNode) :
    ((n :: ns).map fun m => m.content.length + 2).sum ≤ (textAfter n ns).length + 2 := by
  induction ns generalizing n with
  | nil => simp [textAfter]
  | cons m ns ih =>
    have hlater := ih m
    rw [List.map_cons, List.sum_cons, textAfter]
    simp only [String.length_append]
    have hline : "\n\n".length = 2 := rfl
    omega

theorem tidy_tokensOf {m : FileNode} {p : Program} (h : parse m.content = .ok p) :
    ∀ t ∈ (tokensOf m).ahead, t.lexeme.Tidy :=
  (tokens_tile_source (tokensOf_eq h)).1.tidy

/-- The tokens of scripts in turn are those of their text, apart from where they stand. -/
theorem tokenize_scripts (hparse : ∀ m ∈ n :: ns, parse m.content = .ok (programs m))
    (hnames : ∀ m ∈ n :: ns, '\n' ∉ m.name.toList) :
    ∃ vs, tokenize (header n ++ textAfter n ns) = .ok vs ∧ ((tokensOf n).joined (ns.map tokensOf)).opened.Alike vs := by
  obtain ⟨us, hus, hsame⟩ := tokenize_textAfter hparse hnames
  obtain ⟨vs, hvs, hopened⟩ := tokenize_behind hus (break_header (hnames n List.mem_cons_self))
  refine ⟨vs, hvs, fun t ht => ?_, ?_⟩
  · have hlexeme := List.mem_map_of_mem (f := Token.lexeme) ht
    rw [Tokens.lexemes_opened, Tokens.lexemes_joined] at hlexeme
    obtain ⟨us', hus', hlexeme⟩ := List.mem_flatMap.mp hlexeme
    obtain ⟨m, hm, rfl⟩ := List.mem_map.mp (List.map_cons ▸ hus')
    obtain ⟨t', ht', hsame'⟩ := List.mem_map.mp hlexeme
    exact hsame' ▸ tidy_tokensOf (hparse m hm) t' ht'
  · rw [hopened, Tokens.unplaced_opened, hsame, Tokens.unplaced_opened]

theorem parse_scripts (hparse : ∀ m ∈ n :: ns, parse m.content = .ok (programs m))
    (hnames : ∀ m ∈ n :: ns, '\n' ∉ m.name.toList)
    (hapart : ((n :: ns).filter fun m => !(tokensOf m).atEnd).IsChain fun l m =>
      (tokensOf l).Apart (programs l) (tokensOf m)) :
    parse (header n ++ textAfter n ns) = .ok ((n :: ns).flatMap programs) := by
  obtain ⟨vs, hvs, halike⟩ := tokenize_scripts hparse hnames
  have hfuel := length_textAfter n ns
  generalize hlevel : (header n ++ textAfter n ns).length + 2 = fuel
  have hle : (textAfter n ns).length + 2 ≤ fuel := by
    rw [← hlevel, String.length_append]
    omega
  have hprograms : ∀ m ∈ n :: ns, ∃ us, (Rules.level fuel).program (m.content.length + 2) (tokensOf m) =
      .ok (programs m, us) := by
    intro m hm
    obtain ⟨ts, hts, h⟩ := ok_of_bind (hparse m hm)
    obtain ⟨⟨p, rest⟩, hp, h⟩ := ok_of_bind h
    cases h
    obtain rfl : ts = tokensOf m := Except.ok.inj (hts.symm.trans (tokensOf_eq (hparse m hm)))
    have hmem : m.content.length + 2 ∈ (n :: ns).map fun m => m.content.length + 2 := List.mem_map.mpr ⟨m, hm, rfl⟩
    have hshorter : m.content.length + 2 ≤ fuel :=
      le_trans (List.single_le_sum (fun _ _ => Nat.zero_le _) _ hmem) (le_trans hfuel hle)
    have hself : (tokensOf m).Alike (tokensOf m) := ⟨tidy_tokensOf (hparse m hm), rfl⟩
    obtain ⟨-, us, hus, -⟩ := ((Rules.level_agree hshorter).program le_rfl).answer hself hp
    exact ⟨us, hus⟩
  obtain ⟨us, hus⟩ := Seam.program_joined hprograms hapart
  obtain ⟨ws, hws⟩ := Seam.program_opened hus
  obtain ⟨-, ws', hws', -⟩ := ((Rules.level_agree le_rfl).program (le_trans hfuel hle)).answer halike hws
  simp only [parse, hvs, hlevel, bind, Except.bind, hws', pure, Except.pure]

end Text

/-- The text of a project's scripts is the program of each in turn, in the order of their paths, where none goes on
with the one before it. -/
theorem scripts_in_turn {d : Directory} {programs : FileNode → Program} (hd : (Entry.folder d).Tidy)
    (hsome : scripts d ≠ []) (hnames : ∀ n ∈ scripts d, '\n' ∉ n.name.toList)
    (hparse : ∀ n ∈ scripts d, parse n.content = .ok (programs n))
    (hapart : ((scripts d).filter fun n => !(tokensOf n).atEnd).IsChain fun m n =>
      (tokensOf m).Apart (programs m) (tokensOf n)) :
    (∃ text, (⟨some d⟩ : Project).concat = .ok text ∧ parse text = .ok ((scripts d).flatMap programs)) ∧
      (scripts d).Perm (d.nodes.filter isScript) ∧
      (scripts d).Pairwise fun m n => FileNode.path d.nodes m < FileNode.path d.nodes n := by
  refine ⟨?_, scripts_perm d, ?_⟩
  · simp only [concat]
    cases hscripts : scripts d with
    | nil => exact absurd hscripts hsome
    | cons n ns =>
      rw [hscripts] at hnames hparse hapart
      exact ⟨_, rfl, by rw [intercalate_marked, parse_scripts hparse hnames hapart]⟩
  · refine (scripts_sorted hd).imp_of_mem fun {m n} hm hn hlt => ?_
    have hnode {l : FileNode} (hl : l ∈ scripts d) : l ∈ d.nodes :=
      (List.mem_filter.mp ((scripts_perm d).mem_iff.mp hl)).1
    rwa [FileNode.path_eq_id hd (hnode hm), FileNode.path_eq_id hd (hnode hn)]

/-- The program of a source, without statements where it has none. -/
def programOf (n : FileNode) : Program := (parse n.content).toOption.getD []

theorem parse_programOf {n : FileNode} (h : (parse n.content).isOk = true) : parse n.content = .ok (programOf n) := by
  rw [programOf]
  cases hn : parse n.content with
  | error e =>
    rw [hn] at h
    cases h
  | ok p => rfl

/-- Scripts with a semicolon at the end and without, one that is a comment, and a file that is no script. -/
def apartScripts : Directory :=
  [("lib", .folder [("c.gb", .file "log(x);".toUTF8.toList)]), ("notes.txt", .file []),
    ("a.gb", .file "var x = 1".toUTF8.toList), ("b.gb", .file "// none".toUTF8.toList)]

theorem apartScripts_in_turn : ∃ text, (⟨some apartScripts⟩ : Project).concat = .ok text ∧
    parse text = .ok ((scripts apartScripts).flatMap programOf) ∧
    (scripts apartScripts).map FileNode.name = ["a.gb", "b.gb", "c.gb"] := by
  have hlib : (Entry.folder [("c.gb", .file "log(x);".toUTF8.toList)]).Tidy :=
    .folder (by decide) (by simp [EntryName, IsSegment]) (by simpa using .file)
  have htidy : (Entry.folder apartScripts).Tidy :=
    .folder (by decide) (by simp [apartScripts, EntryName, IsSegment])
      (by simpa [apartScripts] using ⟨hlib, .file, .file, .file⟩)
  have hparse : ∀ n ∈ scripts apartScripts, (parse n.content).isOk = true := by decide +kernel
  obtain ⟨⟨text, hconcat, htext⟩, -, -⟩ := scripts_in_turn htidy (by decide +kernel) (by decide +kernel)
    (fun n hn => parse_programOf (hparse n hn)) (by decide +kernel)
  exact ⟨text, hconcat, htext, by decide +kernel⟩

/-- Two scripts that are one statement together. -/
def continuedScript : Directory :=
  [("a.gb", .file "console.log".toUTF8.toList), ("b.gb", .file "('hi')".toUTF8.toList)]

theorem continuedScript_not_in_turn : (∀ n ∈ scripts continuedScript, parse n.content = .ok (programOf n)) ∧
    ∃ text, (⟨some continuedScript⟩ : Project).concat = .ok text ∧
      parse text ≠ .ok ((scripts continuedScript).flatMap programOf) := by
  have hparse : ∀ n ∈ scripts continuedScript, (parse n.content).isOk = true := by decide +kernel
  refine ⟨fun n hn => parse_programOf (hparse n hn), ?_⟩
  have htwo : ((scripts continuedScript).flatMap programOf).length = 2 := by decide +kernel
  have hone : (⟨some continuedScript⟩ : Project).concat.toOption.any
      (fun text => (parse text).toOption.any (·.length = 1)) = true := by decide +kernel
  cases hconcat : (⟨some continuedScript⟩ : Project).concat with
  | error e =>
    rw [hconcat] at hone
    cases hone
  | ok text =>
    refine ⟨text, rfl, fun htext => ?_⟩
    rw [hconcat] at hone
    simp [Except.toOption, htext, htwo] at hone

end Project

end Apiary
