import Apiary.Files.Directory
import Apiary.Proofs.Text.Pieces
import Mathlib.Data.List.Basic
import Mathlib.Data.List.Nodup
import Mathlib.Data.String.Basic

/-!
Segments of a path. Joined segments are cut again where they were joined; empty segments and points do not count.
-/

namespace Apiary

def IsSegment (name : String) : Prop := '/' ∉ name.toList

def joinSegments (names : List String) : String := "/".intercalate names

theorem splitText_join {names : List String} (h : ∀ s ∈ names, IsSegment s) (hne : names ≠ []) :
    splitText "/" (joinSegments names) = names := by
  have hslash : "/".toList = ['/'] := rfl
  have hcut : Cut ['/'] (['/'].intercalate (names.map String.toList)) (names.map String.toList) :=
    cut_marked (by simpa using hne) (by simpa [IsSegment] using h)
  rw [splitText, splitChars, joinSegments, String.toList_intercalate, hslash]
  simp [hcut.splitFrom_eq, Function.comp_def]

/-- Every text is a join of segments. -/
theorem exists_segments (path : String) :
    ∃ names, names ≠ [] ∧ (∀ s ∈ names, IsSegment s) ∧ path = joinSegments names := by
  obtain ⟨names, hcut⟩ := exists_cut (List.cons_ne_nil '/' []) path.toList
  refine ⟨names.map String.ofList, by simpa using hcut.ne_nil, by simpa [IsSegment] using hcut.not_mem, ?_⟩
  have hslash : "/".toList = ['/'] := rfl
  rw [← String.toList_inj, joinSegments, String.toList_intercalate, hslash, ← hcut.join]
  simp [Function.comp_def]

def counts (s : String) : Bool := s ≠ "" ∧ s ≠ "."

theorem pathSegments_join {names : List String} (h : ∀ s ∈ names, IsSegment s) :
    pathSegments (joinSegments names) = names.filter counts := by
  cases names with
  | nil => rfl
  | cons s names =>
    rw [pathSegments, splitText_join h (by simp)]
    rfl

theorem joinSegments_inj {names names' : List String} (h : ∀ s ∈ names, IsSegment s) (h' : ∀ s ∈ names', IsSegment s)
    (hne : names ≠ []) (hne' : names' ≠ []) (heq : joinSegments names = joinSegments names') : names = names' := by
  rw [← splitText_join h hne, heq, splitText_join h' hne']

theorem joinSegments_concat {names : List String} (hne : names ≠ []) (name : String) :
    joinSegments (names ++ [name]) = joinSegments names ++ "/" ++ name := by
  rw [joinSegments, String.intercalate_append_of_ne_nil hne (by simp), String.intercalate_singleton]
  rfl

theorem pathSegments_idle {names names' : List String} {s : String} (hs : s = "" ∨ s = ".")
    (h : ∀ s ∈ names ++ names', IsSegment s) :
    pathSegments (joinSegments (names ++ s :: names')) = pathSegments (joinSegments (names ++ names')) := by
  have hidle : counts s = false := by rcases hs with rfl | rfl <;> rfl
  have hsegment : IsSegment s := by rcases hs with rfl | rfl <;> simp [IsSegment]
  have hall : ∀ t ∈ names ++ s :: names', IsSegment t := by
    intro t ht
    rcases List.mem_append.mp ht with ht | ht
    · exact h t (List.mem_append_left _ ht)
    · rcases List.mem_cons.mp ht with rfl | ht
      · exact hsegment
      · exact h t (List.mem_append_right _ ht)
  rw [pathSegments_join hall, pathSegments_join h, List.filter_append, List.filter_append, List.filter_cons, hidle]
  rfl

end Apiary

/-!
The nodes of a directory tree show the tree: a path finds a node exactly when its names lead to an entry that is not
hidden, and a folder lists what it holds by name.
-/

namespace Apiary

def EntryName (name : String) : Prop := name ≠ "" ∧ IsSegment name

theorem isHidden_eq (name : String) : isHidden name = ['.'].isPrefixOf name.toList := by
  rw [Bool.eq_iff_iff, isHidden, String.startsWith_string_iff, List.isPrefixOf_iff_prefix]
  rfl

/-- The names of the entries that lie between an entry and one further down, and the name of that one. -/
inductive Entry.Leads : Entry → List String → Entry → Prop
  | here {e : Entry} : Leads e [] e
  | into {entries : List (String × Entry)} {name : String} {names : List String} {e target : Entry} :
    (name, e) ∈ entries → Leads e names target → Leads (.folder entries) (name :: names) target

inductive Entry.Tidy : Entry → Prop
  | file {bytes : List UInt8} : Tidy (.file bytes)
  | folder {entries : List (String × Entry)} : (entries.map Prod.fst).Nodup → (∀ x ∈ entries, EntryName x.1) →
    (∀ x ∈ entries, Tidy x.2) → Tidy (.folder entries)

inductive Entry.Listed : Entry → Prop
  | file {bytes : List UInt8} : Listed (.file bytes)
  | folder {entries : List (String × Entry)} : entries.Pairwise (fun x y => x.1 < y.1) →
    (∀ x ∈ entries, EntryName x.1) → (∀ x ∈ entries, Listed x.2) → Listed (.folder entries)

namespace Directory

theorem mem_insertSorted {x y : String × Entry} {d : Directory} : x ∈ insertSorted y d ↔ x = y ∨ x ∈ d := by
  induction d with
  | nil => simp [insertSorted]
  | cons z d ih =>
    unfold insertSorted
    split
    · simp
    · simp only [List.mem_cons, ih]
      tauto

theorem insertSorted_sorted {y : String × Entry} {d : Directory} (h : d.Pairwise fun x y => x.1 < y.1)
    (hnew : ∀ x ∈ d, x.1 ≠ y.1) : (insertSorted y d).Pairwise fun x y => x.1 < y.1 := by
  induction d with
  | nil => simp [insertSorted]
  | cons z d ih =>
    obtain ⟨hz, hd⟩ := List.pairwise_cons.mp h
    unfold insertSorted
    split
    · next hlt =>
      refine List.pairwise_cons.mpr ⟨fun x hx => ?_, h⟩
      rcases List.mem_cons.mp hx with rfl | hx
      · exact hlt
      · exact lt_trans hlt (hz x hx)
    · next hle =>
      refine List.pairwise_cons.mpr ⟨fun x hx => ?_, ih hd fun x hx => hnew x (List.mem_cons_of_mem _ hx)⟩
      rcases mem_insertSorted.mp hx with rfl | hx
      · exact lt_of_le_of_ne (not_lt.mp hle) (hnew z List.mem_cons_self)
      · exact hz x hx

theorem mem_sorted {x : String × Entry} {d : Directory} : x ∈ sorted d ↔ x ∈ d := by
  have key : ∀ (d done : Directory), x ∈ d.foldl (fun done e => insertSorted e done) done ↔ x ∈ d ∨ x ∈ done := by
    intro d
    induction d with
    | nil => simp
    | cons y d ih =>
      intro done
      rw [List.foldl_cons, ih, mem_insertSorted, List.mem_cons]
      tauto
  rw [sorted, key]
  simp

theorem sorted_sorted {d : Directory} (h : (d.map Prod.fst).Nodup) : (sorted d).Pairwise fun x y => x.1 < y.1 := by
  have key : ∀ (d done : Directory), done.Pairwise (fun x y => x.1 < y.1) → (d.map Prod.fst).Nodup →
      (∀ x ∈ d, ∀ y ∈ done, y.1 ≠ x.1) →
      (d.foldl (fun done e => insertSorted e done) done).Pairwise fun x y => x.1 < y.1 := by
    intro d
    induction d with
    | nil => exact fun done hdone _ _ => hdone
    | cons z d ih =>
      intro done hdone hnodup hnew
      obtain ⟨hz, hd⟩ := List.nodup_cons.mp hnodup
      refine ih _ (insertSorted_sorted hdone (hnew z List.mem_cons_self)) hd fun x hx y hy => ?_
      rcases mem_insertSorted.mp hy with rfl | hy
      · rintro heq
        exact hz (heq ▸ List.mem_map_of_mem hx)
      · exact hnew x (List.mem_cons_of_mem _ hx) y hy
  exact key d [] .nil h (by simp)

end Directory

theorem mem_visibleEntries {name : String} {e : Entry} {entries : List (String × Entry)} :
    (name, e) ∈ visibleEntries entries ↔
      isHidden name = false ∧ ∃ e', (name, e') ∈ entries ∧ e = e'.visible := by
  induction entries with
  | nil => simp [visibleEntries]
  | cons x entries ih =>
    obtain ⟨name', e'⟩ := x
    unfold visibleEntries
    split
    · next hhidden =>
      rw [ih]
      constructor
      · rintro ⟨hname, e', he', rfl⟩
        exact ⟨hname, e', List.mem_cons_of_mem _ he', rfl⟩
      · rintro ⟨hname, e', he', rfl⟩
        rcases List.mem_cons.mp he' with heq | he'
        · cases heq
          simp [hhidden] at hname
        · exact ⟨hname, e', he', rfl⟩
    · next hhidden =>
      rw [Bool.not_eq_true] at hhidden
      rw [List.mem_cons, ih]
      constructor
      · rintro (heq | ⟨hname, e', he', rfl⟩)
        · cases heq
          exact ⟨hhidden, _, List.mem_cons_self, rfl⟩
        · exact ⟨hname, e', List.mem_cons_of_mem _ he', rfl⟩
      · rintro ⟨hname, e', he', rfl⟩
        rcases List.mem_cons.mp he' with heq | he'
        · cases heq
          exact .inl rfl
        · exact .inr ⟨hname, e', he', rfl⟩

theorem visibleEntries_sublist (entries : List (String × Entry)) :
    ((visibleEntries entries).map Prod.fst).Sublist (entries.map Prod.fst) := by
  induction entries with
  | nil => simp [visibleEntries]
  | cons x entries ih =>
    obtain ⟨name, e⟩ := x
    unfold visibleEntries
    split
    · exact ih.cons _
    · exact ih.cons_cons _

namespace Entry

theorem leads_nil {e t : Entry} : e.Leads [] t ↔ t = e := by
  constructor
  · rintro ⟨⟩
    rfl
  · rintro rfl
    exact .here

theorem leads_cons {entries : List (String × Entry)} {name : String} {names : List String} {t : Entry} :
    (Entry.folder entries).Leads (name :: names) t ↔ ∃ e, (name, e) ∈ entries ∧ e.Leads names t := by
  constructor
  · rintro ⟨⟩
    exact ⟨_, ‹_›, ‹_›⟩
  · rintro ⟨e, he, ht⟩
    exact .into he ht

theorem leads_file {bytes : List UInt8} {name : String} {names : List String} {t : Entry} :
    ¬ (Entry.file bytes).Leads (name :: names) t := by
  rintro ⟨⟩

theorem Tidy.visible {e : Entry} (h : e.Tidy) : e.visible.Listed := by
  induction h with
  | file => exact .file
  | @folder entries hnodup hnames _ ih =>
    rw [Entry.visible]
    refine .folder (Directory.sorted_sorted (hnodup.sublist (visibleEntries_sublist entries))) ?_ ?_
    · rintro ⟨name, e⟩ hx
      obtain ⟨-, e', he', -⟩ := mem_visibleEntries.mp (Directory.mem_sorted.mp hx)
      exact hnames (name, e') he'
    · rintro ⟨name, e⟩ hx
      obtain ⟨-, e', he', rfl⟩ := mem_visibleEntries.mp (Directory.mem_sorted.mp hx)
      exact ih _ he'

theorem leads_visible {e target : Entry} {names : List String} :
    e.visible.Leads names target ↔
      (∀ s ∈ names, isHidden s = false) ∧ ∃ t, e.Leads names t ∧ target = t.visible := by
  induction names generalizing e with
  | nil => simp [leads_nil]
  | cons name names ih =>
    cases e with
    | file bytes => simp [Entry.visible, leads_file]
    | folder entries =>
      simp only [Entry.visible, leads_cons, Directory.mem_sorted, mem_visibleEntries, List.forall_mem_cons]
      constructor
      · rintro ⟨e, ⟨hname, e', he', rfl⟩, hleads⟩
        obtain ⟨hnames, t, ht, rfl⟩ := ih.mp hleads
        exact ⟨⟨hname, hnames⟩, t, ⟨e', he', ht⟩, rfl⟩
      · rintro ⟨⟨hname, hnames⟩, t, ⟨e', he', ht⟩, rfl⟩
        exact ⟨e'.visible, ⟨hname, e', he', rfl⟩, ih.mpr ⟨hnames, t, ht, rfl⟩⟩

variable {e t t' : Entry} {names : List String}

theorem Listed.names_ok (h : e.Listed) (hl : e.Leads names t) : ∀ s ∈ names, EntryName s := by
  induction hl with
  | here => simp
  | into hx _ ih =>
    cases h with
    | folder _ hnames hsub => exact List.forall_mem_cons.mpr ⟨hnames _ hx, ih (hsub _ hx)⟩

theorem entry_unique {entries : List (String × Entry)} (h : entries.Pairwise fun x y => x.1 < y.1) {name : String}
    (ht : (name, t) ∈ entries) (ht' : (name, t') ∈ entries) : t = t' := by
  have hnodup : (entries.map Prod.fst).Nodup := List.pairwise_map.mpr (h.imp ne_of_lt)
  exact (Prod.mk.inj (List.inj_on_of_nodup_map hnodup ht ht' rfl)).2

theorem Listed.leads_unique (h : e.Listed) (hl : e.Leads names t) (hl' : e.Leads names t') : t = t' := by
  induction hl with
  | here =>
    cases hl'
    rfl
  | into hx _ ih =>
    cases h with
    | folder hsorted _ hsub =>
      cases hl' with
      | into hx' hl' =>
        have heq := entry_unique hsorted hx hx'
        subst heq
        exact ih (hsub _ hx) hl'

theorem Leads.append {names' : List String} (h : e.Leads names t) (h' : t.Leads names' t') :
    e.Leads (names ++ names') t' := by
  induction h with
  | here => exact h'
  | into hx _ ih => exact .into hx (ih h')

theorem Leads.of_append {names' : List String} (h : e.Leads (names ++ names') t') :
    ∃ t, e.Leads names t ∧ t.Leads names' t' := by
  induction names generalizing e with
  | nil => exact ⟨e, .here, h⟩
  | cons name names ih =>
    cases h with
    | into hx h =>
      obtain ⟨t, ht, ht'⟩ := ih h
      exact ⟨t, .into hx ht, ht'⟩

end Entry

def Entry.content : Entry → String
  | .file bytes => (fileText? bytes).getD ""
  | .folder _ => ""

def Entry.kind : Entry → FileKind
  | .file _ => .file
  | .folder _ => .folder

namespace FileNode

/-- The id of the folder that the names lead to; the outermost one has none. -/
def folderId : List String → Option String
  | [] => none
  | name :: names => some (joinSegments (name :: names))

def nodeAt (names : List String) (e : Entry) : FileNode :=
  ⟨joinSegments names, names.getLastD "", e.kind, folderId names.dropLast, e.content, (names.length - 1 : Nat)⟩

theorem folderId_concat (names : List String) (name : String) :
    folderId (names ++ [name]) = some (joinSegments (names ++ [name])) := by
  cases names <;> rfl

theorem childId_folderId (names : List String) (name : String) :
    Directory.childId (folderId names) name = joinSegments (names ++ [name]) := by
  cases names with
  | nil => simp [folderId, Directory.childId, joinSegments]
  | cons first names =>
    rw [joinSegments_concat (by simp)]
    rfl

theorem folderId_inj {names names' : List String} (h : ∀ s ∈ names, IsSegment s) (h' : ∀ s ∈ names', IsSegment s)
    (heq : folderId names = folderId names') : names = names' := by
  cases names <;> cases names'
  · rfl
  · cases heq
  · cases heq
  · exact joinSegments_inj h h' (by simp) (by simp) (Option.some.inj heq)

mutual

theorem mem_nodes {n : FileNode} {name : String} (above : List String) (e : Entry) :
    n ∈ e.nodes (folderId above) above.length name ↔
      ∃ names t, e.Leads names t ∧ n = nodeAt (above ++ name :: names) t :=
  match e with
  | .file bytes => by
    have hhere : nodeAt (above ++ [name]) (.file bytes) =
        ⟨joinSegments (above ++ [name]), name, .file, folderId above, (fileText? bytes).getD "", above.length⟩ := by
      simp [nodeAt, Entry.kind, Entry.content]
    rw [Entry.nodes, childId_folderId, List.mem_singleton, ← hhere]
    constructor
    · rintro rfl
      exact ⟨[], _, .here, rfl⟩
    · rintro ⟨names, t, ht, rfl⟩
      cases ht
      rfl
  | .folder entries => by
    have hhere : nodeAt (above ++ [name]) (.folder entries) =
        ⟨joinSegments (above ++ [name]), name, .folder, folderId above, "", above.length⟩ := by
      simp [nodeAt, Entry.kind, Entry.content]
    have hbelow := mem_entryNodes (n := n) (above ++ [name]) entries
    rw [folderId_concat, List.length_append, List.length_singleton] at hbelow
    rw [Entry.nodes, childId_folderId, List.mem_cons, ← hhere, hbelow]
    constructor
    · rintro (rfl | ⟨names, t, -, ht, rfl⟩)
      · exact ⟨[], _, .here, rfl⟩
      · exact ⟨names, t, ht, by simp⟩
    · rintro ⟨names, t, ht, rfl⟩
      cases names with
      | nil =>
        cases ht
        exact .inl rfl
      | cons s names => exact .inr ⟨s :: names, t, by simp, ht, by simp⟩

theorem mem_entryNodes {n : FileNode} (above : List String) (entries : List (String × Entry)) :
    n ∈ entryNodes (folderId above) above.length entries ↔
      ∃ names t, names ≠ [] ∧ (Entry.folder entries).Leads names t ∧ n = nodeAt (above ++ names) t :=
  match entries with
  | [] => by
    rw [entryNodes]
    constructor
    · intro h
      cases h
    · rintro ⟨names, t, hne, ht, -⟩
      cases ht with
      | here => exact absurd rfl hne
      | into hx _ => cases hx
  | (name, e) :: rest => by
    rw [entryNodes, List.mem_append, mem_nodes above e, mem_entryNodes above rest]
    constructor
    · rintro (⟨names, t, ht, rfl⟩ | ⟨names, t, hne, ht, rfl⟩)
      · exact ⟨name :: names, t, by simp, .into List.mem_cons_self ht, rfl⟩
      · cases ht with
        | here => exact absurd rfl hne
        | into hx ht => exact ⟨_, t, hne, .into (List.mem_cons_of_mem _ hx) ht, rfl⟩
    · rintro ⟨names, t, hne, ht, rfl⟩
      cases ht with
      | here => exact absurd rfl hne
      | into hx ht =>
        rcases List.mem_cons.mp hx with heq | hx
        · cases heq
          exact .inl ⟨_, t, ht, rfl⟩
        · exact .inr ⟨_, t, hne, .into hx ht, rfl⟩

end

theorem dropLast_of_siblings {names names' : List String} {t t' : Entry} (h : ∀ s ∈ names, IsSegment s)
    (h' : ∀ s ∈ names', IsSegment s) (heq : (nodeAt names t).parent = (nodeAt names' t').parent) :
    names.dropLast = names'.dropLast :=
  folderId_inj (fun s hs => h s (List.dropLast_subset _ hs)) (fun s hs => h' s (List.dropLast_subset _ hs)) heq

def SiblingsInOrder (nodes : List FileNode) : Prop :=
  nodes.Pairwise fun m n => m.parent = n.parent → m.name < n.name

mutual

theorem nodes_inOrder {name : String} {above : List String} (hname : IsSegment name) (habove : ∀ s ∈ above, IsSegment s)
    (e : Entry) (h : e.Listed) : SiblingsInOrder (e.nodes (folderId above) above.length name) :=
  match e with
  | .file bytes => by
    rw [Entry.nodes]
    exact List.pairwise_singleton _ _
  | .folder entries => by
    have hwithin : ∀ s ∈ above ++ [name], IsSegment s := by
      simpa [or_imp, forall_and] using ⟨habove, hname⟩
    have hbelow := entryNodes_inOrder hwithin entries h
    rw [folderId_concat, List.length_append, List.length_singleton] at hbelow
    rw [Entry.nodes, childId_folderId]
    refine List.pairwise_cons.mpr ⟨fun n hn hparent => ?_, hbelow⟩
    have hmem := mem_entryNodes (n := n) (above ++ [name]) entries
    rw [folderId_concat, List.length_append, List.length_singleton] at hmem
    obtain ⟨names, t, hne, ht, rfl⟩ := hmem.mp hn
    have hbelow : ∀ s ∈ above ++ [name] ++ names, IsSegment s := by
      intro s hs
      rcases List.mem_append.mp hs with hs | hs
      · exact hwithin s hs
      · exact (h.names_ok ht s hs).2
    have hsame := folderId_inj habove (fun s hs => hbelow s (List.dropLast_subset _ hs)) hparent
    have hlength := congrArg List.length hsame
    have := List.length_pos_iff.mpr hne
    simp only [List.length_dropLast, List.length_append, List.length_singleton] at hlength
    omega

theorem entryNodes_inOrder {above : List String} (habove : ∀ s ∈ above, IsSegment s) (entries : List (String × Entry))
    (h : (Entry.folder entries).Listed) : SiblingsInOrder (entryNodes (folderId above) above.length entries) :=
  match entries with
  | [] => by
    rw [entryNodes]
    exact .nil
  | (name, e) :: rest => by
    rw [entryNodes]
    cases h with
    | folder hsorted hnames hsub =>
    obtain ⟨hfirst, hsorted⟩ := List.pairwise_cons.mp hsorted
    obtain ⟨hname, hnames⟩ := List.forall_mem_cons.mp hnames
    obtain ⟨he, hsub⟩ := List.forall_mem_cons.mp hsub
    have hrest := Entry.Listed.folder hsorted hnames hsub
    refine List.pairwise_append.mpr ⟨nodes_inOrder hname.2 habove e he, entryNodes_inOrder habove rest hrest, ?_⟩
    intro m hm n hn hparent
    obtain ⟨names, t, ht, rfl⟩ := (mem_nodes above e).mp hm
    obtain ⟨names', t', hne, ht', rfl⟩ := (mem_entryNodes above rest).mp hn
    cases ht' with
    | here => exact absurd rfl hne
    | @into _ name' names' e' _ hx ht' =>
    have hlt : name < name' := hfirst (name', e') hx
    have hsegments : ∀ s ∈ above ++ name :: names, IsSegment s := by
      intro s hs
      rcases List.mem_append.mp hs with hs | hs
      · exact habove s hs
      · exact (List.forall_mem_cons.mpr ⟨hname, he.names_ok ht⟩ s hs).2
    have hsegments' : ∀ s ∈ above ++ name' :: names', IsSegment s := by
      intro s hs
      rcases List.mem_append.mp hs with hs | hs
      · exact habove s hs
      · exact (hrest.names_ok (.into hx ht') s hs).2
    have hsame := dropLast_of_siblings hsegments hsegments' hparent
    rw [List.dropLast_append_of_ne_nil (by simp), List.dropLast_append_of_ne_nil (by simp),
      List.append_cancel_left_eq] at hsame
    cases names <;> cases names'
    · simpa [nodeAt] using hlt
    · cases hsame
    · cases hsame
    · rw [List.dropLast_cons_cons, List.dropLast_cons_cons, List.cons.injEq] at hsame
      exact absurd hsame.1 hlt.ne

end

end FileNode

end Apiary
