import Apiary.Proofs.Files.Tree

/-!
What paths find in the nodes of a directory. A path finds the entry that its names lead to, unless one of the names
is hidden; the path of a node finds that node.
-/

namespace Apiary

namespace FileNode

def placeOf (names : List String) (e : Entry) : Located :=
  if names = [] then .root else .node (nodeAt names e)

section Folder

variable {entries : List (String × Entry)} {names above : List String} {e : Entry}

theorem mem_entries {n : FileNode} :
    n ∈ entryNodes none 0 entries ↔
      ∃ names t, names ≠ [] ∧ (Entry.folder entries).Leads names t ∧ n = nodeAt names t :=
  mem_entryNodes [] entries

theorem find?_eq_some_of_unique {nodes : List FileNode} {p : FileNode → Bool} {n : FileNode} (hn : n ∈ nodes)
    (hp : p n = true) (honly : ∀ m ∈ nodes, p m = true → m = n) : nodes.find? p = some n := by
  cases hfound : nodes.find? p with
  | none => exact absurd hp (List.find?_eq_none.mp hfound n hn)
  | some m => rw [honly m (List.mem_of_find?_eq_some hfound) (List.find?_some hfound)]

theorem find?_id (h : (Entry.folder entries).Listed) (hne : names ≠ []) (hl : (Entry.folder entries).Leads names e) :
    ((entryNodes none 0 entries).find? fun n => n.id = joinSegments names) = some (nodeAt names e) := by
  refine find?_eq_some_of_unique (mem_entries.mpr ⟨names, e, hne, hl, rfl⟩) (decide_eq_true rfl) fun m hm hid => ?_
  obtain ⟨names', t, hne', ht, rfl⟩ := mem_entries.mp hm
  have hsame : names' = names :=
    joinSegments_inj (fun s hs => (h.names_ok ht s hs).2) (fun s hs => (h.names_ok hl s hs).2) hne' hne
      (of_decide_eq_true hid)
  subst hsame
  rw [h.leads_unique ht hl]

theorem names_of_parent (h : (Entry.folder entries).Listed) (habove : ∀ s ∈ above, IsSegment s) (hne : names ≠ [])
    (hl : (Entry.folder entries).Leads names e) (hparent : (nodeAt names e).parent = folderId above) :
    names = above ++ [(nodeAt names e).name] := by
  have hfront : names.dropLast = above :=
    folderId_inj (fun s hs => (h.names_ok hl s (List.dropLast_subset _ hs)).2) habove hparent
  have hlast : (nodeAt names e).name = names.getLast hne := by
    rw [nodeAt, List.getLastD_eq_getLast?, List.getLast?_eq_some_getLast hne, Option.getD_some]
  rw [← hfront, hlast, List.dropLast_append_getLast]

theorem child?_eq_some (h : (Entry.folder entries).Listed) (habove : ∀ s ∈ above, IsSegment s) {name : String}
    {n : FileNode} :
    child? (entryNodes none 0 entries) (folderId above) name = some n ↔
      ∃ t, (Entry.folder entries).Leads (above ++ [name]) t ∧ n = nodeAt (above ++ [name]) t := by
  have hchild : ∀ m ∈ entryNodes none 0 entries, m.parent = folderId above ∧ m.name = name →
      ∃ t, (Entry.folder entries).Leads (above ++ [name]) t ∧ m = nodeAt (above ++ [name]) t := by
    rintro m hm ⟨hparent, rfl⟩
    obtain ⟨names, t, hne, ht, rfl⟩ := mem_entries.mp hm
    have hsame := names_of_parent h habove hne ht hparent
    rw [← hsame]
    exact ⟨t, ht, rfl⟩
  constructor
  · intro hfound
    have hprops := List.find?_some hfound
    exact hchild n (List.mem_of_find?_eq_some hfound) (of_decide_eq_true hprops)
  · rintro ⟨t, ht, rfl⟩
    refine find?_eq_some_of_unique (mem_entries.mpr ⟨_, t, by simp, ht, rfl⟩) (by simp [nodeAt]) fun m hm hp => ?_
    obtain ⟨t', ht', rfl⟩ := hchild m hm (of_decide_eq_true hp)
    rw [h.leads_unique ht ht']

theorem follow_eq_some (h : (Entry.folder entries).Listed) (he : (Entry.folder entries).Leads above e)
    (names : List String) {l : Located} :
    follow (entryNodes none 0 entries) (placeOf above e) names = some l ↔
      ∃ t, e.Leads names t ∧ l = placeOf (above ++ names) t := by
  induction names generalizing above e with
  | nil => simp [follow, Entry.leads_nil, eq_comm]
  | cons s names ih =>
    have habove : ∀ s ∈ above, IsSegment s := fun s hs => (h.names_ok he s hs).2
    cases e with
    | file bytes =>
      have hne : above ≠ [] := by
        rintro rfl
        cases he
      have hkind : ¬ (nodeAt above (.file bytes)).kind = .folder := by simp [nodeAt, Entry.kind]
      simp [placeOf, hne, follow, hkind, Entry.leads_file]
    | folder sub =>
      have hstep : follow (entryNodes none 0 entries) (placeOf above (.folder sub)) (s :: names) =
          (child? (entryNodes none 0 entries) (folderId above) s).bind
            fun n => follow (entryNodes none 0 entries) (.node n) names := by
        cases above <;> rfl
      have hplace : ∀ t, placeOf (above ++ [s]) t = .node (nodeAt (above ++ [s]) t) := by simp [placeOf]
      rw [hstep, Option.bind_eq_some_iff]
      constructor
      · rintro ⟨n, hn, hl⟩
        obtain ⟨e, hs, rfl⟩ := (child?_eq_some h habove).mp hn
        rw [← hplace, ih hs, List.append_assoc] at hl
        obtain ⟨t, ht, rfl⟩ := hl
        obtain ⟨t', ht', hs⟩ := hs.of_append
        cases h.leads_unique he ht'
        obtain ⟨e', he', hs⟩ := Entry.leads_cons.mp hs
        cases Entry.leads_nil.mp hs
        exact ⟨t, .into he' ht, rfl⟩
      · rintro ⟨t, ht, rfl⟩
        obtain ⟨e', he', ht⟩ := Entry.leads_cons.mp ht
        have hs := he.append (.into he' .here)
        refine ⟨_, (child?_eq_some h habove).mpr ⟨e', hs, rfl⟩, ?_⟩
        rw [← hplace, ih hs]
        exact ⟨t, ht, by simp⟩

theorem list_names (h : (Entry.folder entries).Listed) {sub : List (String × Entry)}
    (hl : (Entry.folder entries).Leads names (.folder sub)) :
    (list.namesUnder (entryNodes none 0 entries) (folderId names)).Pairwise (· < ·) ∧
      ∀ s, s ∈ list.namesUnder (entryNodes none 0 entries) (folderId names) ↔ ∃ e, (s, e) ∈ sub := by
  have hnames : ∀ s ∈ names, IsSegment s := fun s hs => (h.names_ok hl s hs).2
  constructor
  · have hsorted : SiblingsInOrder (entryNodes (folderId []) ([] : List String).length entries) :=
      entryNodes_inOrder (by simp) entries h
    refine List.pairwise_map.mpr ((List.Pairwise.sublist List.filter_sublist hsorted).imp_of_mem ?_)
    intro m n hm hn hlt
    rw [List.mem_filter, decide_eq_true_eq] at hm hn
    exact hlt (hm.2.trans hn.2.symm)
  · intro s
    simp only [list.namesUnder, List.mem_map, List.mem_filter, decide_eq_true_eq]
    constructor
    · rintro ⟨n, ⟨hn, hparent⟩, rfl⟩
      obtain ⟨names', t, hne, ht, rfl⟩ := mem_entries.mp hn
      rw [names_of_parent h hnames hne ht hparent] at ht
      obtain ⟨t', ht', hs⟩ := ht.of_append
      cases h.leads_unique hl ht'
      obtain ⟨e, he, -⟩ := Entry.leads_cons.mp hs
      exact ⟨e, he⟩
    · rintro ⟨e, he⟩
      refine ⟨nodeAt (names ++ [s]) e, ⟨mem_entries.mpr ⟨_, e, by simp, hl.append (.into he .here), rfl⟩, ?_⟩, ?_⟩ <;>
        simp [nodeAt]

theorem length_nodes_le {x : String × Entry} (h : x ∈ entries) (parent : Option String) (depth : Nat) :
    (x.2.nodes parent depth x.1).length ≤ (entryNodes parent depth entries).length := by
  induction entries with
  | nil => cases h
  | cons y entries ih =>
    rw [entryNodes, List.length_append]
    rcases List.mem_cons.mp h with rfl | h
    · exact Nat.le_add_right _ _
    · exact (ih h).trans (Nat.le_add_left _ _)

theorem depth_le_length {t : Entry} (h : e.Leads names t) (parent : Option String) (depth : Nat) (name : String) :
    names.length < (e.nodes parent depth name).length := by
  induction h generalizing parent depth name with
  | @here e => cases e <;> simp [Entry.nodes]
  | @into entries s names e t hx _ ih =>
    have hsub := ih (some (Directory.childId parent name)) (depth + 1) s
    have hbelow := length_nodes_le hx (some (Directory.childId parent name)) (depth + 1)
    simpa [Entry.nodes] using hsub.trans_le hbelow

theorem depth_le_entries {t : Entry} (h : (Entry.folder entries).Leads names t) :
    names.length ≤ (entryNodes none 0 entries).length := by
  cases h with
  | here => exact Nat.zero_le _
  | into hx ht => exact (depth_le_length ht none 0 _).trans_le (length_nodes_le hx none 0)

theorem namesAbove_eq (h : (Entry.folder entries).Listed) {n : Nat} (hl : (Entry.folder entries).Leads names e)
    (hn : names.length ≤ n) (below : List String) :
    namesAbove (entryNodes none 0 entries) n (folderId names) below = names ++ below := by
  induction n generalizing names e below with
  | zero =>
    cases List.eq_nil_of_length_eq_zero (Nat.le_zero.mp hn)
    rfl
  | succ n ih =>
    rcases List.eq_nil_or_concat names with rfl | ⟨front, last, rfl⟩
    · rfl
    · rw [List.concat_eq_append] at *
      obtain ⟨t, ht, -⟩ := hl.of_append
      have hparent : (nodeAt (front ++ [last]) e).parent = folderId front := by simp [nodeAt]
      have hname : (nodeAt (front ++ [last]) e).name = last := by simp [nodeAt]
      rw [folderId_concat, namesAbove, find?_id h (by simp) hl]
      simp only [hparent, hname]
      rw [ih ht (by simpa using hn), List.append_assoc, List.singleton_append]

theorem path_eq (h : (Entry.folder entries).Listed) (hne : names ≠ []) (hl : (Entry.folder entries).Leads names e) :
    path (entryNodes none 0 entries) (nodeAt names e) = joinSegments names := by
  obtain ⟨front, last, rfl⟩ := (List.eq_nil_or_concat names).resolve_left hne
  rw [List.concat_eq_append] at *
  obtain ⟨t, ht, -⟩ := hl.of_append
  have hparent : (nodeAt (front ++ [last]) e).parent = folderId front := by simp [nodeAt]
  have hname : (nodeAt (front ++ [last]) e).name = last := by simp [nodeAt]
  have hfuel : front.length ≤ (entryNodes none 0 entries).length := depth_le_entries ht
  rw [path, hparent, hname, namesAbove_eq h ht hfuel]
  rfl

end Folder

section Tree

variable {d : Directory} {names : List String} {path : String} {e : Entry}

theorem nodes_eq : d.nodes = entryNodes none 0 (Directory.sorted (visibleEntries d)) := rfl

theorem locate_eq_some (h : (Entry.folder d).Tidy) {l : Located} :
    locate d.nodes path = some l ↔ (∀ s ∈ pathSegments path, isHidden s = false) ∧
      ∃ t, (Entry.folder d).Leads (pathSegments path) t ∧ l = placeOf (pathSegments path) t.visible := by
  have hlisted := h.visible
  rw [Entry.visible] at hlisted
  have hfollow := follow_eq_some hlisted .here (pathSegments path) (l := l)
  rw [← Entry.visible] at hfollow
  rw [locate, nodes_eq]
  refine hfollow.trans ?_
  constructor
  · rintro ⟨_, hseen, rfl⟩
    obtain ⟨hnames, t, ht, rfl⟩ := Entry.leads_visible.mp hseen
    exact ⟨hnames, t, ht, rfl⟩
  · rintro ⟨hnames, t, ht, rfl⟩
    exact ⟨_, Entry.leads_visible.mpr ⟨hnames, t, ht, rfl⟩, rfl⟩

structure Missing (nodes : List FileNode) (path : String) : Prop where
  absent : exists? nodes path = false
  unread : read nodes path = none
  noFolder : isDirectory nodes path = false
  empty : list nodes path = []

structure ShowsFile (nodes : List FileNode) (path text : String) : Prop where
  present : exists? nodes path = true
  text : read nodes path = some text
  noFolder : isDirectory nodes path = false
  empty : list nodes path = []

/-- A folder is found at a path, and it lists the entries that are not hidden, each once. -/
structure ShowsFolder (nodes : List FileNode) (path : String) (entries : List (String × Entry)) : Prop where
  present : exists? nodes path = true
  unread : read nodes path = none
  folder : isDirectory nodes path = true
  sorted : (list nodes path).Pairwise (· < ·)
  names : ∀ s, s ∈ list nodes path ↔ isHidden s = false ∧ ∃ e, (s, e) ∈ entries

def Shows (nodes : List FileNode) (path : String) : Entry → Prop
  | .file bytes => ShowsFile nodes path ((fileText? bytes).getD "")
  | .folder entries => ShowsFolder nodes path entries

structure FindAlike (nodes : List FileNode) (path path' : String) : Prop where
  located : locate nodes path = locate nodes path'
  present : exists? nodes path = exists? nodes path'
  read : FileNode.read nodes path = FileNode.read nodes path'
  folder : isDirectory nodes path = isDirectory nodes path'
  listed : list nodes path = list nodes path'

theorem missing_of_locate {nodes : List FileNode} (h : locate nodes path = none) : Missing nodes path := by
  constructor
  · simp [exists?, h]
  · simp [FileNode.read, h]
  · simp [isDirectory, h]
  · simp [list, h]

theorem findAlike_of_segments {nodes : List FileNode} {path' : String} (h : pathSegments path = pathSegments path') :
    FindAlike nodes path path' := by
  have hlocated : locate nodes path = locate nodes path' := by rw [locate, h, locate]
  constructor
  · exact hlocated
  · rw [exists?, hlocated, exists?]
  · rw [FileNode.read, hlocated, FileNode.read]
  · rw [isDirectory, hlocated, isDirectory]
  · rw [list, hlocated, list]

theorem shows_of_leads (h : (Entry.folder d).Tidy) (hvisible : ∀ s ∈ pathSegments path, isHidden s = false)
    (hl : (Entry.folder d).Leads (pathSegments path) e) : Shows d.nodes path e := by
  have hlocated := (locate_eq_some h).mpr ⟨hvisible, e, hl, rfl⟩
  have hlisted := h.visible
  have hseen := Entry.leads_visible.mpr ⟨hvisible, e, hl, rfl⟩
  rw [Entry.visible] at hlisted hseen
  cases e with
  | file bytes =>
    have hne : pathSegments path ≠ [] := by
      intro hnil
      rw [hnil] at hl
      cases hl
    rw [placeOf, if_neg hne] at hlocated
    constructor
    · simp [exists?, hlocated]
    · simp [FileNode.read, hlocated, nodeAt, Entry.visible, Entry.kind, Entry.content]
    · simp [isDirectory, hlocated, Located.isDirectory, nodeAt, Entry.visible, Entry.kind]
    · simp [list, hlocated, nodeAt, Entry.visible, Entry.kind]
  | folder entries =>
    rw [Entry.visible] at hseen hlocated
    have hlist : list d.nodes path = list.namesUnder d.nodes (folderId (pathSegments path)) := by
      rw [list, hlocated]
      cases pathSegments path <;> rfl
    obtain ⟨hsorted, hnames⟩ := list_names hlisted hseen
    constructor
    · simp [exists?, hlocated]
    · rw [FileNode.read, hlocated]
      cases pathSegments path <;> rfl
    · rw [isDirectory, hlocated]
      cases pathSegments path <;> rfl
    · rw [hlist]
      exact hsorted
    · intro s
      rw [hlist]
      refine (hnames s).trans ?_
      simp only [Directory.mem_sorted, mem_visibleEntries]
      constructor
      · rintro ⟨_, hs, e, he, rfl⟩
        exact ⟨hs, e, he⟩
      · rintro ⟨hs, e, he⟩
        exact ⟨_, hs, e, he, rfl⟩

theorem missing_of_not_leads (h : (Entry.folder d).Tidy)
    (hnone : ∀ e, (∀ s ∈ pathSegments path, isHidden s = false) → ¬ (Entry.folder d).Leads (pathSegments path) e) :
    Missing d.nodes path := by
  refine missing_of_locate (Option.eq_none_iff_forall_ne_some.mpr fun l hlocated => ?_)
  obtain ⟨hvisible, t, ht, -⟩ := (locate_eq_some h).mp hlocated
  exact hnone t hvisible ht

theorem pathSegments_names (h : ∀ s ∈ names, EntryName s ∧ isHidden s = false) :
    pathSegments (joinSegments names) = names := by
  rw [pathSegments_join fun s hs => (h s hs).1.2, List.filter_eq_self]
  intro s hs
  obtain ⟨⟨hne, -⟩, hvisible⟩ := h s hs
  refine decide_eq_true ⟨hne, ?_⟩
  rintro rfl
  simp [isHidden_eq] at hvisible

theorem locate_path (h : (Entry.folder d).Tidy) {n : FileNode} (hn : n ∈ d.nodes) :
    locate d.nodes (FileNode.path d.nodes n) = some (.node n) := by
  have hlisted := h.visible
  rw [Entry.visible] at hlisted
  obtain ⟨names, t, hne, ht, rfl⟩ := mem_entries.mp hn
  have hpath : FileNode.path d.nodes (nodeAt names t) = joinSegments names := path_eq hlisted hne ht
  have hnames := hlisted.names_ok ht
  rw [← Entry.visible, Entry.leads_visible] at ht
  obtain ⟨hvisible, t, ht, rfl⟩ := ht
  have hsegments := pathSegments_names fun s hs => ⟨hnames s hs, hvisible s hs⟩
  rw [hpath, locate_eq_some h, hsegments]
  exact ⟨hvisible, t, ht, by rw [placeOf, if_neg hne]⟩

theorem nodes_show_directory (h : (Entry.folder d).Tidy) :
    (∀ names, (∀ s ∈ names, EntryName s ∧ isHidden s = false) →
      (∀ e, (Entry.folder d).Leads names e → Shows d.nodes (joinSegments names) e) ∧
      ((∀ e, ¬ (Entry.folder d).Leads names e) → Missing d.nodes (joinSegments names))) ∧
    (∀ path, (∃ s ∈ pathSegments path, isHidden s = true) → Missing d.nodes path) ∧
    (∀ n ∈ d.nodes, locate d.nodes (FileNode.path d.nodes n) = some (.node n)) ∧
    ∀ front back s, (∀ t ∈ front ++ back, IsSegment t) → s = "" ∨ s = "." →
      FindAlike d.nodes (joinSegments (front ++ s :: back)) (joinSegments (front ++ back)) := by
  refine ⟨fun names hnames => ?_, fun path ⟨s, hs, hhidden⟩ => ?_, fun n hn => locate_path h hn,
    fun front back s hsegments hs => findAlike_of_segments (pathSegments_idle hs hsegments)⟩
  · have hsegments := pathSegments_names hnames
    constructor
    · intro e he
      refine shows_of_leads h ?_ ?_ <;> rw [hsegments]
      · exact fun s hs => (hnames s hs).2
      · exact he
    · intro hnone
      refine missing_of_not_leads h fun e _ => ?_
      rw [hsegments]
      exact hnone e
  · refine missing_of_not_leads h fun e hvisible _ => ?_
    rw [hvisible s hs] at hhidden
    cases hhidden

def sampleDirectory : Directory :=
  [("main.gb", .file "1".toUTF8.toList), (".git", .folder [("head", .file [])]),
    ("lib", .folder [("util.gb", .file [0xff]), ("a", .folder [])])]

theorem sampleDirectory_tidy : (Entry.folder sampleDirectory).Tidy := by
  have hleaf : (Entry.folder []).Tidy := .folder (by simp) (by simp) (by simp)
  have hgit : (Entry.folder [("head", .file [])]).Tidy :=
    .folder (by decide) (by simp [EntryName, IsSegment]) (by simpa using .file)
  have hlib : (Entry.folder [("util.gb", .file [0xff]), ("a", .folder [])]).Tidy :=
    .folder (by decide) (by simp [EntryName, IsSegment]) (by simpa using ⟨.file, hleaf⟩)
  exact .folder (by decide) (by simp [sampleDirectory, EntryName, IsSegment])
    (by simpa [sampleDirectory] using ⟨.file, hgit, hlib⟩)

theorem sampleDirectory_shown :
    (Entry.folder sampleDirectory).Tidy ∧ Shows sampleDirectory.nodes "lib/util.gb" (.file [0xff]) ∧
      Missing sampleDirectory.nodes ".git/head" ∧ Missing sampleDirectory.nodes "main.gb/x" := by
  obtain ⟨hvisible, hhidden, -, -⟩ := nodes_show_directory sampleDirectory_tidy
  refine ⟨sampleDirectory_tidy, ?_, hhidden _ ⟨".git", by decide, by simp [isHidden_eq]⟩, ?_⟩
  · have hlib := hvisible ["lib", "util.gb"] (by simp [EntryName, IsSegment, isHidden_eq, List.isPrefixOf_cons_cons])
    exact hlib.1 _ (.into (.tail _ (.tail _ (.head _))) (.into (.head _) .here))
  · have hmain := hvisible ["main.gb", "x"] (by simp [EntryName, IsSegment, isHidden_eq, List.isPrefixOf_cons_cons])
    exact hmain.2 fun e he => by simp [sampleDirectory, Entry.leads_cons, Entry.leads_file] at he

end Tree

end FileNode

end Apiary
