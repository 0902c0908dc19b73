import Apiary.Proofs.Image.RoundTrip
import Apiary.Proofs.Success

/-!
An image as a list of chunks. It means the last of its networks with the last of its memories, wherever the
two stand; chunks of other kinds mean nothing.
-/

namespace Apiary

namespace NetworkImage

open ByteReader

variable {pack : Bytes → Bytes} {chunks : List Chunk}

/-- The image that holds these chunks and no others. -/
def ofChunks (pack : Bytes → Bytes) (chunks : List Chunk) : Except ImageError Bytes := do
  let written ← chunks.mapM fun c => c.toBytes pack
  pure (magic ++ (Bytes.u32 version ++ written.flatten))

/-- The lengths that are written before a chunk's block are the lengths of what they stand for. -/
structure Measured (pack : Bytes → Bytes) (c : Chunk) : Prop where
  tag : c.tag.length = 4
  payload : c.payload.length < twoTo 32
  packed : (pack c.payload).length + 4 < twoTo 32

theorem length32_eq_ok {n : Nat} {b : Bytes} (h : Bytes.length32 n = .ok b) : n < twoTo 32 ∧ b = Bytes.u32 n := by
  unfold Bytes.length32 at h
  split at h
  · rename_i hn
    exact ⟨hn, (Except.ok.inj h).symm⟩
  · cases h

/-- The length that stands in the header of a written chunk. -/
def statedLength (pack : Bytes → Bytes) (c : Chunk) : Nat := min ((pack c.payload).length + 4) (twoTo 32 - 1)

def blockBytes (pack : Bytes → Bytes) (c : Chunk) : Bytes := Bytes.u32 c.payload.length ++ pack c.payload

theorem length_blockBytes (pack : Bytes → Bytes) (c : Chunk) :
    (blockBytes pack c).length = (pack c.payload).length + 4 := by
  rw [blockBytes, List.length_append, Bytes.u32, Bytes.length_ofWord, Nat.add_comm]

theorem toBytes_eq_ok {c : Chunk} {b : Bytes} (h : c.toBytes pack = .ok b) :
    c.payload.length < twoTo 32 ∧ (pack c.payload).length < twoTo 32 ∧
      b = c.tag ++ (Bytes.u32 (statedLength pack c) ++ blockBytes pack c) := by
  obtain ⟨_, hpacked, h⟩ := ok_of_bind h
  obtain ⟨size, hsize, h⟩ := ok_of_bind h
  obtain ⟨hpayload, rfl⟩ := length32_eq_ok hsize
  cases h
  exact ⟨hpayload, (length32_eq_ok hpacked).1, by simp only [statedLength, blockBytes, List.append_assoc]⟩

theorem exists_toBytes {c : Chunk} (hp : c.payload.length < twoTo 32) (hk : (pack c.payload).length < twoTo 32) :
    ∃ b, c.toBytes pack = .ok b := by
  simp only [Chunk.toBytes, length32_ok hk, length32_ok hp, Bind.bind, Except.bind]
  exact ⟨_, rfl⟩

theorem read_header (z : Codec) {tag : Bytes} {total : Nat} (htag : tag.length = 4) (htotal : total < twoTo 32)
    (b : Bytes) : Chunk.read z (tag ++ (Bytes.u32 total ++ b)) =
      (Chunk.unpackBody z (b.take total)).map fun payload => some (⟨tag, payload⟩, b.drop total) := by
  have hheader : Chunk.header.Reads (tag ++ Bytes.u32 total) (tag, total) :=
    (reads_take htag).bind ((reads_u32 htotal).last rfl)
  unfold Chunk.read
  rw [← List.append_assoc, hheader.eq]
  dsimp only
  cases Chunk.unpackBody z (b.take total) <;> rfl

theorem measured_written {written : List Bytes}
    (h : List.Forall₂ (fun c b => c.toBytes pack = .ok b) chunks written)
    (htag : ∀ c ∈ chunks, c.tag.length = 4)
    (hpacked : ∀ c ∈ chunks, (pack c.payload).length + 4 < twoTo 32) :
    (∀ c ∈ chunks, Measured pack c) ∧ written.flatten = chunks.flatMap (chunkBytes pack) := by
  induction h with
  | nil => exact ⟨List.forall_mem_nil _, rfl⟩
  | @cons c b rest bs hb _ ih =>
    rw [List.forall_mem_cons] at htag hpacked
    obtain ⟨hrest, hflat⟩ := ih htag.2 hpacked.2
    have hpayload := (toBytes_eq_ok hb).1
    rw [toBytes_ok hpayload hpacked.1] at hb
    cases hb
    refine ⟨List.forall_mem_cons.mpr ⟨⟨htag.1, hpayload, hpacked.1⟩, hrest⟩, ?_⟩
    rw [List.flatten_cons, hflat, List.flatMap_cons]

theorem ofChunks_eq_ok (htag : ∀ c ∈ chunks, c.tag.length = 4)
    (hpacked : ∀ c ∈ chunks, (pack c.payload).length + 4 < twoTo 32) {b : Bytes}
    (h : ofChunks pack chunks = .ok b) : (∀ c ∈ chunks, Measured pack c) ∧
      b = magic ++ (Bytes.u32 version ++ chunks.flatMap (chunkBytes pack)) := by
  obtain ⟨written, hwritten, h⟩ := ok_of_bind h
  cases h
  obtain ⟨hmeasured, hflat⟩ := measured_written (mapM_eq_ok.mp hwritten) htag hpacked
  exact ⟨hmeasured, by rw [hflat]⟩

theorem readContents_read {z : Codec} {c : Contents} {chunk : Chunk} {b rest : Bytes}
    (h : Chunk.read z b = .ok (some (chunk, rest))) (count : Nat) :
    readContents z (count + 1) c b = (c.add chunk).bind fun d => readContents z count d rest := by
  simp only [readContents, h, Bind.bind, Except.bind]

theorem readContents_chunks {z : Codec} (hpack : z.Restores) (h : ∀ c ∈ chunks, Measured z.pack c) {count : Nat}
    (hcount : chunks.length < count) (c : Contents) :
    readContents z count c (chunks.flatMap (chunkBytes z.pack)) = chunks.foldlM Contents.add c := by
  induction chunks generalizing count c with
  | nil => exact readContents_end z count c
  | cons chunk rest ih =>
    obtain ⟨count, rfl⟩ := Nat.exists_eq_add_one_of_ne_zero (Nat.ne_zero_of_lt hcount)
    have hm := h chunk List.mem_cons_self
    have hread := read_chunk hpack hm.tag hm.payload hm.packed (rest.flatMap (chunkBytes z.pack))
    rw [List.flatMap_cons, readContents_read hread, List.foldlM_cons]
    refine congrArg (Except.bind (c.add chunk)) (funext fun d => ?_)
    exact ih (fun k hk => h k (List.mem_cons_of_mem chunk hk)) (Nat.lt_of_succ_lt_succ hcount) d

theorem length_le_chunkBytes (pack : Bytes → Bytes) (chunks : List Chunk) :
    chunks.length ≤ (chunks.flatMap (chunkBytes pack)).length := by
  induction chunks with
  | nil => exact Nat.le_refl 0
  | cons c rest ih =>
    rw [List.flatMap_cons, List.length_append, List.length_cons, chunkBytes, Bytes.u32]
    simp only [List.length_append, Bytes.length_ofWord]
    omega

def tagged (tag : Bytes) (chunks : List Chunk) : List Chunk := chunks.filter fun c => c.tag = tag

theorem tagged_cons_of_eq {tag : Bytes} {c : Chunk} (h : c.tag = tag) (chunks : List Chunk) :
    tagged tag (c :: chunks) = c :: tagged tag chunks := List.filter_cons_of_pos (decide_eq_true h)

theorem tagged_cons_of_ne {tag : Bytes} {c : Chunk} (h : c.tag ≠ tag) (chunks : List Chunk) :
    tagged tag (c :: chunks) = tagged tag chunks :=
  List.filter_cons_of_neg fun heq => h (of_decide_eq_true heq)

theorem mem_tagged {tag : Bytes} {c : Chunk} : c ∈ tagged tag chunks ↔ c ∈ chunks ∧ c.tag = tag := by
  rw [tagged, List.mem_filter, decide_eq_true_iff]

def networkOf (c : Chunk) : Except ImageError Network := (readNetwork c.payload).1

/-- What is kept of networks and memories that come after `c`. -/
def Contents.later (c : Contents) (memories : List Chunk) (networks : List Network) : Contents :=
  ⟨networks.getLast?.or c.network, (memories.getLast?.map Chunk.payload).or c.memory⟩

theorem later_network (c : Contents) (memories : List Chunk) (n : Network) (networks : List Network) :
    c.later memories (n :: networks) = { c with network := some n }.later memories networks := by
  rw [Contents.later, Contents.later, List.getLast?_cons]
  cases networks.getLast? <;> rfl

theorem later_memory (c : Contents) (k : Chunk) (memories : List Chunk) (networks : List Network) :
    c.later (k :: memories) networks = { c with memory := some k.payload }.later memories networks := by
  rw [Contents.later, Contents.later, List.getLast?_cons]
  cases memories.getLast? <;> rfl

theorem addAll_eq (chunks : List Chunk) (c : Contents) : chunks.foldlM Contents.add c =
    ((tagged networkTag chunks).mapM networkOf).map (c.later (tagged memoryTag chunks)) := by
  induction chunks generalizing c with
  | nil => rfl
  | cons chunk rest ih =>
    rw [List.foldlM_cons]
    by_cases hnetwork : chunk.tag = networkTag
    · have hmemory : chunk.tag ≠ memoryTag := fun h => memoryTag_ne (h.symm.trans hnetwork)
      rw [tagged_cons_of_eq hnetwork, tagged_cons_of_ne hmemory, List.mapM_cons, Contents.add, if_pos hnetwork]
      change ((networkOf chunk >>= _) >>= _) = _
      cases networkOf chunk with
      | error e => rfl
      | ok n =>
        change List.foldlM Contents.add { c with network := some n } rest = _
        rw [ih]
        cases (tagged networkTag rest).mapM networkOf with
        | error e => rfl
        | ok networks => exact congrArg Except.ok (later_network c _ n networks).symm
    · by_cases hmemory : chunk.tag = memoryTag
      · rw [tagged_cons_of_ne hnetwork, tagged_cons_of_eq hmemory, Contents.add, if_neg hnetwork, if_pos hmemory]
        change List.foldlM Contents.add { c with memory := some chunk.payload } rest = _
        rw [ih]
        exact congrArg (Except.map · _) (funext fun networks => (later_memory c chunk _ networks).symm)
      · rw [tagged_cons_of_ne hnetwork, tagged_cons_of_ne hmemory, Contents.add, if_neg hnetwork, if_neg hmemory]
        exact ih c

/-- What the chunks of an image stand for. -/
def meaning (z : Codec) (chunks : List Chunk) : Except ImageError Network := do
  let networks ← (tagged networkTag chunks).mapM networkOf
  (Contents.later ⟨none, none⟩ (tagged memoryTag chunks) networks).finish z

theorem read_chunks {z : Codec} (hpack : z.Restores) (htag : ∀ c ∈ chunks, c.tag.length = 4)
    (hpacked : ∀ c ∈ chunks, (z.pack c.payload).length + 4 < twoTo 32) {b : Bytes}
    (h : ofChunks z.pack chunks = .ok b) : read z b = meaning z chunks := by
  obtain ⟨hmeasured, rfl⟩ := ofChunks_eq_ok htag hpacked h
  have hcount := Nat.lt_succ_of_le (length_le_chunkBytes z.pack chunks)
  have hcontents := readContents_chunks hpack hmeasured hcount ⟨none, none⟩
  rw [addAll_eq] at hcontents
  unfold read meaning
  rw [body_append]
  change (readContents _ _ _ _ >>= _) = _
  rw [hcontents]
  cases (tagged networkTag chunks).mapM networkOf <;> rfl

/-- The last chunk of its kind. -/
def Last (tag : Bytes) (chunks : List Chunk) (c : Chunk) : Prop :=
  ∃ front back, chunks = front ++ c :: back ∧ c.tag = tag ∧ ∀ d ∈ back, d.tag ≠ tag

theorem last_iff {tag : Bytes} {c : Chunk} : Last tag chunks c ↔ (tagged tag chunks).getLast? = some c := by
  rw [tagged, List.getLast?_filter, List.find?_eq_some_iff_append, decide_eq_true_iff]
  constructor
  · rintro ⟨front, back, rfl, htag, hback⟩
    exact ⟨htag, back.reverse, front.reverse, by simp, by simpa using hback⟩
  · rintro ⟨htag, back, front, hreverse, hback⟩
    refine ⟨front.reverse, back.reverse, ?_, htag, by simpa using hback⟩
    rw [← List.reverse_reverse chunks, hreverse]
    simp

theorem Last.mem {tag : Bytes} {c : Chunk} (h : Last tag chunks c) : c ∈ chunks ∧ c.tag = tag := by
  obtain ⟨front, back, rfl, htag, -⟩ := h
  exact ⟨by simp, htag⟩

/-- Entries under their keys; a later entry takes the place of an earlier one of its key. -/
def keyed (entries : List (String × Json)) : List (String × Json) :=
  entries.foldl (fun fields entry => setField entry.1 entry.2 fields) []

theorem withMemory_of_bare {n : Network} (h : n.memory = []) (entries : List (String × Json))
    (goal : Option Json) : withMemory n entries goal = { n with memory := keyed entries, goal := goal } := by
  have hfold (m : Network) : entries.foldl (fun n entry => n.remember entry.1 entry.2) m =
      { m with memory := entries.foldl (fun fields entry => setField entry.1 entry.2 fields) m.memory } := by
    induction entries generalizing m with
    | nil => rfl
    | cons entry rest ih => exact ih (m.remember entry.1 entry.2)
  have hentries := hfold n
  rw [h] at hentries
  exact congrArg (fun m : Network => { m with goal := goal }) hentries

theorem gives_readNetwork_bare : readNetwork.Gives fun n => n.memory = [] ∧ n.goal = none := by
  refine (gives_any _).bind fun name _ => (gives_any _).bind fun plasticity _ => ?_
  refine (gives_any _).bind fun satisfaction _ => (gives_any _).bind fun capacity _ => ?_
  refine (gives_any _).bind fun lastExpansion _ => (gives_any _).bind fun state _ => ?_
  refine (gives_any _).bind fun count _ => ?_
  split
  · exact gives_fail _
  · refine (gives_any _).bind fun layers _ => ?_
    split
    · exact gives_ret ⟨rfl, rfl⟩
    · exact gives_fail _

theorem networkOf_bare {c : Chunk} {n : Network} (h : networkOf c = .ok n) : n.memory = [] ∧ n.goal = none :=
  gives_readNetwork_bare.of_ok (Prod.ext h rfl)

theorem finish_later {z : Codec} {memories : List Chunk} {networks : List Network} {n : Network} :
    (Contents.later ⟨none, none⟩ memories networks).finish z = .ok n ↔
      ∃ m, networks.getLast? = some m ∧ (memories.getLast? = none ∧ n = m ∨
        ∃ k r, memories.getLast? = some k ∧ (readMemory z k.payload).1 = .ok r ∧ n = withMemory m r.1 r.2) := by
  rw [Contents.later, Contents.finish, Option.or_none, Option.or_none]
  cases networks.getLast? with
  | none =>
    refine ⟨fun h => ?_, ?_⟩
    · cases h
    · rintro ⟨m, hm, -⟩
      cases hm
  | some m =>
    cases memories.getLast? with
    | none =>
      constructor
      · intro h
        exact ⟨m, rfl, .inl ⟨rfl, (Except.ok.inj h).symm⟩⟩
      · rintro ⟨_, hm, ⟨-, rfl⟩ | ⟨k, -, hk, -⟩⟩
        · exact congrArg Except.ok (Option.some.inj hm)
        · cases hk
    | some k =>
      constructor
      · intro h
        obtain ⟨r, hr, h⟩ := ok_of_bind h
        exact ⟨m, rfl, .inr ⟨k, r, rfl, hr, (Except.ok.inj h).symm⟩⟩
      · rintro ⟨_, hm, ⟨hnone, -⟩ | ⟨_, r, hk, hr, rfl⟩⟩
        · cases hnone
        · cases hm
          cases hk
          change (readMemory z k.payload).1 >>= _ = _
          rw [hr]
          rfl

/-- A network with the memory and goal of the last memory chunk, and without them where there is none. -/
structure Remembers (z : Codec) (chunks : List Chunk) (m n : Network) : Prop where
  last (k : Chunk) : Last memoryTag chunks k →
    ∃ r, (readMemory z k.payload).1 = .ok r ∧ n = { m with memory := keyed r.1, goal := r.2 }
  none : (∀ k ∈ chunks, k.tag ≠ memoryTag) → n = { m with memory := [], goal := none }

theorem remembers_of_finish {z : Codec} {m n : Network} (hbare : m.memory = [] ∧ m.goal = none)
    (h : (tagged memoryTag chunks).getLast? = none ∧ n = m ∨
      ∃ k r, (tagged memoryTag chunks).getLast? = some k ∧ (readMemory z k.payload).1 = .ok r ∧
        n = withMemory m r.1 r.2) : Remembers z chunks m n := by
  rcases h with ⟨hnone, rfl⟩ | ⟨k, r, hk, hr, rfl⟩
  · constructor
    · intro k hk
      cases hnone.symm.trans (last_iff.mp hk)
    · intro _
      rw [← hbare.1, ← hbare.2]
  · constructor
    · intro k' hk'
      cases hk.symm.trans (last_iff.mp hk')
      exact ⟨r, hr, withMemory_of_bare hbare.1 r.1 r.2⟩
    · intro hall
      obtain ⟨hmem, htag⟩ := (last_iff.mpr hk).mem
      exact absurd htag (hall k hmem)

theorem exists_meaning_iff {z : Codec} : (∃ n, meaning z chunks = .ok n) ↔
      (∀ c ∈ chunks, c.tag = networkTag → ∃ n, (readNetwork c.payload).1 = .ok n) ∧
      (∃ c ∈ chunks, c.tag = networkTag) ∧
      ∀ k, Last memoryTag chunks k → ∃ r, (readMemory z k.payload).1 = .ok r := by
  constructor
  · rintro ⟨n, hn⟩
    obtain ⟨networks, hnetworks, hn⟩ := ok_of_bind hn
    obtain ⟨m, hm, hn⟩ := finish_later.mp hn
    have hall := mapM_eq_ok.mp hnetworks
    obtain ⟨c, hc, -⟩ := getLast?_forall₂ hall hm
    refine ⟨fun d hd htag => ?_, ⟨c, (last_iff.mpr hc).mem⟩, fun k hk => ?_⟩
    · exact exists_forall₂.mp ⟨networks, hall⟩ d (mem_tagged.mpr ⟨hd, htag⟩)
    · rcases hn with ⟨hnone, -⟩ | ⟨k', r, hk', hr, -⟩
      · cases hnone.symm.trans (last_iff.mp hk)
      · cases hk'.symm.trans (last_iff.mp hk)
        exact ⟨r, hr⟩
  · rintro ⟨hall, hsome, hmemory⟩
    obtain ⟨networks, hnetworks⟩ := exists_forall₂.mpr fun c hc =>
      hall c (mem_tagged.mp hc).1 (mem_tagged.mp hc).2
    obtain ⟨c, hc, htag⟩ := hsome
    have hpos := List.length_pos_of_mem (mem_tagged.mpr ⟨hc, htag⟩)
    rw [hnetworks.length_eq] at hpos
    have hm := List.getLast?_eq_some_getLast (List.ne_nil_of_length_pos hpos)
    have hread : (tagged networkTag chunks).mapM networkOf = .ok networks := mapM_eq_ok.mpr hnetworks
    rw [meaning, hread]
    cases hk : (tagged memoryTag chunks).getLast? with
    | none => exact ⟨_, finish_later.mpr ⟨_, hm, .inl ⟨hk, rfl⟩⟩⟩
    | some k =>
      obtain ⟨r, hr⟩ := hmemory k (last_iff.mpr hk)
      exact ⟨_, finish_later.mpr ⟨_, hm, .inr ⟨k, r, hk, hr, rfl⟩⟩⟩

theorem last_of_meaning {z : Codec} {n : Network} (hn : meaning z chunks = .ok n) :
    ∃ c m, Last networkTag chunks c ∧ (readNetwork c.payload).1 = .ok m ∧ Remembers z chunks m n := by
  obtain ⟨networks, hnetworks, hn⟩ := ok_of_bind hn
  obtain ⟨m, hm, hn⟩ := finish_later.mp hn
  obtain ⟨c, hc, hcm⟩ := getLast?_forall₂ (mapM_eq_ok.mp hnetworks) hm
  exact ⟨c, m, last_iff.mpr hc, hcm, remembers_of_finish (networkOf_bare hcm) hn⟩

def newerTag : Bytes := Bytes.ofText "ZZZZ"

/-- The chunks of an image of the foraging network, its memory before it. -/
def knownChunks : List Chunk := [⟨memoryTag, memoryBytes forager⟩, ⟨networkTag, networkBytes forager⟩]

def newerChunks : List Chunk := ⟨newerTag, [1, 2, 3]⟩ :: knownChunks ++ [⟨newerTag, []⟩]

theorem length_newerTag : newerTag.length = 4 := by
  rw [newerTag, ofText_eq]
  rfl

theorem measured_newer : ∀ c ∈ newerChunks, Measured Lz4.pack c := by
  have hlimit : 256 < twoTo 32 := by decide
  have hmarked := Lz4.length_pack_le [1, 2, 3]
  have hempty := Lz4.length_pack_le []
  intro c hc
  simp only [newerChunks, knownChunks, List.cons_append, List.nil_append, List.mem_cons, List.not_mem_nil,
    or_false] at hc
  rcases hc with rfl | rfl | rfl | rfl
  · exact ⟨length_newerTag, by decide, by simp at hmarked ⊢; omega⟩
  · exact ⟨length_memoryTag, fits_forager.memory, fits_forager.packedMemory⟩
  · exact ⟨length_networkTag, fits_forager.network, fits_forager.packedNetwork⟩
  · exact ⟨length_newerTag, by decide, by simp at hempty ⊢; omega⟩

theorem exists_ofChunks (h : ∀ c ∈ chunks, Measured pack c) : ∃ b, ofChunks pack chunks = .ok b := by
  have hchunk (c : Chunk) (hc : c ∈ chunks) : ∃ b, c.toBytes pack = .ok b :=
    ⟨_, toBytes_ok (h c hc).payload (h c hc).packed⟩
  obtain ⟨written, hwritten⟩ := exists_forall₂.mpr hchunk
  have hall : (chunks.mapM fun c => c.toBytes pack) = .ok written := mapM_eq_ok.mpr hwritten
  exact ⟨_, by rw [ofChunks, hall]; rfl⟩

theorem newerTag_ne : newerTag ≠ networkTag ∧ newerTag ≠ memoryTag := by
  rw [newerTag, networkTag, memoryTag, ofText_eq, ofText_eq, ofText_eq]
  decide

theorem tagged_newer {tag : Bytes} (h : newerTag ≠ tag) :
    tagged tag newerChunks = tagged tag knownChunks := by
  have hlast : tagged tag [⟨newerTag, []⟩] = [] := tagged_cons_of_ne (c := ⟨newerTag, []⟩) h []
  have hfirst : tagged tag newerChunks = tagged tag (knownChunks ++ [⟨newerTag, []⟩]) :=
    tagged_cons_of_ne (c := ⟨newerTag, [1, 2, 3]⟩) h _
  rw [hfirst, tagged, List.filter_append]
  exact (congrArg (tagged tag knownChunks ++ ·) hlast).trans (List.append_nil _)

theorem tagged_known : tagged networkTag knownChunks = [⟨networkTag, networkBytes forager⟩] ∧
    tagged memoryTag knownChunks = [⟨memoryTag, memoryBytes forager⟩] := by
  have hnetwork : tagged networkTag [⟨networkTag, networkBytes forager⟩] =
      [⟨networkTag, networkBytes forager⟩] := tagged_cons_of_eq rfl []
  have hmemory : tagged memoryTag [⟨networkTag, networkBytes forager⟩] = [] :=
    tagged_cons_of_ne (c := ⟨networkTag, networkBytes forager⟩) memoryTag_ne.symm []
  constructor
  · exact (tagged_cons_of_ne (c := ⟨memoryTag, memoryBytes forager⟩) memoryTag_ne _).trans hnetwork
  · exact (tagged_cons_of_eq rfl _).trans (congrArg (_ :: ·) hmemory)

/-- A header cannot state the length of a block of `twoTo 32` bytes or more; `hpacked` leaves such blocks out. -/
theorem read_last_chunks {z : Codec} (hpack : z.Restores) (htag : ∀ c ∈ chunks, c.tag.length = 4)
    (hpacked : ∀ c ∈ chunks, (z.pack c.payload).length + 4 < twoTo 32) {b : Bytes}
    (hb : ofChunks z.pack chunks = .ok b) :
    ((∃ n, read z b = .ok n) ↔
      (∀ c ∈ chunks, c.tag = networkTag → ∃ n, (readNetwork c.payload).1 = .ok n) ∧
      (∃ c ∈ chunks, c.tag = networkTag) ∧
      ∀ k, Last memoryTag chunks k → ∃ r, (readMemory z k.payload).1 = .ok r) ∧
    (∀ n, read z b = .ok n →
      ∃ c m, Last networkTag chunks c ∧ (readNetwork c.payload).1 = .ok m ∧ Remembers z chunks m n) ∧
    ∀ others b', (∀ c ∈ others, c.tag.length = 4) → (∀ c ∈ others, (z.pack c.payload).length + 4 < twoTo 32) →
      ofChunks z.pack others = .ok b' → tagged networkTag others = tagged networkTag chunks →
      tagged memoryTag others = tagged memoryTag chunks → read z b' = read z b := by
  have hread := read_chunks hpack htag hpacked hb
  rw [hread]
  refine ⟨exists_meaning_iff, fun n hn => last_of_meaning hn, ?_⟩
  intro others b' htag' hpacked' hb' hnetworks hmemories
  rw [read_chunks hpack htag' hpacked' hb', meaning, meaning, hnetworks, hmemories]

theorem newer_read : ∃ b b' n, ofChunks Lz4.pack newerChunks = .ok b ∧ ofChunks Lz4.pack knownChunks = .ok b' ∧
    read .standard b = .ok n ∧ read .standard b' = .ok n := by
  have hnewer := measured_newer
  have hknown (c : Chunk) (hc : c ∈ knownChunks) : Measured Lz4.pack c :=
    hnewer c (List.mem_append_left _ (List.mem_cons_of_mem _ hc))
  have hnetworks := tagged_newer newerTag_ne.1
  have hmemories := tagged_newer newerTag_ne.2
  obtain ⟨b, hb⟩ := exists_ofChunks hnewer
  obtain ⟨b', hb'⟩ := exists_ofChunks hknown
  obtain ⟨hreads, -, hsame⟩ := read_last_chunks Codec.standard_restores (fun c hc => (hnewer c hc).tag)
    (fun c hc => (hnewer c hc).packed) hb
  have hread' := hsame knownChunks b' (fun c hc => (hknown c hc).tag) (fun c hc => (hknown c hc).packed) hb'
    hnetworks.symm hmemories.symm
  rw [tagged_known.1] at hnetworks
  rw [tagged_known.2] at hmemories
  have hdecoded : ∃ n, read .standard b = .ok n := by
    refine hreads.mpr ⟨fun c hc htag => ?_, ?_, fun k hk => ?_⟩
    · have hmem : c ∈ tagged networkTag newerChunks := mem_tagged.mpr ⟨hc, htag⟩
      rw [hnetworks] at hmem
      obtain rfl := List.mem_singleton.mp hmem
      exact ⟨_, (reads_network wellFormed_forager fits_forager).whole⟩
    · have hmem : ⟨networkTag, networkBytes forager⟩ ∈ tagged networkTag newerChunks := by
        rw [hnetworks]
        exact List.mem_singleton_self _
      exact ⟨_, mem_tagged.mp hmem⟩
    · have hlast := last_iff.mp hk
      rw [hmemories] at hlast
      cases hlast
      exact ⟨_, (reads_memory fits_forager ofText_memory_forager ofText_goal_forager).whole⟩
  obtain ⟨n, hn⟩ := hdecoded
  exact ⟨b, b', n, hb, hb', hn, hread'.trans hn⟩

/-- The last byte of the block is not counted, and the block is malformed without it. -/
theorem read_uncounted {c : Chunk} (htag : c.tag.length = 4) (hp : c.payload.length < twoTo 32)
    (hlong : 15 ≤ c.payload.length) (hpacked : (Lz4.pack c.payload).length + 4 = twoTo 32) (rest : Bytes) :
    Chunk.read .standard (c.tag ++ (Bytes.u32 (statedLength Lz4.pack c) ++ (blockBytes Lz4.pack c ++ rest))) =
      .error .badBlock := by
  have hpos : 4 < twoTo 32 := by decide
  have hne : Lz4.pack c.payload ≠ [] := List.ne_nil_of_length_pos (by omega)
  obtain ⟨cut, last, hcut⟩ : ∃ cut last, Lz4.pack c.payload = cut ++ [last] :=
    ⟨_, _, (List.dropLast_append_getLast hne).symm⟩
  have hstated : statedLength Lz4.pack c = twoTo 32 - 1 := by
    unfold statedLength
    omega
  have hlength : (Bytes.u32 c.payload.length ++ cut).length = twoTo 32 - 1 := by
    rw [hcut, List.length_append, List.length_singleton] at hpacked
    rw [List.length_append, Bytes.u32, Bytes.length_ofWord]
    omega
  have hblock : blockBytes Lz4.pack c ++ rest = (Bytes.u32 c.payload.length ++ cut) ++ ([last] ++ rest) := by
    rw [blockBytes, hcut]
    simp only [List.append_assoc]
  have hmalformed : Codec.standard.unpack c.payload.length cut = none :=
    Lz4.unpack_pack_cut hlong (List.cons_ne_nil last []) (by rw [List.length_singleton]; omega) hcut.symm _
  have hbody : Chunk.unpackBody .standard (Bytes.u32 c.payload.length ++ cut) = .error .badBlock := by
    rw [Chunk.unpackBody, (reads_u32 hp).eq]
    dsimp only
    rw [Codec.unblock, hmalformed]
  rw [read_header .standard htag (by omega), hblock, hstated, ← hlength, List.take_left, hbody]
  rfl

theorem read_behind_uncounted {c d : Chunk} (htag : c.tag.length = 4) (hp : c.payload.length < twoTo 32)
    (hlong : 15 ≤ c.payload.length) (hpacked : (Lz4.pack c.payload).length + 4 = twoTo 32) {second : Bytes}
    (hd : d.toBytes Lz4.pack = .ok second) :
    ∃ b, ofChunks Lz4.pack [c, d] = .ok b ∧ read .standard b = .error .badBlock := by
  obtain ⟨first, hfirst⟩ : ∃ b, c.toBytes Lz4.pack = .ok b := exists_toBytes hp (by omega)
  have hwritten : ([c, d].mapM fun c => c.toBytes Lz4.pack) = .ok [first, second] :=
    mapM_eq_ok.mpr (.cons hfirst (.cons hd .nil))
  refine ⟨magic ++ (Bytes.u32 version ++ (first ++ second)), ?_, ?_⟩
  · rw [ofChunks, hwritten]
    simp only [Bind.bind, Except.bind, List.flatten_cons, List.flatten_nil, List.append_nil]
    rfl
  · have hread := read_uncounted htag hp hlong hpacked second
    have hmalformed (count : Nat) (k : Contents) :
        readContents .standard (count + 1) k (first ++ second) = .error .badBlock := by
      rw [(toBytes_eq_ok hfirst).2.2]
      simp only [List.append_assoc, readContents, hread, Bind.bind, Except.bind]
    rw [read, body_append]
    simp only [Bind.bind, Except.bind, hmalformed]

/-- As many nulls as make a block one byte longer than a header can state. -/
def nulls : Bytes := List.replicate 4278190075 0

theorem length_nulls : nulls.length = 4278190075 := List.length_replicate

theorem length_pack_nulls : (Lz4.pack nulls).length + 4 = twoTo 32 := by
  have htwo : twoTo 32 = 4294967296 := by decide
  have hlength := Lz4.length_pack (b := nulls) (by rw [length_nulls]; omega)
  rw [length_nulls] at hlength
  omega

def hidingChunks : List Chunk := [⟨newerTag, nulls⟩, ⟨networkTag, networkBytes forager⟩]

/-- Behind a block that is too long for its header a network is not found. -/
theorem network_hidden : Codec.standard.Restores ∧ (∀ c ∈ hidingChunks, c.tag.length = 4) ∧
    (∀ c ∈ hidingChunks, c.tag = networkTag → ∃ n, (readNetwork c.payload).1 = .ok n) ∧
    (∃ c ∈ hidingChunks, c.tag = networkTag) ∧ (∀ c ∈ hidingChunks, c.tag ≠ memoryTag) ∧
    ∃ b, ofChunks Lz4.pack hidingChunks = .ok b ∧ read .standard b = .error .badBlock := by
  have hmem {c : Chunk} (hc : c ∈ hidingChunks) : c = ⟨newerTag, nulls⟩ ∨ c = ⟨networkTag, networkBytes forager⟩ :=
    List.mem_pair.mp hc
  have hbound : nulls.length < twoTo 32 ∧ 15 ≤ nulls.length := by
    rw [length_nulls]
    decide
  refine ⟨Codec.standard_restores, fun c hc => ?_, fun c hc htag => ?_, ⟨_, List.mem_pair.mpr (.inr rfl), rfl⟩,
    fun c hc => ?_, ?_⟩
  · rcases hmem hc with rfl | rfl
    · exact length_newerTag
    · exact length_networkTag
  · rcases hmem hc with rfl | rfl
    · exact absurd htag newerTag_ne.1
    · exact ⟨_, (reads_network wellFormed_forager fits_forager).whole⟩
  · rcases hmem hc with rfl | rfl
    · exact newerTag_ne.2
    · exact memoryTag_ne.symm
  · exact read_behind_uncounted (c := ⟨newerTag, nulls⟩) length_newerTag hbound.1 hbound.2 length_pack_nulls
      (toBytes_ok fits_forager.network fits_forager.packedNetwork)

end NetworkImage

end Apiary
