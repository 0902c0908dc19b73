import Apiary.Proofs.Image.Chunks

/-!
An image that is cut short is refused, unless the cut falls between its two chunks or in the header of the
second: then it is the image of the same network without memory and goal.
-/

namespace Apiary

namespace ByteReader

variable {α β : Type}

theorem bind_ok {r : ByteReader α} {f : α → ByteReader β} {p rest : Bytes} {x : β}
    (h : (r >>= f) p = (.ok x, rest)) : ∃ a mid, r p = (.ok a, mid) ∧ f a mid = (.ok x, rest) := by
  simp only [Bind.bind] at h
  cases hp : r p with
  | mk result mid =>
    rw [hp] at h
    cases result with
    | error e => cases h
    | ok a => exact ⟨a, mid, rfl, h⟩

theorem Reads.bind_all {r : ByteReader α} {b : Bytes} {a : α} (h : r.Reads b a) (f : α → ByteReader β) :
    (r >>= f) b = f a [] := by
  have hnil := h.bind_append f []
  rwa [List.append_nil] at hnil

theorem take_ok {n : Nat} {p front rest : Bytes} (h : take n p = (.ok front, rest)) :
    p = front ++ rest ∧ front.length = n := by
  unfold take at h
  dsimp only at h
  split at h
  · rename_i hlength
    cases h
    exact ⟨(List.take_append_drop n p).symm, hlength⟩
  · cases h

theorem word_ok {n w : Nat} {p rest : Bytes} (h : word n p = (.ok w, rest)) :
    ∃ front, p = front ++ rest ∧ front.length = n := by
  obtain ⟨front, mid, htake, h⟩ := bind_ok h
  cases h
  exact ⟨front, take_ok htake⟩

/-- What a reader took from the front stays taken when more bytes follow. -/
structure Steady (r : ByteReader α) : Prop where
  append {p rest : Bytes} {a : α} (t : Bytes) : r p = (.ok a, rest) → r (p ++ t) = (.ok a, rest ++ t)

theorem steady_ret (a : α) : (pure a : ByteReader α).Steady where
  append t h := by
    cases h
    rfl

theorem steady_fail (e : ImageError) : (fail e : ByteReader α).Steady where
  append t h := by cases h

theorem Steady.bind {r : ByteReader α} {f : α → ByteReader β} (hr : r.Steady) (hf : ∀ a, (f a).Steady) :
    (r >>= f).Steady where
  append {p rest x} t h := by
    obtain ⟨a, mid, hp, h⟩ := bind_ok h
    simp only [Bind.bind, hr.append t hp]
    exact (hf a).append t h

theorem steady_take (n : Nat) : (take n).Steady where
  append {p rest front} t h := by
    obtain ⟨rfl, hlength⟩ := take_ok h
    rw [List.append_assoc]
    exact (reads_take hlength).eq (rest ++ t)

theorem steady_word (n : Nat) : (word n).Steady := (steady_take n).bind fun _ => steady_ret _

theorem steady_u32 : u32.Steady := steady_word 4

theorem steady_u64 : u64.Steady := steady_word 8

theorem steady_f32 : f32.Steady := steady_u32.bind fun _ => steady_ret _

theorem steady_text : text.Steady := by
  refine (steady_u32.bind fun n => steady_take n).bind fun b => ?_
  split
  · exact steady_ret _
  · exact steady_fail _

theorem Steady.repeated {r : ByteReader α} (hr : r.Steady) (n : Nat) (done : Array α) :
    (repeated r n done).Steady := by
  induction n generalizing done with
  | zero => exact steady_ret done
  | succ n ih => exact hr.bind fun a => ih (done.push a)

theorem Steady.fails {r : ByteReader α} (hr : r.Steady) {p t rest : Bytes} {a : α} (ht : t ≠ [])
    (hwhole : ∀ x rest, r (p ++ t) = (.ok x, rest) → rest = []) : r p ≠ (.ok a, rest) := by
  intro h
  have hnil := hwhole a _ (hr.append t h)
  exact ht (List.append_eq_nil_iff.mp hnil).2

end ByteReader

namespace NetworkImage

open ByteReader

variable {pack : Bytes → Bytes}

section Readers

theorem steady_readEntries : readEntries.Steady := steady_u32.bind fun n => steady_f32.repeated n #[]

theorem steady_readLayer : readLayer.Steady := by
  refine steady_u32.bind fun inputs => steady_u32.bind fun outputs => steady_readEntries.bind fun data => ?_
  split
  · exact steady_fail _
  · refine steady_readEntries.bind fun data => ?_
    split
    · exact steady_fail _
    · split
      · exact steady_fail _
      · exact steady_ret _

theorem steady_readNetwork : readNetwork.Steady := by
  refine steady_text.bind fun name => steady_f32.bind fun plasticity => steady_f32.bind fun satisfaction => ?_
  refine steady_u64.bind fun capacity => steady_u64.bind fun lastExpansion => steady_u64.bind fun state => ?_
  refine steady_u32.bind fun count => ?_
  split
  · exact steady_fail _
  · refine (steady_readLayer.repeated count #[]).bind fun layers => ?_
    split
    · exact steady_ret _
    · exact steady_fail _

theorem steady_orFail {α : Type} (e : ImageError) (o : Option α) : (orFail e o).Steady := by
  cases o with
  | none => exact steady_fail e
  | some a => exact steady_ret a

theorem steady_readMemory (z : Codec) : (readMemory z).Steady := by
  refine steady_text.bind fun memory => (steady_orFail _ _).bind fun entries => ?_
  exact steady_text.bind fun goal => (steady_orFail _ _).bind fun j => steady_ret _

end Readers

section Chunks

variable {c : Chunk}

theorem header_ok {b rest : Bytes} {r : Bytes × Nat} (h : Chunk.header b = (.ok r, rest)) : 8 ≤ b.length := by
  obtain ⟨tag, mid, htag, h⟩ := bind_ok h
  obtain ⟨length, mid', hlength, h⟩ := bind_ok h
  obtain ⟨rfl, htag⟩ := take_ok htag
  obtain ⟨front, rfl, hfront⟩ := word_ok hlength
  rw [List.length_append, List.length_append]
  omega

theorem read_short (z : Codec) {b : Bytes} (h : b.length < 8) : Chunk.read z b = .ok none := by
  unfold Chunk.read
  cases hheader : Chunk.header b with
  | mk result rest =>
    cases result with
    | error e => rfl
    | ok r => exact absurd (header_ok hheader) (Nat.not_le_of_lt h)

theorem readContents_short (z : Codec) {b : Bytes} (h : b.length < 8) (count : Nat) (c : Contents) :
    readContents z count c b = .ok c := by
  cases count with
  | zero => rfl
  | succ count => simp only [readContents, read_short z h, Bind.bind, Except.bind]; rfl

theorem unpackBody_cut {z : Codec} (hpack : z.Restores) (hcut : z.Shortens) (hp : c.payload.length < twoTo 32)
    {front t d : Bytes} (ht : t ≠ []) (hfront : front ++ t = blockBytes z.pack c)
    (h : Chunk.unpackBody z front = .ok d) : ∃ more, c.payload = d ++ more ∧ more ≠ [] := by
  unfold Chunk.unpackBody at h
  split at h
  · cases h
  · rename_i size packed hsize
    have hwhole := steady_u32.append t hsize
    rw [hfront, blockBytes, (reads_u32 hp).eq] at hwhole
    obtain ⟨-, hblock⟩ := Prod.mk.inj hwhole
    unfold Codec.unblock at h
    split at h
    · rename_i payload hd
      cases h
      exact hcut size c.payload.length packed t d c.payload ht hd (hblock ▸ hpack c.payload)
    · cases h

/-- A chunk of whose block not all bytes are there, or are counted in its header. -/
theorem read_cut {z : Codec} (hpack : z.Restores) (hcut : z.Shortens) (htag : c.tag.length = 4)
    (hp : c.payload.length < twoTo 32) {b t : Bytes} (ht : t ≠ [])
    (hb : b.take (statedLength z.pack c) ++ t = blockBytes z.pack c) {r : Option (Chunk × Bytes)}
    (h : Chunk.read z (c.tag ++ (Bytes.u32 (statedLength z.pack c) ++ b)) = .ok r) :
    ∃ d more, r = some (⟨c.tag, d⟩, b.drop (statedLength z.pack c)) ∧ c.payload = d ++ more ∧ more ≠ [] := by
  have htotal : statedLength z.pack c < twoTo 32 := by
    have hpos : 0 < twoTo 32 := by decide
    unfold statedLength
    omega
  rw [read_header z htag htotal] at h
  cases hd : Chunk.unpackBody z (b.take (statedLength z.pack c)) with
  | error e =>
    rw [hd] at h
    cases h
  | ok d =>
    rw [hd] at h
    cases h
    obtain ⟨more, hmore⟩ := unpackBody_cut hpack hcut hp ht hb hd
    exact ⟨d, more, rfl, hmore⟩

end Chunks

section Written

variable {n : Network}

theorem text_eq_ok {s : String} {b : Bytes} (h : Bytes.text s = .ok b) : (Bytes.ofText s).length < twoTo 32 := by
  obtain ⟨_, hlength, _⟩ := ok_of_bind h
  exact (length32_eq_ok hlength).1

theorem writeNetwork_bounds {b : Bytes} (h : writeNetwork n = .ok b) :
    (Bytes.ofText n.name).length < twoTo 32 ∧ n.layers.length < twoTo 32 := by
  obtain ⟨_, hname, h⟩ := ok_of_bind h
  obtain ⟨_, hcount, _⟩ := ok_of_bind h
  exact ⟨text_eq_ok hname, (length32_eq_ok hcount).1⟩

theorem writeMemory_bounds {b : Bytes} (h : writeMemory n = .ok b) :
    (Bytes.ofText (memoryJson n.memory).text).length < twoTo 32 ∧
      (Bytes.ofText (n.goal.getD .null).text).length < twoTo 32 := by
  obtain ⟨_, hmemory, h⟩ := ok_of_bind h
  obtain ⟨_, hgoal, _⟩ := ok_of_bind h
  exact ⟨text_eq_ok hmemory, text_eq_ok hgoal⟩

theorem writeNetwork_eq_ok (h : n.WellFormed) {b : Bytes} (hb : writeNetwork n = .ok b) : b = networkBytes n := by
  obtain ⟨hname, hcount⟩ := writeNetwork_bounds hb
  simp only [writeNetwork, text_ok hname, length32_ok hcount, writeLayers_ok h.layers, Bind.bind,
    Except.bind] at hb
  rw [← Except.ok.inj hb, networkBytes]
  simp only [List.append_assoc]

theorem writeMemory_eq_ok {b : Bytes} (hb : writeMemory n = .ok b) : b = memoryBytes n := by
  obtain ⟨hmemory, hgoal⟩ := writeMemory_bounds hb
  simp only [writeMemory, text_ok hmemory, text_ok hgoal, Bind.bind, Except.bind] at hb
  exact (Except.ok.inj hb).symm

def networkChunk (n : Network) : Chunk := ⟨networkTag, networkBytes n⟩

def memoryChunk (n : Network) : Chunk := ⟨memoryTag, memoryBytes n⟩

/-- What was written has lengths that fit their fields, whatever packs the chunks. -/
theorem write_eq_ok (h : n.WellFormed) (hlast : n.lastExpansion < twoTo 64) {b : Bytes}
    (hb : write n pack = .ok b) : Fits (fun _ => []) n ∧ ∃ first second,
      (networkChunk n).toBytes pack = .ok first ∧ (memoryChunk n).toBytes pack = .ok second ∧
      b = magic ++ (Bytes.u32 version ++ (first ++ second)) := by
  obtain ⟨network, hnetwork, hb⟩ := ok_of_bind hb
  obtain ⟨first, hfirst, hb⟩ := ok_of_bind hb
  obtain ⟨memory, hmemory, hb⟩ := ok_of_bind hb
  obtain ⟨second, hsecond, hwhole⟩ := ok_of_bind hb
  obtain ⟨hname, hcount⟩ := writeNetwork_bounds hnetwork
  obtain ⟨hmemoryText, hgoalText⟩ := writeMemory_bounds hmemory
  obtain rfl := writeNetwork_eq_ok h hnetwork
  obtain rfl := writeMemory_eq_ok hmemory
  have hempty : ([] : Bytes).length + 4 < twoTo 32 := by decide
  refine ⟨⟨hname, hcount, hlast, hmemoryText, hgoalText, (toBytes_eq_ok hfirst).1, hempty,
    (toBytes_eq_ok hsecond).1, hempty⟩, first, second, hfirst, hsecond, ?_⟩
  rw [← Except.ok.inj hwhole]
  simp only [List.append_assoc]

theorem readNetwork_cut {pack' : Bytes → Bytes} (h : n.WellFormed) (hf : Fits pack' n) {d more : Bytes}
    (hd : networkBytes n = d ++ more) (hmore : more ≠ []) (m : Network) : (readNetwork d).1 ≠ .ok m := by
  intro hm
  refine steady_readNetwork.fails hmore (fun x rest hx => ?_) (Prod.ext hm rfl)
  have hall := (reads_network h hf).eq []
  rw [List.append_nil, hd, hx] at hall
  exact (Prod.mk.inj hall).2

theorem orFail_ok {α : Type} {e : ImageError} {o : Option α} {b rest : Bytes} {a : α}
    (h : orFail e o b = (.ok a, rest)) : rest = b := by
  cases o with
  | none => cases h
  | some _ =>
    cases h
    rfl

/-- Nothing is left of a written memory, whether its texts are data or not. -/
theorem readMemory_whole {z : Codec} {pack' : Bytes → Bytes} (hf : Fits pack' n)
    {r : List (String × Json) × Option Json} {rest : Bytes} (h : readMemory z (memoryBytes n) = (.ok r, rest)) :
    rest = [] := by
  have hmemory := reads_text hf.memoryText
  have hgoal := reads_text hf.goalText
  unfold readMemory at h
  rw [memoryBytes, textBytes, hmemory.bind_append] at h
  obtain ⟨entries, mid, hentries, h⟩ := bind_ok h
  rw [orFail_ok hentries, textBytes, hgoal.bind_all] at h
  obtain ⟨goal, mid', hgoal', h⟩ := bind_ok h
  cases h
  exact orFail_ok hgoal'

theorem readMemory_cut (z : Codec) {pack' : Bytes → Bytes} (hf : Fits pack' n) {d more : Bytes}
    (hd : memoryBytes n = d ++ more) (hmore : more ≠ []) (r : List (String × Json) × Option Json) :
    (readMemory z d).1 ≠ .ok r := by
  intro hr
  refine (steady_readMemory z).fails hmore (fun x rest hx => ?_) (Prod.ext hr rfl)
  rw [← hd] at hx
  exact readMemory_whole hf hx

end Written

section Cut

variable {n : Network} {z : Codec} {pack' : Bytes → Bytes}

theorem body_ok {p q : Bytes} (h : (body p).1 = .ok q) : ∃ front, p = front ++ q ∧ front.length = 12 := by
  obtain ⟨m, mid, hm, h⟩ := bind_ok (Prod.ext h rfl : body p = (.ok q, (body p).2))
  by_cases hmagic : m = magic
  · rw [if_pos hmagic] at h
    obtain ⟨v, mid', hv, h⟩ := bind_ok h
    generalize instDecidableEqNat v version = known at h
    cases known with
    | isFalse _ => cases h
    | isTrue _ =>
      cases (Prod.mk.inj h).1
      obtain ⟨rfl, hmlength⟩ := take_ok hm
      obtain ⟨front, rfl, hfront⟩ := word_ok hv
      refine ⟨m ++ front, (List.append_assoc ..).symm, ?_⟩
      rw [List.length_append, hmlength, hfront]
  · rw [if_neg hmagic] at h
    cases h

theorem add_networkTag (c : Contents) (b : Bytes) :
    c.add ⟨networkTag, b⟩ = (readNetwork b).1 >>= fun n => pure { c with network := some n } := if_pos rfl

/-- Reading ends at a network of whose block a part is missing. -/
theorem readContents_network_cut (h : n.WellFormed) (hf : Fits pack' n) (hpack : z.Restores) (hcut : z.Shortens)
    {b t : Bytes} (ht : t ≠ [])
    (hb : b.take (statedLength z.pack (networkChunk n)) ++ t = blockBytes z.pack (networkChunk n))
    (count : Nat) (c d : Contents) : readContents z (count + 1) c
      (networkTag ++ (Bytes.u32 (statedLength z.pack (networkChunk n)) ++ b)) ≠ .ok d := by
  intro hd
  obtain ⟨r, hr, hd⟩ := ok_of_bind hd
  obtain ⟨front, more, rfl, hpayload, hmore⟩ :=
    read_cut hpack hcut length_networkTag hf.network ht hb hr
  obtain ⟨c', hadd, -⟩ := ok_of_bind hd
  obtain ⟨m, hm, -⟩ := ok_of_bind ((add_networkTag c front).symm.trans hadd)
  exact readNetwork_cut h hf hpayload hmore m hm

/-- Reading takes a memory of whose block a part is missing for a shorter one. -/
theorem readContents_memory_cut (hf : Fits pack' n) (hpack : z.Restores) (hcut : z.Shortens) {b t : Bytes}
    (ht : t ≠ []) (hb : b ++ t = blockBytes z.pack (memoryChunk n))
    (hblock : (z.pack (memoryBytes n)).length < twoTo 32) {count : Nat} {c d : Contents}
    (hd : readContents z (count + 1) c
      (memoryTag ++ (Bytes.u32 (statedLength z.pack (memoryChunk n)) ++ b)) = .ok d) :
    ∃ front more, d = { c with memory := some front } ∧ memoryBytes n = front ++ more ∧ more ≠ [] := by
  have hlength : b.length + t.length = (z.pack (memoryBytes n)).length + 4 := by
    rw [← List.length_append, hb]
    exact length_blockBytes z.pack (memoryChunk n)
  have hpos := List.length_pos_iff.mpr ht
  have hrest : b.take (statedLength z.pack (memoryChunk n)) ++
      (b.drop (statedLength z.pack (memoryChunk n)) ++ t) = blockBytes z.pack (memoryChunk n) := by
    rw [← List.append_assoc, List.take_append_drop, hb]
  obtain ⟨r, hr, hd⟩ := ok_of_bind hd
  obtain ⟨front, more, rfl, hpayload, hmore⟩ :=
    read_cut hpack hcut length_memoryTag hf.memory (List.append_ne_nil_of_right_ne_nil _ ht) hrest hr
  -- At most three bytes are beyond the length that the header states.
  have hshort : (b.drop (statedLength z.pack (memoryChunk n))).length < 8 := by
    have hstated : statedLength z.pack (memoryChunk n) =
      min ((z.pack (memoryBytes n)).length + 4) (twoTo 32 - 1) := rfl
    rw [List.length_drop, hstated]
    omega
  obtain ⟨c', hadd, hd⟩ := ok_of_bind hd
  cases (add_memory front c).symm.trans hadd
  cases (readContents_short z hshort count _).symm.trans hd
  exact ⟨front, more, rfl, hpayload, hmore⟩

theorem append_split {a b c d : Bytes} (h : a ++ b = c ++ d) (hle : c.length ≤ a.length) :
    ∃ y, a = c ++ y ∧ y ++ b = d := by
  have hc : c <+: a ++ b := by
    rw [h]
    exact List.prefix_append c d
  obtain ⟨y, rfl⟩ := List.prefix_of_prefix_length_le hc (List.prefix_append a b) hle
  rw [List.append_assoc] at h
  exact ⟨y, rfl, List.append_cancel_left h⟩

theorem header_split {q x tag block : Bytes} {total : Nat} (htag : tag.length = 4) (hq : 8 ≤ q.length)
    (h : q ++ x = tag ++ (Bytes.u32 total ++ block)) :
    ∃ y, q = tag ++ (Bytes.u32 total ++ y) ∧ y ++ x = block := by
  have hlength : (tag ++ Bytes.u32 total).length = 8 := by
    rw [List.length_append, htag, Bytes.u32, Bytes.length_ofWord]
  rw [← List.append_assoc] at h
  obtain ⟨y, rfl, hy⟩ := append_split h (by omega)
  exact ⟨y, List.append_assoc .., hy⟩

/-- Nothing comes of less than the first chunk. -/
theorem read_cut_first (h : n.WellFormed) (hf : Fits pack' n)
    (hpack : z.Restores) (hcut : z.Shortens) {first q x : Bytes}
    (hfirst : (networkChunk n).toBytes z.pack = .ok first) (hx : x ≠ []) (hq : q ++ x = first) {count : Nat}
    {c : Contents} (hc : readContents z (count + 1) ⟨none, none⟩ q = .ok c) (m : Network) : c.finish z ≠ .ok m := by
  rw [(toBytes_eq_ok hfirst).2.2] at hq
  by_cases hshort : q.length < 8
  · cases (readContents_short z hshort _ _).symm.trans hc
    exact fun hm => by cases hm
  · obtain ⟨y, rfl, hy⟩ := header_split length_networkTag (Nat.le_of_not_lt hshort) hq
    rw [← List.take_append_drop (statedLength z.pack (networkChunk n)) y, List.append_assoc] at hy
    exact absurd hc (readContents_network_cut h hf hpack hcut (List.append_ne_nil_of_right_ne_nil _ hx) hy count _ c)

/-- After the first chunk the second is there as a whole, or its header is not. -/
theorem read_cut_second (h : n.WellFormed) (hf : Fits pack' n)
    (hpack : z.Restores) (hcut : z.Shortens) {first second q t : Bytes}
    (hfirst : (networkChunk n).toBytes z.pack = .ok first) (hsecond : (memoryChunk n).toBytes z.pack = .ok second)
    (ht : t ≠ []) (hq : q ++ t = second) {count : Nat} {c : Contents}
    (hc : readContents z (count + 2) ⟨none, none⟩ (first ++ q) = .ok c) {m : Network} (hm : c.finish z = .ok m) :
    q.length < 8 ∧ m = { n with memory := [], goal := none } := by
  obtain ⟨hpayload, hpacked, -⟩ := toBytes_eq_ok hfirst
  by_cases hfit : (z.pack (networkBytes n)).length + 4 < twoTo 32
  · have hchunk : first = chunkBytes z.pack (networkChunk n) :=
      Except.ok.inj (hfirst.symm.trans (toBytes_ok hpayload hfit))
    have hread : Chunk.read z (first ++ q) = .ok (some (networkChunk n, q)) := by
      rw [hchunk]
      exact read_chunk hpack length_networkTag hpayload hfit q
    rw [readContents_chunk hread (add_network h hf _)] at hc
    by_cases hshort : q.length < 8
    · cases (readContents_short z hshort _ _).symm.trans hc
      exact ⟨hshort, (Except.ok.inj hm).symm⟩
    · rw [(toBytes_eq_ok hsecond).2.2] at hq
      obtain ⟨y, rfl, hy⟩ := header_split length_memoryTag (Nat.le_of_not_lt hshort) hq
      obtain ⟨front, more, rfl, hmemory, hmore⟩ :=
        readContents_memory_cut hf hpack hcut ht hy (toBytes_eq_ok hsecond).2.1 hc
      obtain ⟨r, hr, -⟩ := ok_of_bind hm
      exact absurd hr (readMemory_cut z hf hmemory hmore r)
  · -- The header states less than the length of the block.
    have hlength := length_blockBytes z.pack (networkChunk n)
    have hstated : statedLength z.pack (networkChunk n) < (blockBytes z.pack (networkChunk n)).length := by
      have hpayload' : (networkChunk n).payload = networkBytes n := rfl
      rw [hlength, statedLength, hpayload']
      omega
    have htake : (blockBytes z.pack (networkChunk n) ++ q).take (statedLength z.pack (networkChunk n)) ++
        (blockBytes z.pack (networkChunk n)).drop (statedLength z.pack (networkChunk n)) =
        blockBytes z.pack (networkChunk n) := by
      rw [List.take_append_of_le_length (Nat.le_of_lt hstated), List.take_append_drop]
    have hdrop : (blockBytes z.pack (networkChunk n)).drop (statedLength z.pack (networkChunk n)) ≠ [] :=
      fun hnil => Nat.not_le_of_lt hstated (List.drop_eq_nil_iff.mp hnil)
    rw [(toBytes_eq_ok hfirst).2.2, List.append_assoc, List.append_assoc] at hc
    exact absurd hc (readContents_network_cut h hf hpack hcut hdrop htake _ _ c)

theorem read_cut_image (h : n.WellFormed) (hf : Fits pack' n)
    (hpack : z.Restores) (hcut : z.Shortens) {first second p t : Bytes}
    (hfirst : (networkChunk n).toBytes z.pack = .ok first) (hsecond : (memoryChunk n).toBytes z.pack = .ok second)
    (ht : t ≠ []) (hp : p ++ t = magic ++ (Bytes.u32 version ++ (first ++ second))) {m : Network}
    (hm : read z p = .ok m) :
    ∃ q, p = magic ++ (Bytes.u32 version ++ first) ++ q ∧ q.length < 8 ∧
      m = { n with memory := [], goal := none } := by
  obtain ⟨q, hbody, hread⟩ := ok_of_bind hm
  obtain ⟨c, hc, hfinish⟩ := ok_of_bind hread
  obtain ⟨front, rfl, hfront⟩ := body_ok hbody
  have hlength : (magic ++ Bytes.u32 version).length = front.length := by
    rw [hfront, List.length_append, length_magic, Bytes.u32, Bytes.length_ofWord]
  rw [List.append_assoc, ← List.append_assoc magic] at hp
  obtain ⟨rfl, hq⟩ := List.append_inj hp hlength.symm
  by_cases hle : first.length ≤ q.length
  · obtain ⟨rest, rfl, hrest⟩ := append_split hq hle
    have hpos : 8 ≤ first.length := by
      rw [(toBytes_eq_ok hfirst).2.2, List.length_append, List.length_append, Bytes.u32, Bytes.length_ofWord]
      have htag : (networkChunk n).tag.length = 4 := length_networkTag
      omega
    obtain ⟨count, hcount⟩ : ∃ count, (first ++ rest).length + 1 = count + 2 := by
      refine ⟨(first ++ rest).length - 1, ?_⟩
      rw [List.length_append]
      omega
    rw [hcount] at hc
    obtain ⟨hshort, rfl⟩ := read_cut_second h hf hpack hcut hfirst hsecond ht hrest hc hfinish
    exact ⟨rest, by simp only [List.append_assoc], hshort, rfl⟩
  · obtain ⟨x, hx, -⟩ := append_split hq.symm (Nat.le_of_not_le hle)
    have hne : x ≠ [] := by
      rintro rfl
      rw [hx, List.append_nil] at hle
      exact hle (Nat.le_refl _)
    exact absurd hfinish (read_cut_first h hf hpack hcut hfirst hne hx.symm hc m)

theorem exists_ofChunks_one {c : Chunk} {b : Bytes} (h : c.toBytes pack = .ok b) :
    ofChunks pack [c] = .ok (magic ++ (Bytes.u32 version ++ b)) := by
  have hwritten : ([c].mapM fun c => c.toBytes pack) = .ok [b] := mapM_eq_ok.mpr (.cons h .nil)
  rw [ofChunks, hwritten]
  simp only [Bind.bind, Except.bind, List.flatten_cons, List.flatten_nil, List.append_nil]
  rfl

theorem read_network_alone (h : n.WellFormed) (hf : Fits pack' n)
    (hpack : z.Restores) (hpacked : (z.pack (networkBytes n)).length + 4 < twoTo 32)
    {b : Bytes} (hb : ofChunks z.pack [networkChunk n] = .ok b) :
    read z b = .ok { n with memory := [], goal := none } := by
  have hnetwork : networkOf (networkChunk n) = .ok { n with memory := [], goal := none } :=
    (reads_network h hf).whole
  have hnetworks : tagged networkTag [networkChunk n] = [networkChunk n] := tagged_cons_of_eq rfl []
  have hmemories : tagged memoryTag [networkChunk n] = [] :=
    tagged_cons_of_ne (c := networkChunk n) memoryTag_ne.symm []
  have htag : ∀ c ∈ [networkChunk n], c.tag.length = 4 := List.forall_mem_singleton.mpr length_networkTag
  rw [read_chunks hpack htag (List.forall_mem_singleton.mpr hpacked) hb, meaning, hnetworks, hmemories,
    List.mapM_cons, hnetwork]
  rfl

theorem exists_cut_before_memory (h : n.WellFormed) (hf : Fits z.pack n)
    (hpack : z.Restores) {b : Bytes} (hb : write n z.pack = .ok b) :
    ∃ p, p <+: b ∧ p ≠ b ∧ read z p = .ok { n with memory := [], goal := none } := by
  cases (write_ok h hf).symm.trans hb
  have hfront := exists_ofChunks_one (toBytes_ok (c := networkChunk n) hf.network hf.packedNetwork)
  have hwhole : magic ++ (Bytes.u32 version ++ chunkBytes z.pack (networkChunk n)) ++
      chunkBytes z.pack (memoryChunk n) = magic ++ (Bytes.u32 version ++
        (chunkBytes z.pack (networkChunk n) ++ chunkBytes z.pack (memoryChunk n))) := by
    simp only [List.append_assoc]
  refine ⟨_, ⟨_, hwhole⟩, fun heq => ?_, read_network_alone h hf hpack hf.packedNetwork hfront⟩
  have hempty : chunkBytes z.pack (memoryChunk n) = [] := List.self_eq_append_right.mp (heq.trans hwhole.symm)
  have hpos := length_le_chunkBytes z.pack [memoryChunk n]
  rw [List.flatMap_singleton, hempty] at hpos
  exact Nat.not_succ_le_zero _ hpos

end Cut

/-- An accepted prefix ends at the first chunk or less than a header after it. -/
theorem cut_short_refused {n : Network} (h : n.WellFormed) (hlast : n.lastExpansion < twoTo 64)
    (hpack : z.Restores) (hcut : z.Shortens) {b : Bytes} (hb : write n z.pack = .ok b) :
    ∃ front back, b = front ++ back ∧ ofChunks z.pack [⟨networkTag, networkBytes n⟩] = .ok front ∧
      Chunk.toBytes ⟨memoryTag, memoryBytes n⟩ z.pack = .ok back ∧
      ((z.pack (networkBytes n)).length + 4 < twoTo 32 → read z front = .ok { n with memory := [], goal := none }) ∧
      ∀ p, p <+: b → p ≠ b → (∃ e, read z p = .error e) ∨
        front <+: p ∧ p.length < front.length + 8 ∧ read z p = .ok { n with memory := [], goal := none } := by
  obtain ⟨hf, first, second, hfirst, hsecond, rfl⟩ := write_eq_ok h hlast hb
  have hfront := exists_ofChunks_one hfirst
  refine ⟨magic ++ (Bytes.u32 version ++ first), second, by simp only [List.append_assoc], hfront, hsecond,
    fun hpacked => read_network_alone h hf hpack hpacked hfront, ?_⟩
  rintro p ⟨t, hp⟩ hne
  have ht : t ≠ [] := by
    rintro rfl
    rw [List.append_nil] at hp
    exact hne hp
  cases hread : read z p with
  | error e => exact .inl ⟨e, rfl⟩
  | ok m =>
    obtain ⟨q, rfl, hshort, rfl⟩ := read_cut_image h hf hpack hcut hfirst hsecond ht hp hread
    refine .inr ⟨List.prefix_append _ _, ?_, rfl⟩
    rw [List.length_append]
    omega

theorem forager_cut_short : ∃ b, write forager Lz4.pack = .ok b ∧
    ∀ p, p <+: b → p ≠ b → (∃ e, read .standard p = .error e) ∨
      read .standard p = .ok { forager with memory := [], goal := none } := by
  have hwrite := write_ok wellFormed_forager fits_forager
  obtain ⟨front, back, -, -, -, -, hcut⟩ := cut_short_refused wellFormed_forager fits_forager.lastExpansion
    Codec.standard_restores Codec.standard_shortens hwrite
  refine ⟨_, hwrite, fun p hp hne => (hcut p hp hne).imp_right ?_⟩
  rintro ⟨-, -, hread⟩
  exact hread

/-- Without its last chunk the image is accepted, and what the network remembered is gone. -/
theorem memory_cut_off : forager.WellFormed ∧ ∃ b p m, write forager Lz4.pack = .ok b ∧ p <+: b ∧ p ≠ b ∧
    read .standard p = .ok m ∧ m.memory ≠ forager.memory ∧ m.goal ≠ forager.goal := by
  have hwrite := write_ok wellFormed_forager fits_forager
  obtain ⟨p, hprefix, hne, hread⟩ :=
    exists_cut_before_memory wellFormed_forager fits_forager Codec.standard_restores hwrite
  exact ⟨wellFormed_forager, _, p, _, hwrite, hprefix, hne, hread,
    (List.cons_ne_nil _ _).symm, (Option.some_ne_none _).symm⟩

end NetworkImage

end Apiary
