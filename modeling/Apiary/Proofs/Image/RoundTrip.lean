import Apiary.Proofs.Image.Packed
import Apiary.Proofs.Image.Reading
import Apiary.Proofs.Json.ReadBack

/-!
Writing a network and reading the image back. Each part of an image is read exactly as far as it was
written, whatever follows it.
-/

namespace Apiary

namespace ByteReader

variable {α β : Type}

structure Reads (r : ByteReader α) (b : Bytes) (a : α) : Prop where
  eq (rest : Bytes) : r (b ++ rest) = (.ok a, rest)

theorem Reads.whole {r : ByteReader α} {b : Bytes} {a : α} (h : r.Reads b a) : (r b).1 = .ok a := by
  have hnil := h.eq []
  rw [List.append_nil] at hnil
  rw [hnil]

theorem reads_ret (a : α) : (pure a : ByteReader α).Reads [] a := ⟨fun _ => rfl⟩

theorem Reads.bind_append {r : ByteReader α} {b : Bytes} {a : α} (h : r.Reads b a)
    (f : α → ByteReader β) (rest : Bytes) : (r >>= f) (b ++ rest) = f a rest := by
  simp only [Bind.bind, h.eq]

theorem Reads.bind {r : ByteReader α} {f : α → ByteReader β} {b c : Bytes} {a : α} {x : β}
    (hr : r.Reads b a) (hf : (f a).Reads c x) : (r >>= f).Reads (b ++ c) x where
  eq rest := by
    rw [List.append_assoc, hr.bind_append]
    exact hf.eq rest

theorem Reads.last {r : ByteReader α} {f : α → ByteReader β} {b : Bytes} {a : α} {x : β}
    (hr : r.Reads b a) (hf : f a = pure x) : (r >>= f).Reads b x := by
  have h := hr.bind (f := f) (c := []) (x := x) (by rw [hf]; exact reads_ret x)
  rwa [List.append_nil] at h

theorem reads_take {n : Nat} {b : Bytes} (h : b.length = n) : (take n).Reads b b where
  eq rest := by
    subst h
    simp only [take, List.take_left, List.drop_left, if_true]

theorem reads_word {n w : Nat} (h : w < twoTo (8 * n)) : (word n).Reads (Bytes.ofWord n w) w :=
  (reads_take (Bytes.length_ofWord n w)).last (by rw [Bytes.toWord_ofWord n w h])

theorem reads_u32 {w : Nat} (h : w < twoTo 32) : u32.Reads (Bytes.u32 w) w := reads_word h

theorem reads_u64 {w : Nat} (h : w < twoTo 64) : u64.Reads (Bytes.u64 w) w := reads_word h

theorem reads_f32 (x : Single) : f32.Reads (Bytes.f32 x) x :=
  (reads_u32 x.bits.toNat_lt).last (by rw [UInt32.ofNat_toNat])

theorem reads_counted {b : Bytes} (h : b.length < twoTo 32) :
    counted.Reads (Bytes.u32 b.length ++ b) b :=
  (reads_u32 h).bind (reads_take rfl)

theorem toList_loop (b : ByteArray) (i : Nat) (done : List UInt8) :
    ByteArray.toList.loop b i done = done.reverse ++ b.data.toList.drop i := by
  fun_induction ByteArray.toList.loop b i done with
  | case1 i done hlt ih =>
    have hbyte : b.get! i = b.data[i] := getElem!_pos b.data i hlt
    have hdrop : b.data.toList.drop i = b.data[i] :: b.data.toList.drop (i + 1) :=
      List.drop_eq_getElem_cons hlt
    rw [ih, hbyte, List.reverse_cons, List.append_assoc, hdrop]
    rfl
  | case2 i done hge =>
    rw [List.drop_of_length_le (Nat.le_of_not_lt hge), List.append_nil]

theorem ofText_eq (s : String) : Bytes.ofText s = s.toUTF8.data.toList := by
  rw [Bytes.ofText, ByteArray.toList, toList_loop, List.reverse_nil, List.nil_append,
    List.drop_zero]

theorem toText?_ofText (s : String) : Bytes.toText? (Bytes.ofText s) = some s := by
  have hvalid : s.toUTF8.IsValidUTF8 := s.isValidUTF8
  rw [Bytes.toText?, ofText_eq, Array.toArray_toList, String.fromUTF8?, dif_pos hvalid]
  rfl

theorem reads_text {s : String} (h : (Bytes.ofText s).length < twoTo 32) :
    text.Reads (Bytes.u32 (Bytes.ofText s).length ++ Bytes.ofText s) s :=
  (reads_counted h).last (by rw [toText?_ofText])

theorem reads_repeated {r : ByteReader α} {enc : α → Bytes} {xs : List α}
    (h : ∀ x ∈ xs, r.Reads (enc x) x) (done : Array α) :
    (repeated r xs.length done).Reads (xs.flatMap enc) (done ++ xs.toArray) := by
  induction xs generalizing done with
  | nil =>
    rw [Array.append_empty]
    exact reads_ret done
  | cons x rest ih =>
    have hrest := ih (fun y hy => h y (List.mem_cons_of_mem x hy)) (done.push x)
    rw [List.flatMap_cons]
    refine (h x List.mem_cons_self).bind ?_
    have heq : done.push x ++ rest.toArray = done ++ (x :: rest).toArray := by simp
    rw [← heq]
    exact hrest

end ByteReader

namespace NetworkImage

open ByteReader

theorem length32_ok {n : Nat} (h : n < twoTo 32) : Bytes.length32 n = .ok (Bytes.u32 n) := if_pos h

def entryBytes (data : Array Single) : Bytes :=
  Bytes.u32 data.size ++ data.toList.flatMap Bytes.f32

theorem writeEntries_ok {data : Array Single} (h : data.size < twoTo 32) :
    writeEntries data = .ok (entryBytes data) := by
  rw [writeEntries, length32_ok h]
  rfl

theorem reads_entries {data : Array Single} (h : data.size < twoTo 32) :
    readEntries.Reads (entryBytes data) data := by
  have hall := reads_repeated (fun x (_ : x ∈ data.toList) => reads_f32 x) #[]
  rw [Array.length_toList, Array.toArray_toList, Array.empty_append] at hall
  exact (reads_u32 h).bind hall

def layerBytes (l : Layer) : Bytes :=
  Bytes.u32 l.inputs ++
    (Bytes.u32 l.outputs ++ (entryBytes l.weights.data ++ entryBytes l.bias.data))

structure Small (l : Layer) : Prop where
  inputs : l.inputs < twoTo 32
  outputs : l.outputs < twoTo 32
  weights : l.weights.data.size < twoTo 32
  bias : l.bias.data.size < twoTo 32

theorem small_of_wellFormed {l : Layer} (h : l.WellFormed) : Small l := by
  have hmax : maxElements < twoTo 32 := by decide
  have hi : l.inputs ≤ l.inputs * l.outputs := Nat.le_mul_of_pos_right _ h.outputs
  have ho : l.outputs ≤ l.inputs * l.outputs := Nat.le_mul_of_pos_left _ h.inputs
  have hlimit := h.limit
  refine ⟨by omega, by omega, ?_, ?_⟩
  · rw [h.weights_size]
    omega
  · rw [h.bias_size]
    omega

theorem writeLayer_ok {l : Layer} (h : l.WellFormed) : writeLayer l = .ok (layerBytes l) := by
  have hs := small_of_wellFormed h
  simp only [writeLayer, length32_ok hs.inputs, length32_ok hs.outputs, writeEntries_ok hs.weights,
    writeEntries_ok hs.bias, Bind.bind, Except.bind, layerBytes, List.append_assoc]
  rfl

theorem reads_layer {l : Layer} (h : l.WellFormed) : readLayer.Reads (layerBytes l) l := by
  have hs := small_of_wellFormed h
  have hweights : Tensor.ofEntries [l.inputs, l.outputs] l.weights.data = .ok l.weights :=
    Tensor.ofEntries_ok.mpr ⟨by rw [← h.weights_shape], h.weights_filled⟩
  have hbias : Tensor.ofEntries [l.outputs] l.bias.data = .ok l.bias :=
    Tensor.ofEntries_ok.mpr ⟨by rw [← h.bias_shape], h.bias_filled⟩
  have hparts : Layer.ofParts l.weights l.bias = .ok l :=
    (Layer.ofParts_ok h.weights_shape).mpr ⟨rfl, h.bias_size⟩
  refine (reads_u32 hs.inputs).bind ?_
  refine (reads_u32 hs.outputs).bind ?_
  refine (reads_entries hs.weights).bind ?_
  simp only [hweights]
  refine (reads_entries hs.bias).last ?_
  simp only [hbias, hparts]

theorem writeLayers_ok {layers : List Layer} (h : ∀ l ∈ layers, l.WellFormed) :
    writeLayers layers = .ok (layers.flatMap layerBytes) := by
  induction layers with
  | nil => rfl
  | cons l rest ih =>
    have hrest := ih fun m hm => h m (List.mem_cons_of_mem l hm)
    simp only [writeLayers, writeLayer_ok (h l List.mem_cons_self), hrest, Bind.bind, Except.bind]
    rfl

def textBytes (s : String) : Bytes := Bytes.u32 (Bytes.ofText s).length ++ Bytes.ofText s

theorem text_ok {s : String} (h : (Bytes.ofText s).length < twoTo 32) :
    Bytes.text s = .ok (textBytes s) := by
  rw [Bytes.text, Bytes.counted, length32_ok h]
  rfl

def networkBytes (n : Network) : Bytes :=
  textBytes n.name ++ (Bytes.f32 n.plasticity ++ (Bytes.f32 n.satisfaction ++
    (Bytes.u64 n.capacity.bits.toNat ++ (Bytes.u64 n.lastExpansion ++
      (Bytes.u64 n.generator.state.toNat ++ (Bytes.u32 n.layers.length ++
        n.layers.flatMap layerBytes))))))

def memoryBytes (n : Network) : Bytes :=
  textBytes (memoryJson n.memory).text ++ textBytes (n.goal.getD .null).text

def chunkBytes (pack : Bytes → Bytes) (c : Chunk) : Bytes :=
  c.tag ++ (Bytes.u32 ((pack c.payload).length + 4) ++
    (Bytes.u32 c.payload.length ++ pack c.payload))

structure Fits (pack : Bytes → Bytes) (n : Network) : Prop where
  name : (Bytes.ofText n.name).length < twoTo 32
  layers : n.layers.length < twoTo 32
  lastExpansion : n.lastExpansion < twoTo 64
  memoryText : (Bytes.ofText (memoryJson n.memory).text).length < twoTo 32
  goalText : (Bytes.ofText (n.goal.getD .null).text).length < twoTo 32
  network : (networkBytes n).length < twoTo 32
  packedNetwork : (pack (networkBytes n)).length + 4 < twoTo 32
  memory : (memoryBytes n).length < twoTo 32
  packedMemory : (pack (memoryBytes n)).length + 4 < twoTo 32

section Written

variable {n : Network} {pack : Bytes → Bytes}

theorem writeNetwork_ok (h : n.WellFormed) (hf : Fits pack n) :
    writeNetwork n = .ok (networkBytes n) := by
  simp only [writeNetwork, text_ok hf.name, length32_ok hf.layers, writeLayers_ok h.layers,
    Bind.bind, Except.bind, networkBytes, List.append_assoc]
  rfl

theorem ofSeed_state {g : Prng} (h : g.Nonzero) : Prng.ofSeed (UInt64.ofNat g.state.toNat) = g := by
  rw [UInt64.ofNat_toNat, Prng.ofSeed, if_neg h]

theorem reads_network (h : n.WellFormed) (hf : Fits pack n) :
    readNetwork.Reads (networkBytes n) { n with memory := [], goal := none } := by
  have hcapacity : (⟨UInt64.ofNat n.capacity.bits.toNat⟩ : Double) = n.capacity := by
    rw [UInt64.ofNat_toNat]
  have hcount : n.layers.length ≠ 0 := fun h0 => h.nonempty (List.length_eq_zero_iff.mp h0)
  have hlayers := reads_repeated (fun l hl => reads_layer (h.layers l hl)) #[]
  rw [Array.empty_append] at hlayers
  refine (reads_text hf.name).bind ((reads_f32 _).bind ((reads_f32 _).bind ?_))
  refine (reads_u64 n.capacity.bits.toNat_lt).bind ((reads_u64 hf.lastExpansion).bind ?_)
  refine (reads_u64 n.generator.state.toNat_lt).bind ((reads_u32 hf.layers).bind ?_)
  rw [if_neg hcount]
  refine hlayers.last ?_
  simp only [chains_iff.mpr h.chain, if_true, hcapacity, ofSeed_state h.generator]
  rfl

theorem writeMemory_ok (hf : Fits pack n) : writeMemory n = .ok (memoryBytes n) := by
  simp only [writeMemory, text_ok hf.memoryText, text_ok hf.goalText, Bind.bind, Except.bind]
  rfl

theorem memoryOfJson?_memoryJson (memory : List (String × Json)) :
    memoryOfJson? (memoryJson memory) = some memory := by
  unfold memoryOfJson? memoryJson
  induction memory with
  | nil => rfl
  | cons entry rest ih =>
    obtain ⟨key, value⟩ := entry
    simp only [List.map_cons, List.mapM_cons] at ih ⊢
    rw [ih]
    rfl

theorem reads_memory {z : Codec} (hf : Fits pack n)
    (hmemory : z.ofText? (memoryJson n.memory).text = some (memoryJson n.memory))
    (hgoal : z.ofText? (n.goal.getD .null).text = some (n.goal.getD .null)) :
    (readMemory z).Reads (memoryBytes n) (n.memory, n.goal.bind goalOfJson) := by
  have hread : (z.ofText? (memoryJson n.memory).text).bind memoryOfJson? = some n.memory := by
    rw [hmemory, Option.bind_some, memoryOfJson?_memoryJson]
  have hsame : goalOfJson (n.goal.getD .null) = n.goal.bind goalOfJson := by
    cases n.goal <;> rfl
  refine (reads_text hf.memoryText).bind ?_
  rw [hread]
  refine (reads_text hf.goalText).last ?_
  rw [hgoal, ← hsame]
  rfl

theorem toBytes_ok {c : Chunk} (hp : c.payload.length < twoTo 32)
    (hk : (pack c.payload).length + 4 < twoTo 32) : c.toBytes pack = .ok (chunkBytes pack c) := by
  have htotal : min ((pack c.payload).length + 4) (twoTo 32 - 1) = (pack c.payload).length + 4 := by
    omega
  have hpacked : (pack c.payload).length < twoTo 32 := by omega
  simp only [Chunk.toBytes, length32_ok hpacked, length32_ok hp, htotal, Bind.bind, Except.bind,
    chunkBytes, List.append_assoc]
  rfl

theorem read_chunk {z : Codec} (hpack : z.Restores) {c : Chunk} (ht : c.tag.length = 4)
    (hp : c.payload.length < twoTo 32) (hk : (z.pack c.payload).length + 4 < twoTo 32) (rest : Bytes) :
    Chunk.read z (chunkBytes z.pack c ++ rest) = .ok (some (c, rest)) := by
  have hheader : Chunk.header.Reads (c.tag ++ Bytes.u32 ((z.pack c.payload).length + 4))
      (c.tag, (z.pack c.payload).length + 4) :=
    (reads_take ht).bind ((reads_u32 hk).last rfl)
  have hlength : (Bytes.u32 c.payload.length ++ z.pack c.payload).length =
      (z.pack c.payload).length + 4 := by
    rw [List.length_append, Bytes.u32, Bytes.length_ofWord, Nat.add_comm]
  have hbody : Chunk.unpackBody z (Bytes.u32 c.payload.length ++ z.pack c.payload) = .ok c.payload := by
    rw [Chunk.unpackBody, (reads_u32 hp).eq]
    dsimp only
    rw [Codec.unblock, hpack c.payload]
  have hsplit : chunkBytes z.pack c ++ rest =
      (c.tag ++ Bytes.u32 ((z.pack c.payload).length + 4)) ++
        ((Bytes.u32 c.payload.length ++ z.pack c.payload) ++ rest) := by
    simp only [chunkBytes, List.append_assoc]
  unfold Chunk.read
  rw [hsplit, hheader.eq]
  simp only [← hlength, List.take_left, List.drop_left, hbody, Bind.bind, Except.bind]
  rfl

theorem setField_of_not_mem {key : String} (value : Json) {fields : List (String × Json)}
    (h : key ∉ fields.map Prod.fst) : setField key value fields = fields ++ [(key, value)] := by
  induction fields with
  | nil => rfl
  | cons entry rest ih =>
    obtain ⟨k, v⟩ := entry
    simp only [List.map_cons, List.mem_cons, not_or] at h
    rw [setField, if_neg (Ne.symm h.1), ih h.2]
    rfl

theorem remember_of_not_mem (value : Json) {key : String} (h : key ∉ n.memory.map Prod.fst) :
    n.remember key value = { n with memory := n.memory ++ [(key, value)] } := by
  rw [Network.remember, setField_of_not_mem value h]

theorem remember_all {memory : List (String × Json)}
    (h : ((n.memory ++ memory).map Prod.fst).Nodup) :
    memory.foldl (fun n (key, value) => n.remember key value) n =
      { n with memory := n.memory ++ memory } := by
  induction memory generalizing n with
  | nil => rw [List.foldl_nil, List.append_nil]
  | cons entry rest ih =>
    obtain ⟨key, value⟩ := entry
    have hnew : key ∉ n.memory.map Prod.fst := by
      rw [List.map_append, List.nodup_append] at h
      exact fun hmem => h.2.2 key hmem key (by simp) rfl
    rw [List.foldl_cons]
    dsimp only
    rw [remember_of_not_mem value hnew, ih (by simpa using h)]
    simp

theorem withMemory_eq (h : (n.memory.map Prod.fst).Nodup) (goal : Option Json) :
    withMemory { n with memory := [], goal := none } n.memory goal = { n with goal := goal } := by
  have hall : n.memory.foldl (fun n (key, value) => n.remember key value)
      { n with memory := [], goal := none } = { n with goal := none } := remember_all h
  rw [withMemory, hall]

theorem write_ok (h : n.WellFormed) (hf : Fits pack n) :
    write n pack = .ok (magic ++ (Bytes.u32 version ++
      (chunkBytes pack ⟨networkTag, networkBytes n⟩ ++
        chunkBytes pack ⟨memoryTag, memoryBytes n⟩))) := by
  simp only [write, writeNetwork_ok h hf, writeMemory_ok hf, Bind.bind, Except.bind,
    toBytes_ok (c := ⟨networkTag, networkBytes n⟩) hf.network hf.packedNetwork,
    toBytes_ok (c := ⟨memoryTag, memoryBytes n⟩) hf.memory hf.packedMemory, List.append_assoc]
  rfl

theorem length_magic : magic.length = 8 := by
  rw [magic, ofText_eq]
  rfl

theorem length_networkTag : networkTag.length = 4 := by
  rw [networkTag, ofText_eq]
  rfl

theorem length_memoryTag : memoryTag.length = 4 := by
  rw [memoryTag, ofText_eq]
  rfl

theorem memoryTag_ne : memoryTag ≠ networkTag := by
  rw [memoryTag, networkTag, ofText_eq, ofText_eq]
  decide

theorem body_append (chunks : Bytes) :
    (body (magic ++ (Bytes.u32 version ++ chunks))).1 = .ok chunks := by
  have hmagic : (take 8).Reads magic magic := reads_take length_magic
  have hversion : u32.Reads (Bytes.u32 version) version := reads_u32 (by decide)
  unfold body
  rw [hmagic.bind_append, if_pos rfl, hversion.bind_append]
  rfl

theorem add_network (h : n.WellFormed) (hf : Fits pack n) (c : Contents) :
    c.add ⟨networkTag, networkBytes n⟩ =
      .ok { c with network := some { n with memory := [], goal := none } } := by
  rw [Contents.add, if_pos rfl]
  dsimp only
  rw [(reads_network h hf).whole]
  rfl

theorem add_memory (b : Bytes) (c : Contents) :
    c.add ⟨memoryTag, b⟩ = .ok { c with memory := some b } := by
  rw [Contents.add, if_neg memoryTag_ne, if_pos rfl]

theorem readContents_chunk {z : Codec} {c d : Contents} {chunk : Chunk} {b rest : Bytes}
    (hchunk : Chunk.read z b = .ok (some (chunk, rest))) (hadd : c.add chunk = .ok d) (count : Nat) :
    readContents z (count + 1) c b = readContents z count d rest := by
  simp only [readContents, hchunk, hadd, Bind.bind, Except.bind]

theorem readContents_end (z : Codec) (count : Nat) (c : Contents) : readContents z count c [] = .ok c := by
  cases count with
  | zero => rfl
  | succ count => rfl

theorem read_written {z : Codec} (h : n.WellFormed) (hf : Fits z.pack n) (hpack : z.Restores)
    (hmemory : z.ofText? (memoryJson n.memory).text = some (memoryJson n.memory))
    (hgoal : z.ofText? (n.goal.getD .null).text = some (n.goal.getD .null)) :
    read z (magic ++ (Bytes.u32 version ++
      (chunkBytes z.pack ⟨networkTag, networkBytes n⟩ ++
        chunkBytes z.pack ⟨memoryTag, memoryBytes n⟩))) =
      .ok { n with goal := n.goal.bind goalOfJson } := by
  have hfirst := read_chunk hpack (c := ⟨networkTag, networkBytes n⟩) length_networkTag hf.network
    hf.packedNetwork (chunkBytes z.pack ⟨memoryTag, memoryBytes n⟩)
  have hsecond := read_chunk hpack (c := ⟨memoryTag, memoryBytes n⟩) length_memoryTag hf.memory
    hf.packedMemory []
  rw [List.append_nil] at hsecond
  have hcontents (count : Nat) : readContents z (count + 2) ⟨none, none⟩
      (chunkBytes z.pack ⟨networkTag, networkBytes n⟩ ++ chunkBytes z.pack ⟨memoryTag, memoryBytes n⟩) =
      .ok ⟨some { n with memory := [], goal := none }, some (memoryBytes n)⟩ := by
    rw [readContents_chunk hfirst (add_network h hf _), readContents_chunk hsecond (add_memory _ _),
      readContents_end]
  have hlength : ∃ count, (chunkBytes z.pack ⟨networkTag, networkBytes n⟩ ++
      chunkBytes z.pack ⟨memoryTag, memoryBytes n⟩).length + 1 = count + 2 := by
    refine ⟨_, congrArg (· + 1) (Nat.succ_pred_eq_of_pos ?_).symm⟩
    simp only [chunkBytes, List.length_append, Bytes.u32, Bytes.length_ofWord]
    omega
  obtain ⟨count, hcount⟩ := hlength
  unfold read
  rw [body_append]
  simp only [Bind.bind, Except.bind, hcount, hcontents, Contents.finish,
    (reads_memory hf hmemory hgoal).whole]
  exact congrArg Except.ok (withMemory_eq h.keys _)

end Written

end NetworkImage

namespace Network

variable (goal : Option Json) (n : Network)

def withGoal : Network := { n with goal := goal }

theorem expand_withGoal (now : Nat) :
    (n.withGoal goal).expand now = (n.expand now).map (withGoal goal) := by
  simp only [expand, withGoal]
  cases growthSizes? n.layers with
  | none => rfl
  | some sizes =>
    obtain ⟨inputs, outputs⟩ := sizes
    dsimp only
    cases Layer.new inputs outputs (if inputs = outputs then .identity else .random) n.generator with
    | error e => rfl
    | ok r => rfl

theorem autoExpand_withGoal (now : Nat) : (n.withGoal goal).autoExpand now =
    ((n.autoExpand now).1, (n.autoExpand now).2.withGoal goal) := by
  have hgrown := expand_withGoal goal n.drawn now
  have hdrawn : (n.withGoal goal).drawn = n.drawn.withGoal goal := rfl
  have heager : (n.withGoal goal).isEager = n.isEager := rfl
  have hlast : (n.withGoal goal).lastExpansion = n.lastExpansion := rfl
  rw [autoExpand_eq, autoExpand_eq, hdrawn, heager, hlast, hgrown]
  by_cases hready : now - n.lastExpansion ≤ expansionCooldown
  · rw [if_pos hready, if_pos hready]
  · rw [if_neg hready, if_neg hready]
    cases n.isEager with
    | false => rfl
    | true =>
      cases n.drawn.expand now with
      | error e => rfl
      | ok grown => rfl

theorem train_withGoal (input target : List Single) (rate : Single) :
    (n.withGoal goal).train input target rate =
      (n.train input target rate).map fun (step, m) => (step, m.withGoal goal) := by
  have hforward : (n.withGoal goal).forward input = n.forward input := rfl
  have hmutated :
      ((n.withGoal goal).mutate rate).forward input = (n.mutate rate).forward input := rfl
  cases hy : n.forward input with
  | error e => rw [train_of_forward_error hy, train_of_forward_error (hforward.trans hy)]; rfl
  | ok y =>
    cases hz : (n.mutate rate).forward input with
    | error e =>
      simp only [train, hforward, hmutated, hy, hz, Bind.bind, Except.bind]
      rfl
    | ok z =>
      simp only [train, hforward, hmutated, hy, hz, Bind.bind, Except.bind]
      rfl

theorem answer_withGoal (call : NetworkCall) : (n.withGoal goal).answer call =
    ((n.answer call).1, (n.answer call).2.withGoal goal) := by
  cases call with
  | forward input => rfl
  | expand now =>
    simp only [answer, expand_withGoal]
    cases n.expand now <;> rfl
  | autoExpand now => simp only [answer, autoExpand_withGoal]
  | prune threshold => rfl
  | mutate rate => rfl
  | train input target rate =>
    simp only [answer, train_withGoal]
    cases n.train input target rate <;> rfl
  | remember key value => rfl
  | forget => rfl

theorem serve_withGoal (calls : List NetworkCall) :
    serve calls (n.withGoal goal) = ((serve calls n).1, (serve calls n).2.withGoal goal) := by
  induction calls generalizing n with
  | nil => rfl
  | cons call rest ih => simp only [serve, answer_withGoal, ih]

end Network

namespace NetworkImage

theorem read_write {n : Network} {z : Codec} (h : n.WellFormed) (hf : Fits z.pack n)
    (hpack : z.Restores)
    (hmemory : z.ofText? (memoryJson n.memory).text = some (memoryJson n.memory))
    (hgoal : z.ofText? (n.goal.getD .null).text = some (n.goal.getD .null)) :
    ∃ b copy, write n z.pack = .ok b ∧ read z b = .ok copy ∧
      copy = n.withGoal (n.goal.bind goalOfJson) ∧
      ∀ calls, Network.serve calls copy =
        ((Network.serve calls n).1, (Network.serve calls n).2.withGoal copy.goal) :=
  ⟨_, n.withGoal (n.goal.bind goalOfJson), write_ok h hf, read_written h hf hpack hmemory hgoal, rfl,
    Network.serve_withGoal (n.goal.bind goalOfJson) n⟩

/-- Two layers that remember where they fed, and what they look for. -/
def forager : Network where
  name := "forager"
  layers := [⟨2, 3, ⟨[2, 3], #[1, -2, 3, 0, 5, -1]⟩, ⟨[3], #[4, 0, -1]⟩⟩,
    ⟨3, 1, ⟨[3, 1], #[7, -3, 2]⟩, ⟨[1], #[-5]⟩⟩]
  plasticity := 1
  satisfaction := 2
  capacity := 400
  memory := [("home", .arr [.int 3, .float 0.5]), ("seen", .obj [("fox", .bool true), ("owl", .null)])]
  goal := some (.obj [("find", .str "berries"), ("by", .int (-12))])
  lastExpansion := 1500
  generator := ⟨7⟩

theorem wellFormed_forager : forager.WellFormed where
  nonempty := List.cons_ne_nil _ _
  layers l hl := by
    rcases List.mem_pair.mp hl with rfl | rfl
    all_goals exact ⟨by decide, by decide, rfl, rfl, rfl, rfl, by decide⟩
  chain := List.isChain_pair.mpr rfl
  keys := by decide
  generator := by unfold Prng.Nonzero; decide

theorem length_memoryText_forager : (Bytes.ofText (memoryJson forager.memory).text).length ≤ 64 := by
  rw [ByteReader.ofText_eq]
  decide +kernel

theorem length_goalText_forager : (Bytes.ofText (forager.goal.getD .null).text).length ≤ 64 := by
  rw [ByteReader.ofText_eq]
  decide +kernel

theorem fits_forager : Fits Lz4.pack forager := by
  have hlimit : 4096 < twoTo 32 := by decide
  have hmemoryText := length_memoryText_forager
  have hgoalText := length_goalText_forager
  have hname : (Bytes.ofText forager.name).length = 7 := by
    rw [ByteReader.ofText_eq]
    rfl
  have hlayers : forager.layers.length = 2 := rfl
  have hlast : forager.lastExpansion < twoTo 64 := by decide
  have hnetwork : (networkBytes forager).length = 131 := by
    rw [networkBytes, textBytes, List.length_append, List.length_append, hname]
    rfl
  have hmemory : (memoryBytes forager).length ≤ 136 := by
    simp only [memoryBytes, textBytes, List.length_append, Bytes.u32, Bytes.length_ofWord]
    omega
  have hpackedNetwork := Lz4.length_pack_le (networkBytes forager)
  have hpackedMemory := Lz4.length_pack_le (memoryBytes forager)
  exact ⟨by omega, by omega, hlast, by omega, by omega, by omega, by omega, by omega, by omega⟩

theorem ofText_memory_forager :
    Json.ofText? (memoryJson forager.memory).text = some (memoryJson forager.memory) := by
  have hhalf : (Json.float 0.5).Legible := Json.legible_float_iff.mpr (by decide +kernel)
  have hfinite : (0.5 : Double).isFinite = true := by decide +kernel
  have hregular : (memoryJson forager.memory).Regular := by
    simp [memoryJson, forager, Json.Regular, Json.RegularItems, Json.RegularFields, hfinite, twoTo]
  have hlegible : (memoryJson forager.memory).Legible := by
    simp [memoryJson, forager, Json.Legible, Json.LegibleItems, Json.LegibleFields]
    exact hhalf
  exact (Json.ofText_eq_self_iff hregular).mpr ⟨by decide, hlegible⟩

theorem ofText_goal_forager :
    Json.ofText? (forager.goal.getD .null).text = some (forager.goal.getD .null) := by
  have hregular : (forager.goal.getD .null).Regular := by
    simp [forager, Json.Regular, Json.RegularFields, twoTo]
  have hlegible : (forager.goal.getD .null).Legible := by
    simp [forager, Json.Legible, Json.LegibleFields]
  exact (Json.ofText_eq_self_iff hregular).mpr ⟨by decide, hlegible⟩

theorem read_write_forager :
    ∃ b copy, write forager Lz4.pack = .ok b ∧ read .standard b = .ok copy ∧ copy = forager := by
  obtain ⟨b, copy, hw, hr, hcopy, -⟩ :=
    read_write wellFormed_forager fits_forager Codec.standard_restores ofText_memory_forager
      ofText_goal_forager
  exact ⟨b, copy, hw, hr, hcopy⟩

end NetworkImage

end Apiary
