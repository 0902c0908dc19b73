import Apiary.Image.Chunk

/-!
A packed block unpacks to what was packed. One that is cut short unpacks to less or not at all, and so for every codec
that unpacks blocks of this format only.
-/

namespace Apiary

namespace Lz4

theorem readTail_lengthTail (n k : Nat) (b : Bytes) :
    readTail n (lengthTail k ++ b) = some (n + k, b) := by
  induction k using Nat.strongRecOn generalizing n with
  | ind k ih =>
    rw [lengthTail]
    split
    · rename_i hk
      have hne : UInt8.ofNat k ≠ 255 := by
        intro h
        have hnat := congrArg UInt8.toNat h
        rw [UInt8.toNat_ofNat'] at hnat
        change k % 256 = 255 at hnat
        omega
      rw [List.cons_append, List.nil_append, readTail, if_neg hne, UInt8.toNat_ofNat',
        Nat.mod_eq_of_lt (by omega)]
    · rename_i hk
      have hsum : n + 255 + (k - 255) = n + k := by omega
      rw [List.cons_append, readTail, if_pos rfl, ih (k - 255) (by omega), hsum]

theorem unpackFrom_literals {limit fuel : Nat} {token : UInt8} {rest b : Bytes}
    (hlength : readLength (token.toNat / 16) rest = some (b.length, b))
    (hlimit : b.length ≤ limit) :
    unpackFrom limit (fuel + 1) (token :: rest) #[] = some b := by
  have hnot : ¬ (b.length < b.length ∨ limit < (#[] : Array UInt8).size + b.length) := by
    simp only [List.size_toArray, List.length_nil]
    omega
  simp only [unpackFrom, hlength, Option.bind_eq_bind, Option.bind_some, List.take_length,
    if_neg hnot, List.drop_length]
  simp

theorem unpack_pack (b : Bytes) : unpack b.length (pack b) = some b := by
  unfold pack
  split
  · rename_i hlen
    have htoken : (UInt8.ofNat (b.length * 16)).toNat / 16 = b.length := by
      rw [UInt8.toNat_ofNat', Nat.mod_eq_of_lt (by omega)]
      omega
    have hlength :
        readLength ((UInt8.ofNat (b.length * 16)).toNat / 16) b = some (b.length, b) := by
      rw [htoken, readLength, if_neg (by omega)]
    rw [unpack, List.length_cons, unpackFrom_literals hlength (Nat.le_refl _)]
  · rename_i hlen
    have hlength : readLength ((0xf0 : UInt8).toNat / 16) (lengthTail (b.length - 15) ++ b) =
        some (b.length, b) := by
      change readTail 15 (lengthTail (b.length - 15) ++ b) = some (b.length, b)
      have hsum : 15 + (b.length - 15) = b.length := by omega
      rw [readTail_lengthTail, hsum]
    rw [unpack, List.cons_append, List.length_cons, unpackFrom_literals hlength (Nat.le_refl _)]

theorem length_lengthTail (n : Nat) : (lengthTail n).length = n / 255 + 1 := by
  induction n using Nat.strongRecOn with
  | ind n ih =>
    rw [lengthTail]
    split
    · rename_i hn
      rw [Nat.div_eq_of_lt hn]
      rfl
    · have hrest := ih (n - 255) (by omega)
      rw [List.length_cons]
      omega

theorem pack_of_long {b : Bytes} (h : 15 ≤ b.length) : pack b = 0xf0 :: lengthTail (b.length - 15) ++ b :=
  if_neg (Nat.not_lt_of_le h)

theorem length_pack {b : Bytes} (h : 15 ≤ b.length) : (pack b).length = b.length + (b.length - 15) / 255 + 2 := by
  rw [pack_of_long h, List.cons_append, List.length_cons, List.length_append, length_lengthTail]
  omega

theorem length_pack_le (b : Bytes) : (pack b).length ≤ 2 * b.length + 2 := by
  by_cases hlong : 15 ≤ b.length
  · rw [length_pack hlong]
    omega
  · rw [pack, if_pos (Nat.lt_of_not_le hlong), List.length_cons]
    omega

/-- A run of literals is malformed where some of its literals are missing. -/
theorem unpack_pack_cut {b cut t : Bytes} (hlong : 15 ≤ b.length) (ht : t ≠ []) (hle : t.length ≤ b.length)
    (h : cut ++ t = pack b) (limit : Nat) : unpack limit cut = none := by
  rw [pack_of_long hlong] at h
  obtain ⟨front, rfl, rfl⟩ : ∃ front, cut = 0xf0 :: lengthTail (b.length - 15) ++ front ∧ b = front ++ t := by
    obtain ⟨more, hcut, rfl⟩ | ⟨front, hcut, hb⟩ := List.append_eq_append_iff.mp h
    · rw [List.length_append] at hle
      obtain rfl := List.length_eq_zero_iff.mp (show more.length = 0 by omega)
      rw [List.append_nil] at hcut
      exact ⟨[], by rw [hcut, List.append_nil], rfl⟩
    · exact ⟨front, hcut, hb⟩
  have hcount : readLength ((0xf0 : UInt8).toNat / 16) (lengthTail ((front ++ t).length - 15) ++ front) =
      some ((front ++ t).length, front) := by
    change readTail 15 _ = _
    rw [readTail_lengthTail, Nat.add_sub_cancel' hlong]
  have hmissing : (front.take (front ++ t).length).length < (front ++ t).length := by
    have hpos := List.length_pos_iff.mpr ht
    rw [List.length_take, List.length_append]
    omega
  rw [unpack, List.cons_append, List.length_cons, unpackFrom, hcount]
  exact if_pos (.inl hmissing)

/-- What a block adds to the output that is there: literals to the end, or literals and a copy of earlier
output before what is left. -/
inductive Unpacks : Bytes → Array UInt8 → Bytes → Prop
  | last {token : UInt8} {rest literals : Bytes} {out : Array UInt8} :
    readLength (token.toNat / 16) rest = some (literals.length, literals) →
    Unpacks (token :: rest) out (out.toList ++ literals)
  | copy {token low high : UInt8} {rest literals body rest' d : Bytes} {out : Array UInt8} {count start : Nat} :
    readLength (token.toNat / 16) rest = some (literals.length, literals ++ low :: high :: body) →
    readLength (token.toNat % 16) body = some (count, rest') →
    start = (out ++ literals.toArray).size - (low.toNat + 256 * high.toNat) →
    Unpacks rest' (copyFrom (count + leastCopy) start (out ++ literals.toArray)) d →
    Unpacks (token :: rest) out d

theorem unpacks_of_unpackFrom {limit fuel : Nat} {b d : Bytes} {out : Array UInt8}
    (h : unpackFrom limit fuel b out = some d) : Unpacks b out d := by
  induction fuel generalizing b out with
  | zero => cases h
  | succ fuel ih =>
    cases b with
    | nil => cases h
    | cons token rest =>
      obtain ⟨⟨count, block⟩, hcount, h⟩ := Option.bind_eq_some_iff.mp h
      dsimp only at h
      split at h
      · cases h
      · rename_i hroom
        have hlength : (block.take count).length = count := by
          have hle := List.length_take_le count block
          omega
        have hblock : block.take count ++ block.drop count = block := List.take_append_drop count block
        split at h
        · rename_i hdrop
          cases h
          rw [hdrop, List.append_nil] at hblock
          rw [Array.toList_append]
          exact .last (by rw [hlength, hblock, hcount])
        · cases h
        · rename_i low high body hdrop
          obtain ⟨⟨more, rest'⟩, hmore, h⟩ := Option.bind_eq_some_iff.mp h
          dsimp only at h
          split at h
          · cases h
          · rw [hdrop] at hblock
            exact .copy (by rw [hcount, hblock, hlength]) hmore rfl (ih h)

theorem readTail_append {n count : Nat} {b rest : Bytes} (t : Bytes)
    (h : readTail n b = some (count, rest)) : readTail n (b ++ t) = some (count, rest ++ t) := by
  induction b generalizing n with
  | nil => cases h
  | cons x b ih =>
    rw [List.cons_append, readTail]
    rw [readTail] at h
    split at h
    · rename_i hx
      rw [if_pos hx, ih h]
    · rename_i hx
      rw [if_neg hx]
      cases h
      rfl

theorem readLength_append {nibble count : Nat} {b rest : Bytes} (t : Bytes)
    (h : readLength nibble b = some (count, rest)) : readLength nibble (b ++ t) = some (count, rest ++ t) := by
  unfold readLength at h ⊢
  split at h
  · rename_i hlong
    rw [if_pos hlong]
    exact readTail_append t h
  · rename_i hshort
    rw [if_neg hshort]
    cases h
    rfl

theorem copyFrom_toList (n start : Nat) (out : Array UInt8) :
    ∃ copied, (copyFrom n start out).toList = out.toList ++ copied ∧ copied.length = n := by
  induction n generalizing start out with
  | zero => exact ⟨[], (List.append_nil _).symm, rfl⟩
  | succ n ih =>
    obtain ⟨copied, hcopied, hlength⟩ := ih (start + 1) (out.push (out.getD start 0))
    refine ⟨out.getD start 0 :: copied, ?_, congrArg (· + 1) hlength⟩
    rw [copyFrom, hcopied, Array.toList_push, List.append_assoc]
    rfl

theorem Unpacks.out_prefix {b d : Bytes} {out : Array UInt8} (h : Unpacks b out d) : out.toList <+: d := by
  induction h with
  | last _ => exact List.prefix_append _ _
  | @copy _ _ _ _ literals _ _ _ out count start _ _ _ _ ih =>
    obtain ⟨copied, hcopied, -⟩ := copyFrom_toList (count + leastCopy) start (out ++ literals.toArray)
    rw [hcopied, Array.toList_append] at ih
    exact ((List.prefix_append _ _).trans (List.prefix_append _ _)).trans ih

theorem literals_inj {xs ys xs' ys' : Bytes} (h : some (xs.length, xs ++ ys) = some (xs'.length, xs' ++ ys')) :
    xs = xs' ∧ ys = ys' := by
  obtain ⟨hlength, happend⟩ := Prod.mk.inj (Option.some.inj h)
  exact List.append_inj happend hlength

theorem nothing_after {xs ys zs : Bytes} (h : some (xs.length, xs ++ ys) = some (zs.length, zs)) : ys = [] := by
  obtain ⟨hlength, rfl⟩ := Prod.mk.inj (Option.some.inj h)
  rw [List.length_append] at hlength
  exact List.length_eq_zero_iff.mp (by omega)

/-- At the token where a block is cut both blocks have the same literals, and only the longer one goes on. -/
theorem Unpacks.cut {cut t d full : Bytes} {out : Array UInt8} (h : Unpacks cut out d) (ht : t ≠ [])
    (hfull : Unpacks (cut ++ t) out full) : d <+: full ∧ d.length < full.length := by
  induction h generalizing full with
  | @last token rest literals out hliterals =>
    have hlonger := readLength_append t hliterals
    cases hfull with
    | @last _ _ literals' _ hliterals' =>
      exact absurd (nothing_after (hlonger.symm.trans hliterals')) ht
    | @copy _ low high _ literals' body rest' _ _ count start hliterals' hcount hstart hrest =>
      obtain ⟨rfl, -⟩ := literals_inj (hlonger.symm.trans hliterals')
      obtain ⟨copied, hcopied, hlength⟩ := copyFrom_toList (count + leastCopy) start (out ++ literals.toArray)
      have hprefix := hrest.out_prefix
      simp only [hcopied, Array.toList_append] at hprefix
      have hle := hprefix.length_le
      rw [List.length_append, hlength] at hle
      have hpos : 0 < leastCopy := by decide
      exact ⟨(List.prefix_append _ _).trans hprefix, by omega⟩
  | @copy token low high rest literals body rest' d out count start hliterals hcount hstart hrest ih =>
    have hlonger := readLength_append t hliterals
    rw [List.append_assoc] at hlonger
    cases hfull with
    | @last _ _ literals' _ hliterals' =>
      cases nothing_after (hlonger.symm.trans hliterals')
    | @copy _ low' high' _ literals' body' rest'' _ _ count' start' hliterals' hcount' hstart' hrest' =>
      obtain ⟨rfl, hbody⟩ := literals_inj (hlonger.symm.trans hliterals')
      cases hbody
      cases (readLength_append t hcount).symm.trans hcount'
      subst hstart hstart'
      exact ih hrest'

end Lz4

namespace Codec

theorem shortens_of_unpacks {z : Codec} (h : ∀ limit b d, z.unpack limit b = some d → Lz4.Unpacks b #[] d) :
    z.Shortens := by
  intro limit limit' cut t d full ht hcut hfull
  obtain ⟨⟨more, rfl⟩, hlength⟩ := (h _ _ _ hcut).cut ht (h _ _ _ hfull)
  refine ⟨more, rfl, ?_⟩
  rintro rfl
  rw [List.append_nil] at hlength
  exact Nat.lt_irrefl _ hlength

theorem standard_restores : standard.Restores := Lz4.unpack_pack

theorem standard_shortens : standard.Shortens := shortens_of_unpacks fun _ _ _ => Lz4.unpacks_of_unpackFrom

end Codec

end Apiary
