import BearTLS.Model.Hashcash
import BearTLS.Model.Sha2

/-! The hash contexts of `sha2small.c` and `sha2big.c` under updates: however the bytes are split,
the context comes to the same, its buffer included. -/

namespace BearTLS

open Memory

section Bytes

variable {w : ℕ} (P : Sha2 w)

/-- What one more byte does to the buffer, the words and the place in the buffer. -/
def absorbByte (s : Mem × Sha2Words w × ℕ) (b : UInt8) : Mem × Sha2Words w × ℕ :=
  if s.2.2 + 1 = P.blen then
    (store s.1 s.2.2 [b], P.round (load (store s.1 s.2.2 [b]) 0 P.blen) s.2.1, 0)
  else (store s.1 s.2.2 [b], s.2.1, s.2.2 + 1)

variable {P} {buf : Mem} {val : Sha2Words w} {ptr : ℕ} {data : List UInt8}

theorem absorbByte_room (h : ptr + data.length < P.blen) :
    data.foldl (absorbByte P) (buf, val, ptr) = (store buf ptr data, val, ptr + data.length) := by
  induction data using List.reverseRecOn with
  | nil => rw [List.foldl_nil, store_nil, List.length_nil, Nat.add_zero]
  | append_singleton bs b ih =>
    rw [List.length_append, List.length_singleton] at h
    rw [List.foldl_append, ih (by omega), List.foldl_cons, List.foldl_nil, absorbByte,
      if_neg (show ¬ ptr + bs.length + 1 = P.blen by omega), store_append, List.length_append,
      List.length_singleton, Nat.add_assoc]

theorem absorbByte_full (hne : data ≠ []) (h : ptr + data.length = P.blen) :
    data.foldl (absorbByte P) (buf, val, ptr) =
      (store buf ptr data, P.round (load (store buf ptr data) 0 P.blen) val, 0) := by
  obtain ⟨bs, b, rfl⟩ : ∃ bs b, data = bs ++ [b] :=
    ⟨_, _, (List.dropLast_append_getLast hne).symm⟩
  rw [List.length_append, List.length_singleton] at h
  have hroom : bs.foldl (absorbByte P) (buf, val, ptr) =
      (store buf ptr bs, val, ptr + bs.length) := absorbByte_room (by omega)
  rw [List.foldl_append, hroom, List.foldl_cons, List.foldl_nil, absorbByte,
    if_pos (show ptr + bs.length + 1 = P.blen by omega), store_append]

/-- The loop that copies as much as fits at a time takes in byte after byte. -/
theorem updateLoop_bytes (hptr : ptr < P.blen) : P.updateLoop buf val ptr data =
    ((data.foldl (absorbByte P) (buf, val, ptr)).1,
      (data.foldl (absorbByte P) (buf, val, ptr)).2.1) := by
  induction hlen : data.length using Nat.strong_induction_on generalizing buf val ptr data with
  | _ len ih =>
  by_cases hne : data = []
  · subst hne
    rw [Sha2.updateLoop, dif_neg (fun hc => hc.1 rfl)]
    rfl
  have hpos := List.length_pos_of_ne_nil hne
  rw [Sha2.updateLoop, dif_pos ⟨hne, hptr⟩]
  rcases Nat.lt_or_ge data.length (P.blen - ptr) with hshort | hlong
  · have hend : ¬ ptr + data.length = P.blen := by omega
    simp only [if_pos hshort, List.take_length, List.drop_length, if_neg hend]
    rw [Sha2.updateLoop, dif_neg (fun hc => hc.1 rfl), absorbByte_room (by omega)]
  · have htake : (data.take (P.blen - ptr)).length = P.blen - ptr := List.length_take_of_le hlong
    have hfull : (data.take (P.blen - ptr)).foldl (absorbByte P) (buf, val, ptr) =
        (store buf ptr (data.take (P.blen - ptr)),
          P.round (load (store buf ptr (data.take (P.blen - ptr))) 0 P.blen) val, 0) :=
      absorbByte_full (List.ne_nil_of_length_pos (by omega)) (by omega)
    have hsplit : data.foldl (absorbByte P) (buf, val, ptr) =
        (data.drop (P.blen - ptr)).foldl (absorbByte P)
          ((data.take (P.blen - ptr)).foldl (absorbByte P) (buf, val, ptr)) := by
      rw [← List.foldl_append, List.take_append_drop]
    rw [hsplit, hfull]
    simp only [if_neg (show ¬ P.blen - ptr > data.length by omega),
      if_pos (show ptr + (P.blen - ptr) = P.blen by omega)]
    rw [ih (data.drop (P.blen - ptr)).length (by rw [List.length_drop]; omega)
      (show 0 < P.blen by omega) rfl]

/-- Where the next byte goes. -/
theorem absorbByte_place (hptr : ptr < P.blen) (data : List UInt8) :
    (data.foldl (absorbByte P) (buf, val, ptr)).2.2 = (ptr + data.length) % P.blen := by
  induction data using List.reverseRecOn with
  | nil => exact (Nat.mod_eq_of_lt hptr).symm
  | append_singleton bs b ih =>
    have hlen : ptr + (bs ++ [b]).length = ptr + bs.length + 1 := by
      rw [List.length_append, List.length_singleton, Nat.add_assoc]
    have hmod : (ptr + bs.length + 1) % P.blen = ((ptr + bs.length) % P.blen + 1) % P.blen :=
      (Nat.mod_add_mod _ _ _).symm
    rw [List.foldl_append, List.foldl_cons, List.foldl_nil, absorbByte, hlen, ih, hmod]
    have hlt := Nat.mod_lt (ptr + bs.length) (show 0 < P.blen by omega)
    split_ifs with hfull
    · rw [hfull, Nat.mod_self]
    · show (ptr + bs.length) % P.blen + 1 = _
      exact (Nat.mod_eq_of_lt (by omega)).symm

theorem update_bytes (hpos : 0 < P.blen) (cc : Sha2Context w) (data : List UInt8) :
    P.update cc data =
      let s := data.foldl (absorbByte P) (cc.buf, cc.val, cc.count.toNat % P.blen)
      ⟨s.1, cc.count + data.length.toUInt64, s.2.1⟩ := by
  rw [Sha2.update, updateLoop_bytes (Nat.mod_lt _ hpos)]

/-- Two updates are one, down to the bytes of the buffer. -/
theorem update_append (hpos : 0 < P.blen) (hcounts : P.blen ∣ 2 ^ 64) (cc : Sha2Context w)
    (a b : List UInt8) : P.update (P.update cc a) b = P.update cc (a ++ b) := by
  have hptr : cc.count.toNat % P.blen < P.blen := Nat.mod_lt _ hpos
  have hsum : (a ++ b).length.toUInt64 = a.length.toUInt64 + b.length.toUInt64 := by
    rw [List.length_append]
    exact UInt64.ofNat_add _ _
  have hnext : (cc.count + a.length.toUInt64).toNat % P.blen =
      (a.foldl (absorbByte P) (cc.buf, cc.val, cc.count.toNat % P.blen)).2.2 := by
    have hlen : a.length.toUInt64.toNat = a.length % 2 ^ 64 := rfl
    rw [absorbByte_place hptr, UInt64.toNat_add, Nat.mod_mod_of_dvd _ hcounts, hlen,
      Nat.mod_add_mod, Nat.add_mod, Nat.mod_mod_of_dvd _ hcounts, ← Nat.add_mod]
  rw [update_bytes hpos, update_bytes hpos, update_bytes hpos, List.foldl_append, hsum]
  simp only [hnext, Prod.mk.eta, UInt64.add_assoc]

end Bytes

section Library

variable (stack : Mem)

/-- The calls of `br_sha256_context` that `wm_hashcash_solve` makes. -/
def bearSha256 (c : Sha2Context 32) : Sha256 (Sha2Context 32) where
  init := brSha256Init c
  update := brSha224Update
  out cc := ⟨brSha256Out stack cc, by rfl⟩

theorem bearSha256_incremental (c : Sha2Context 32) : (bearSha256 stack c).Incremental :=
  fun cc a b => update_append (by decide) (by decide) cc a b

end Library

end BearTLS
