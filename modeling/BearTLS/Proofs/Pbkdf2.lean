import BearTLS.Lib.Pbkdf2
import BearTLS.Model.Pbkdf2
import BearTLS.Proofs.HashcashText

/-! `wm_pbkdf2_sha512_b64salt` computes PBKDF2. -/

namespace BearTLS

open Base64 Memory Pbkdf2 Radix

variable {ρ : Type} {hmac : List UInt8 → List UInt8 → List.Vector UInt8 64}
  {progress : Progress ρ}

variable (hmac progress) in
/-- From any iteration on, `u` is the last of the `U`s and `t` is their sum. -/
theorem iterate_spec (password : CString) (salt : List UInt8) (index : ℕ)
    (iterations blockIndex i : UInt32) (s : Pbkdf2State ρ) {k : ℕ} (hi : i.toNat = k + 1)
    (hle : i ≤ iterations) (hu : s.u = u hmac password.bytes salt index k)
    (ht : s.t = f hmac password.bytes salt (k + 1) index) :
    ∃ s', wmPbkdf2Iterate hmac progress (some password) iterations blockIndex i s =
        (some s', s'.userData) ∧
      s'.t = f hmac password.bytes salt iterations.toNat index := by
  induction hleft : iterations.toNat - i.toNat generalizing i s k with
  | zero =>
    have hdone : iterations.toNat = k + 1 := by
      have : i.toNat ≤ iterations.toNat := UInt32.le_iff_toNat_le.mp hle
      omega
    have hstop : ¬ i < iterations := by
      rw [UInt32.lt_iff_toNat_lt]
      omega
    rw [wmPbkdf2Iterate, dif_neg hstop, hdone]
    exact ⟨s, rfl, ht⟩
  | succ left ih =>
    have hlt : i < iterations := by
      rw [UInt32.lt_iff_toNat_lt]
      omega
    have hnext := iteration_succ hlt
    rw [wmPbkdf2Iterate, dif_pos hlt]
    apply ih (k := k + 1)
    · rw [hnext, hi]
    · rw [UInt32.le_iff_toNat_le, hnext]
      exact UInt32.lt_iff_toNat_lt.mp hlt
    · rw [hu]
      rfl
    · rw [ht, hu]
      exact f_succ.symm
    · omega

variable (hmac progress) in
/-- The loop over the blocks: `l` whole blocks are stored, or the key is complete. -/
theorem blocks_spec (password : CString) {salt : List UInt8} (hsalt : salt.length ≤ 64)
    {iterations outLen : UInt32} (hiter : 1 ≤ iterations) (produced blockIndex : UInt32) (out : Mem)
    (userData : ρ) {l : ℕ} (hl : produced < outLen → produced.toNat = 64 * l)
    (hle : produced.toNat ≤ outLen.toNat) (hfull : produced.toNat ≤ 64 * l)
    (hindex : blockIndex.toNat = l + 1)
    (hout : load out 0 produced.toNat =
      (blocks hmac password.bytes salt iterations.toNat l).take produced.toNat) :
    let o := wmPbkdf2Blocks hmac progress (some password) salt iterations outLen produced blockIndex
      out userData
    o.ret = true ∧
      load o.out 0 outLen.toNat = key hmac password.bytes salt iterations.toNat outLen.toNat ∧
      ∀ i, outLen.toNat ≤ i → o.out i = out i := by
  induction hleft : outLen.toNat - produced.toNat using Nat.strong_induction_on
    generalizing produced blockIndex out userData l with
  | _ n ih =>
  subst hleft
  rw [wmPbkdf2Blocks]
  by_cases hlt : produced < outLen
  · have hltN : produced.toNat < outLen.toNat := UInt32.lt_iff_toNat_lt.mp hlt
    have hmax := outLen.toNat_lt
    have hproduced := hl hlt
    obtain ⟨hcopy, hnext⟩ := copyLen_toNat hlt
    have hindex' : (blockIndex + 1).toNat = l + 1 + 1 := by
      rw [UInt32.toNat_add, hindex]
      exact Nat.mod_eq_of_lt (show l + 1 + 1 < 2 ^ 32 by omega)
    -- `U_1` of the block, and then its sum
    set u₁ := hmac password.bytes (salt ++ wmHashcashStoreBe32 blockIndex) with hu₁
    have hfirst : u₁ = u hmac password.bytes salt (l + 1) 0 := by
      rw [hu₁, store_be32_eq, hindex]
      rfl
    obtain ⟨s', hs', ht'⟩ := iterate_spec hmac progress password salt (l + 1) iterations
      blockIndex 1 ⟨u₁, u₁, userData⟩ (k := 0) rfl hiter hfirst (hfirst.trans f_one.symm)
    rw [dif_pos hlt, if_neg (by omega)]
    simp only [wmPbkdf2HmacSha512Once, ← hu₁, hs']
    set part := s'.t.toList.take (wmPbkdf2CopyLen outLen produced).toNat with hpart
    have hlen : part.length = (wmPbkdf2CopyLen outLen produced).toNat := by
      rw [hpart, List.length_take, List.Vector.toList_length]
      omega
    have hsum : produced.toNat + part.length =
        (produced + wmPbkdf2CopyLen outLen produced).toNat := by
      omega
    have hstored : load (store out produced.toNat part) 0 (produced.toNat + part.length) =
        (blocks hmac password.bytes salt iterations.toNat (l + 1)).take
          (produced.toNat + part.length) := by
      have hall : (blocks hmac password.bytes salt iterations.toNat l).length = produced.toNat := by
        rw [length_blocks, hproduced]
      rw [load_store_append, hout, List.take_of_length_le (Nat.le_of_eq hall), blocks_succ,
        ← hall, List.take_length_add_append, hlen, hpart, ht']
    rw [hsum] at hstored
    have hnext' : produced + wmPbkdf2CopyLen outLen produced < outLen →
        (produced + wmPbkdf2CopyLen outLen produced).toNat = 64 * (l + 1) := by
      intro hmore
      have := UInt32.lt_iff_toNat_lt.mp hmore
      omega
    obtain ⟨hret, hload, hframe⟩ := ih _ (by omega) _ (blockIndex + 1)
      (store out produced.toNat part) s'.userData hnext' (by omega) (by omega) hindex' hstored rfl
    refine ⟨hret, hload, fun i hi => ?_⟩
    rw [hframe i hi, store_outside]
    omega
  · have hdone : produced.toNat = outLen.toNat := by
      rw [UInt32.lt_iff_toNat_lt] at hlt
      omega
    rw [dif_neg hlt]
    rw [hdone] at hout hfull
    refine ⟨rfl, ?_, fun _ _ => rfl⟩
    rw [key_eq_take (by omega) hfull]
    exact hout

/-- The arguments that a key is derived from, with what they stand for. -/
structure DerivesFrom (password saltB64 : Option CString) (iterations : UInt32) (out : Option Mem)
    (outLen : UInt32) (p : CString) (salt : List UInt8) (m : Mem) : Prop where
  password : password = some p
  decoded : ∃ text, saltB64 = some text ∧ decode text.bytes = some salt
  salt_pos : 1 ≤ salt.length
  salt_le : salt.length ≤ 64
  iterations : 1 ≤ iterations.toNat
  out : out = some m
  outLen : 1 ≤ outLen.toNat

theorem pos_iff_ne_zero {n : UInt32} : 1 ≤ n.toNat ↔ n ≠ 0 := by
  rw [Nat.one_le_iff_ne_zero, ne_eq, ne_eq, ← UInt32.toNat_inj]
  rfl

theorem derived_of_args {password saltB64 : Option CString} {iterations outLen : UInt32}
    {out : Option Mem} {p : CString} {salt : List UInt8} {m : Mem}
    (h : DerivesFrom password saltB64 iterations out outLen p salt m) (userData : ρ) :
    let o := wmPbkdf2Sha512B64salt hmac progress password saltB64 iterations out outLen userData
    o.ret = true ∧ ∃ m', o.out = some m' ∧
      load m' 0 outLen.toNat = key hmac p.bytes salt iterations.toNat outLen.toNat ∧
      ∀ i, outLen.toNat ≤ i → m' i = m i := by
  obtain ⟨rfl, ⟨text, rfl, hdecode⟩, hpos, hle, hiter, rfl, hlen⟩ := h
  have hzero : ¬ (outLen = 0 ∨ iterations = 0) := by
    rw [not_or]
    exact ⟨pos_iff_ne_zero.mp hlen, pos_iff_ne_zero.mp hiter⟩
  have hret : ¬ ((salt.length : ℤ) ≤ 0) := by omega
  simp only [wmPbkdf2Sha512B64salt, if_neg hzero]
  rw [hashcash_decode_fits hdecode hle, if_neg hret]
  obtain ⟨hok, hload, hframe⟩ :=
    blocks_spec hmac progress p hle (UInt32.le_iff_toNat_le.mpr hiter) 0 1 m userData (l := 0)
      (fun _ => rfl) (Nat.zero_le _) (Nat.le_refl 0) rfl rfl
  exact ⟨hok, _, rfl, hload, hframe⟩

theorem rejected_of_args {password saltB64 : Option CString} {iterations outLen : UInt32}
    {out : Option Mem}
    (h : ¬ ∃ p salt m, DerivesFrom password saltB64 iterations out outLen p salt m) (userData : ρ) :
    let o := wmPbkdf2Sha512B64salt hmac progress password saltB64 iterations out outLen userData
    o.ret = false ∧ o.out = out := by
  rcases password with _ | p
  · exact ⟨rfl, rfl⟩
  rcases saltB64 with _ | text
  · exact ⟨rfl, rfl⟩
  rcases out with _ | m
  · exact ⟨rfl, rfl⟩
  simp only [wmPbkdf2Sha512B64salt]
  by_cases hzero : outLen = 0 ∨ iterations = 0
  · rw [if_pos hzero]
    exact ⟨rfl, rfl⟩
  rw [if_neg hzero]
  rw [not_or] at hzero
  have hdecoded : (wmHashcashB64Decode text 64).ret ≤ 0 := by
    by_cases hfits : ∃ salt, decode text.bytes = some salt ∧ salt.length ≤ 64
    · obtain ⟨salt, hdecode, hle⟩ := hfits
      rw [hashcash_decode_fits hdecode hle]
      by_contra hpos
      dsimp only at hpos
      exact h ⟨p, salt, m, rfl, ⟨text, rfl, hdecode⟩, by omega, hle, pos_iff_ne_zero.mpr hzero.2,
        rfl, pos_iff_ne_zero.mpr hzero.1⟩
    · rw [hashcash_decode_fails fun salt hdecode => Nat.lt_of_not_le fun hle =>
        hfits ⟨salt, hdecode, hle⟩]
      decide
  rw [if_pos hdecoded]
  exact ⟨rfl, rfl⟩

/-- From a password, a salt of 1 to 64 bytes, some iterations and some output
`wm_pbkdf2_sha512_b64salt` derives the key of PBKDF2; anything else it leaves alone. -/
theorem pbkdf2_exact (hmac : List UInt8 → List UInt8 → List.Vector UInt8 64)
    (progress : Progress ρ) (password saltB64 : Option CString) (iterations : UInt32)
    (out : Option Mem) (outLen : UInt32) (userData : ρ) :
    let o := wmPbkdf2Sha512B64salt hmac progress password saltB64 iterations out outLen userData
    (∀ p salt m, DerivesFrom password saltB64 iterations out outLen p salt m →
      o.ret = true ∧ ∃ m', o.out = some m' ∧
        load m' 0 outLen.toNat = key hmac p.bytes salt iterations.toNat outLen.toNat ∧
        ∀ i, outLen.toNat ≤ i → m' i = m i) ∧
    ((¬ ∃ p salt m, DerivesFrom password saltB64 iterations out outLen p salt m) →
      o.ret = false ∧ o.out = out) :=
  ⟨fun _ _ _ h => derived_of_args h userData, fun h => rejected_of_args h userData⟩

end BearTLS
