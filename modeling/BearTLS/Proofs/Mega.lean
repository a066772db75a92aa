import BearTLS.Spec.Mega

/-! The operand and the key that `wm_mega_rsa_decrypt_session` hands to the private
operation, and the integer that comes back. -/

namespace BearTLS

open Memory Radix

section Words

variable {n k : ℕ}

theorem toNat_ofNat (h : n < 2 ^ 32) : (UInt32.ofNat n).toNat = n := by
  rw [UInt32.toNat_ofNat', Nat.mod_eq_of_lt h]

theorem ofNat_add_ofNat : UInt32.ofNat n + UInt32.ofNat k = UInt32.ofNat (n + k) :=
  (UInt32.ofNat_add n k).symm

theorem ofNat_mul_eight : UInt32.ofNat n * 8 = UInt32.ofNat (n * 8) :=
  (UInt32.ofNat_mul n 8).symm

theorem ofNat_sub_ofNat (h : k ≤ n) (hn : n < 2 ^ 32) :
    UInt32.ofNat n - UInt32.ofNat k = UInt32.ofNat (n - k) := by
  have hle : UInt32.ofNat k ≤ UInt32.ofNat n := by
    rwa [UInt32.le_iff_toNat_le, toNat_ofNat hn, toNat_ofNat (by omega)]
  apply UInt32.toNat_inj.mp
  rw [UInt32.toNat_sub_of_le _ _ hle, toNat_ofNat hn, toNat_ofNat (by omega),
    toNat_ofNat (by omega)]

theorem ofNat_eq_zero (h : n < 2 ^ 32) : UInt32.ofNat n = 0 ↔ n = 0 := by
  rw [← UInt32.toNat_inj, toNat_ofNat h]
  rfl

theorem ofNat_gt (hn : n < 2 ^ 32) (hk : k < 2 ^ 32) :
    UInt32.ofNat n > UInt32.ofNat k ↔ n > k := by
  rw [gt_iff_lt, UInt32.lt_iff_toNat_lt, toNat_ofNat hn, toNat_ofNat hk]

/-- The two bytes of an MPI header. -/
theorem header_bits (h : n < 2 ^ 16) :
    ((n / 256).toUInt8.toUInt32 <<< 8 ||| (n % 256).toUInt8.toUInt32) = UInt32.ofNat n := by
  have hhi : n / 256 % 256 = n / 256 := Nat.mod_eq_of_lt (by omega)
  have hlo : n % 256 < 2 ^ 8 := Nat.mod_lt n (by omega)
  apply UInt32.toNat_inj.mp
  rw [toNat_ofNat (by omega), UInt32.toNat_or, UInt32.toNat_shiftLeft]
  simp only [Nat.toUInt8, UInt8.toNat_toUInt32, UInt8.toNat_ofNat', UInt32.reduceToNat,
    Nat.mod_mod]
  rw [hhi, show (8 % 32 : ℕ) = 8 from rfl, Nat.shiftLeft_eq, Nat.mod_eq_of_lt (by omega),
    ← Nat.shiftLeft_eq, ← Nat.shiftLeft_add_eq_or_of_lt hlo, Nat.shiftLeft_eq]
  omega

theorem bytes_of_bits (h : n < 2 ^ 16) :
    (UInt32.ofNat n + 7) >>> 3 = UInt32.ofNat ((n + 7) / 8) := by
  apply UInt32.toNat_inj.mp
  rw [UInt32.toNat_shiftRight, UInt32.toNat_add, toNat_ofNat (by omega), toNat_ofNat (by omega)]
  simp only [UInt32.reduceToNat]
  rw [Nat.mod_eq_of_lt (by omega), Nat.shiftRight_eq_div_pow]

end Words

section Reading

variable {data pre rest : List UInt8} {dataLen : UInt32} {m : Mpi}

theorem Mpi.length_text (m : Mpi) : m.text.length = m.len + 2 := rfl

theorem Mpi.val_lt (m : Mpi) : m.val < 256 ^ m.len := ofBytes_lt m.bytes

/-- A well-formed integer is read where it stands, and nothing wraps. -/
theorem mpi_read (hlen : dataLen.toNat = data.length) (hdata : data = pre ++ (m.text ++ rest)) :
    wmMegaMpiRead (some data) dataLen (UInt32.ofNat pre.length) =
      some ⟨true, UInt32.ofNat (pre ++ m.text).length, UInt32.ofNat (pre.length + 2),
        UInt32.ofNat m.len⟩ := by
  have hmax : data.length < 2 ^ 32 := hlen ▸ dataLen.toNat_lt
  have htotal : data.length = pre.length + (m.len + 2 + rest.length) := by
    rw [hdata, List.length_append, List.length_append, m.length_text]
  have hhi : data[pre.length]? = some (m.bits / 256).toUInt8 := by
    rw [hdata, List.getElem?_append_right (Nat.le_refl _), Nat.sub_self]
    rfl
  have hlo : data[pre.length + 1]? = some (m.bits % 256).toUInt8 := by
    rw [hdata, List.getElem?_append_right (Nat.le_add_right _ 1), Nat.add_sub_cancel_left]
    rfl
  have hbytes : UInt32.ofNat ((m.bits + 7) / 8) = UInt32.ofNat m.len := by
    rw [Mpi.len, m.length_bytes]
  have hhead : ¬ UInt32.ofNat (pre.length + 2) > dataLen := by
    rw [gt_iff_lt, UInt32.lt_iff_toNat_lt, toNat_ofNat (by omega)]
    omega
  have hbody : ¬ UInt32.ofNat (pre.length + 2 + m.len) > dataLen := by
    rw [gt_iff_lt, UInt32.lt_iff_toNat_lt, toNat_ofNat (by omega)]
    omega
  have hadd₂ : UInt32.ofNat pre.length + 2 = UInt32.ofNat (pre.length + 2) := ofNat_add_ofNat
  have hadd₁ : UInt32.ofNat pre.length + 1 = UInt32.ofNat (pre.length + 1) := ofNat_add_ofNat
  simp only [wmMegaMpiRead, hadd₂, hadd₁, if_neg hhead]
  rw [toNat_ofNat (by omega), toNat_ofNat (by omega), hhi, hlo]
  simp only [header_bits m.bits_lt, bytes_of_bits m.bits_lt, hbytes, ofNat_add_ofNat,
    if_neg hbody]
  rw [List.length_append, m.length_text,
    show pre.length + 2 + m.len = pre.length + (m.len + 2) by omega]

theorem readSlice_mpi (hlen : data.length < 2 ^ 32) (hdata : data = pre ++ (m.text ++ rest)) :
    readSlice data (UInt32.ofNat (pre.length + 2)) (UInt32.ofNat m.len) = some m.bytes := by
  have htotal : data.length = pre.length + (m.len + 2 + rest.length) := by
    rw [hdata, List.length_append, List.length_append, m.length_text]
  have hdrop : data.drop (pre.length + 2) = m.bytes ++ rest := by
    rw [hdata, List.drop_append, List.drop_eq_nil_of_le (by omega), List.nil_append,
      Nat.add_sub_cancel_left]
    rfl
  rw [readSlice, toNat_ofNat (by omega), toNat_ofNat (by omega), if_pos (by omega), hdrop,
    Mpi.len, List.take_left]

end Reading

section Preparing

variable {key : MegaKey} {cipher : MegaCipher key} {privkTail csidTail : List UInt8}
  {megaPrivkLen megaCsidLen sidLen : UInt32}

theorem Mpi.len_pos {m : Mpi} (h : 0 < m.val) : 0 < m.len := by
  rcases Nat.eq_zero_or_pos m.len with h0 | h0
  · have hlt : m.val < 256 ^ m.len := m.val_lt
    rw [h0, Nat.pow_zero] at hlt
    omega
  · exact h0

theorem MegaKey.val_u_pos (key : MegaKey) : 0 < key.u.val := by
  rcases Nat.eq_zero_or_pos key.u.val with h0 | h0
  · have hinv := key.inverse
    rw [h0, Nat.zero_mul, Nat.ModEq, Nat.zero_mod, Nat.mod_eq_of_lt key.one_lt_q] at hinv
    omega
  · exact h0

/-- The state in front of the private operation. -/
def MegaKey.job (key : MegaKey) (c : Mpi) : MegaJob where
  x := store (fun _ => 0) (key.xlen - c.len) c.bytes
  sk := ⟨UInt32.ofNat (key.xlen * 8), key.q.bytes, key.p.bytes, key.d.bytes, key.d.bytes,
    key.u.bytes⟩
  plen := UInt32.ofNat key.p.len
  qlen := UInt32.ofNat key.q.len

theorem MegaKey.ofNat_xlen (key : MegaKey) :
    UInt32.ofNat key.p.len + UInt32.ofNat key.q.len = UInt32.ofNat key.xlen := ofNat_add_ofNat

theorem MegaKey.xlen_le (key : MegaKey) : key.xlen ≤ 1024 := by
  obtain ⟨hp, hq, -, -⟩ := key.len_le
  rw [MegaKey.xlen]
  omega

theorem MegaKey.xlen_pos (key : MegaKey) : 0 < key.xlen :=
  Nat.add_pos_left (Mpi.len_pos (Nat.lt_of_succ_lt key.one_lt_p)) _

theorem MegaKey.components_present (key : MegaKey) :
    ¬ (UInt32.ofNat key.p.len = 0 ∨ UInt32.ofNat key.q.len = 0 ∨
      UInt32.ofNat key.d.len = 0 ∨ UInt32.ofNat key.u.len = 0) := by
  have hp : 0 < key.p.len := Mpi.len_pos (Nat.lt_of_succ_lt key.one_lt_p)
  have hq : 0 < key.q.len := Mpi.len_pos (Nat.lt_of_succ_lt key.one_lt_q)
  have hu : 0 < key.u.len := Mpi.len_pos key.val_u_pos
  obtain ⟨hp', hq', hd, hu'⟩ := key.len_le
  rw [ofNat_eq_zero (by omega), ofNat_eq_zero (by omega), ofNat_eq_zero (by omega),
    ofNat_eq_zero (by omega)]
  omega

theorem MegaKey.components_fit (key : MegaKey) :
    ¬ (UInt32.ofNat key.p.len > WM_MEGA_RSA_MAX_COMPONENT ∨
      UInt32.ofNat key.q.len > WM_MEGA_RSA_MAX_COMPONENT ∨
      UInt32.ofNat key.d.len > WM_MEGA_RSA_MAX_MODULUS ∨
      UInt32.ofNat key.u.len > WM_MEGA_RSA_MAX_COMPONENT) := by
  obtain ⟨hp, hq, hd, hu⟩ := key.len_le
  have hcomponent : WM_MEGA_RSA_MAX_COMPONENT = UInt32.ofNat 512 := rfl
  have hmodulus : WM_MEGA_RSA_MAX_MODULUS = UInt32.ofNat 1024 := rfl
  rw [hcomponent, hmodulus, ofNat_gt (by omega) (by omega), ofNat_gt (by omega) (by omega),
    ofNat_gt (by omega) (by omega), ofNat_gt (by omega) (by omega)]
  omega

theorem MegaCipher.operand_fits (cipher : MegaCipher key) :
    ¬ (UInt32.ofNat key.xlen = 0 ∨ UInt32.ofNat key.xlen > WM_MEGA_RSA_MAX_MODULUS ∨
      UInt32.ofNat cipher.c.len > UInt32.ofNat key.xlen) := by
  have hpos := key.xlen_pos
  have hle := key.xlen_le
  have hc := cipher.len_le
  have hmodulus : WM_MEGA_RSA_MAX_MODULUS = UInt32.ofNat 1024 := rfl
  rw [hmodulus, ofNat_eq_zero (by omega), ofNat_gt (by omega) (by omega),
    ofNat_gt (by omega) (by omega)]
  omega

theorem prepare_eq (sid : Mem) (hk : megaPrivkLen.toNat = (key.text ++ privkTail).length)
    (hc : megaCsidLen.toNat = (cipher.c.text ++ csidTail).length) (hsid : sidLen ≠ 0) :
    wmMegaPrepare (some (key.text ++ privkTail)) megaPrivkLen (some (cipher.c.text ++ csidTail))
      megaCsidLen (some sid) sidLen = some (some (key.job cipher.c)) := by
  obtain ⟨privk, hprivk⟩ : ∃ privk, privk = key.text ++ privkTail := ⟨_, rfl⟩
  obtain ⟨csid, hcsid⟩ : ∃ csid, csid = [] ++ (cipher.c.text ++ csidTail) := ⟨_, rfl⟩
  rw [← hprivk] at hk ⊢
  rw [← List.nil_append (cipher.c.text ++ csidTail), ← hcsid] at hc ⊢
  have hkmax : privk.length < 2 ^ 32 := hk ▸ megaPrivkLen.toNat_lt
  have hcmax : csid.length < 2 ^ 32 := hc ▸ megaCsidLen.toNat_lt
  -- where each integer of the key stands
  have hp : privk =
      [] ++ (key.p.text ++ (key.q.text ++ key.d.text ++ key.u.text ++ privkTail)) := by
    simp [hprivk, MegaKey.text]
  have hq : privk = key.p.text ++ (key.q.text ++ (key.d.text ++ key.u.text ++ privkTail)) := by
    simp [hprivk, MegaKey.text]
  have hd : privk = key.p.text ++ key.q.text ++ (key.d.text ++ (key.u.text ++ privkTail)) := by
    simp [hprivk, MegaKey.text]
  have hu : privk = key.p.text ++ key.q.text ++ key.d.text ++ (key.u.text ++ privkTail) := by
    simp [hprivk, MegaKey.text]
  have hread_p := mpi_read hk hp
  have hread_c := mpi_read hc hcsid
  rw [show UInt32.ofNat ([] : List UInt8).length = 0 from rfl] at hread_p hread_c
  simp only [wmMegaPrepare, if_neg hsid, hread_p, List.nil_append, mpi_read hk hq, mpi_read hk hd,
    mpi_read hk hu, hread_c, Option.bind_eq_bind, Option.bind_some, Bool.true_eq_false, if_false,
    if_neg key.components_present, if_neg key.components_fit, key.ofNat_xlen,
    if_neg cipher.operand_fits]
  have hxlen : key.xlen < 2 ^ 32 := Nat.lt_of_le_of_lt key.xlen_le (by omega)
  simp only [readSlice_mpi hkmax hp, readSlice_mpi hkmax hq, readSlice_mpi hkmax hd,
    readSlice_mpi hkmax hu, readSlice_mpi hcmax hcsid, Option.bind_some]
  rw [ofNat_sub_ofNat cipher.len_le hxlen, toNat_ofNat (by omega), ofNat_mul_eight]
  rfl

end Preparing

section Decrypting

variable {rsaPrivate : RsaPrivate} {accepts : RsaPrivateKey → Prop} {key : MegaKey}

theorem MegaKey.job_xlen (key : MegaKey) (c : Mpi) : (key.job c).sk.xlen = key.xlen := by
  have hle := key.xlen_le
  rw [RsaPrivateKey.xlen, MegaKey.job, toNat_ofNat (by omega)]
  omega

theorem MegaKey.modulus_pos (key : MegaKey) : 0 < key.p.val * key.q.val :=
  Nat.mul_pos (Nat.lt_of_succ_lt key.one_lt_p) (Nat.lt_of_succ_lt key.one_lt_q)

theorem MegaKey.modulus_lt (key : MegaKey) : key.p.val * key.q.val < 256 ^ key.xlen := by
  rw [MegaKey.xlen, Nat.pow_add]
  exact Nat.mul_lt_mul'' key.p.val_lt key.q.val_lt

/-- The ciphertext is right-aligned behind zeros. -/
theorem MegaCipher.job_operand (cipher : MegaCipher key) :
    ofBytes (load (key.job cipher.c).x 0 key.xlen) = cipher.c.val := by
  obtain ⟨pad, hpad⟩ : ∃ pad, key.xlen = pad + cipher.c.len :=
    ⟨key.xlen - cipher.c.len, by have := cipher.len_le; omega⟩
  have hzeros : load (fun _ => 0) 0 pad = List.replicate pad 0 := by simp [load]
  rw [MegaKey.job, hpad, Nat.add_sub_cancel, Mpi.len, load_store_append, hzeros,
    ofBytes_replicate_zero_append, Mpi.val]

/-- The primes are handed over the other way round, with one exponent for both. -/
theorem private_operation (hpriv : RsaPrivateSpec rsaPrivate accepts) (cipher : MegaCipher key)
    (hacc : accepts (key.job cipher.c).sk) :
    (rsaPrivate (key.job cipher.c).x (key.job cipher.c).sk).1 = true ∧
      ofBytes (load (rsaPrivate (key.job cipher.c).x (key.job cipher.c).sk).2 0 key.xlen) =
        cipher.c.val ^ key.d.val % (key.p.val * key.q.val) := by
  have hspec := hpriv (key.job cipher.c).x (key.job cipher.c).sk hacc key.odd_q key.odd_p
  rw [key.job_xlen, cipher.job_operand] at hspec
  obtain ⟨hok, hload⟩ := hspec (Nat.mul_comm _ _ ▸ cipher.val_lt)
  have hcrt : Crt.recombine key.q.val key.p.val key.u.val
      (cipher.c.val ^ key.d.val % key.q.val) (cipher.c.val ^ key.d.val % key.p.val) =
      cipher.c.val ^ key.d.val % (key.q.val * key.p.val) :=
    Crt.recombine_eq (Nat.lt_of_succ_lt key.one_lt_q) (Nat.lt_of_succ_lt key.one_lt_p) key.inverse
  have hresult : load (rsaPrivate (key.job cipher.c).x (key.job cipher.c).sk).2 0 key.xlen =
      toBytes key.xlen (cipher.c.val ^ key.d.val % (key.q.val * key.p.val)) :=
    hload.trans (congrArg _ hcrt)
  have hfits : cipher.c.val ^ key.d.val % (key.p.val * key.q.val) < 256 ^ key.xlen :=
    (Nat.mod_lt _ key.modulus_pos).trans key.modulus_lt
  refine ⟨hok, ?_⟩
  rw [hresult, ofBytes_toBytes, Nat.mul_comm key.q.val, Nat.mod_eq_of_lt hfits]

/-- The function runs up to the private operation, which succeeds on a key it accepts,
and the session id is cut out of `c ^ d mod (p * q)`. -/
theorem mega_decrypts (hpriv : RsaPrivateSpec rsaPrivate accepts) (cipher : MegaCipher key)
    (privkTail csidTail : List UInt8) (megaPrivkLen megaCsidLen sidLen : UInt32) (sid : Mem)
    (hk : megaPrivkLen.toNat = (key.text ++ privkTail).length)
    (hc : megaCsidLen.toNat = (cipher.c.text ++ csidTail).length) (hsid : sidLen ≠ 0) :
    ∃ job, wmMegaPrepare (some (key.text ++ privkTail)) megaPrivkLen
        (some (cipher.c.text ++ csidTail)) megaCsidLen (some sid) sidLen = some (some job) ∧
      job.plen.toNat = key.p.len ∧ job.qlen.toNat = key.q.len ∧
      (accepts job.sk → ∃ x, rsaPrivate job.x job.sk = (true, x) ∧
        ofBytes (load x 0 (job.plen.toNat + job.qlen.toNat)) =
          cipher.c.val ^ key.d.val % (key.p.val * key.q.val) ∧
        wmMegaRsaDecryptSession rsaPrivate (some (key.text ++ privkTail)) megaPrivkLen
            (some (cipher.c.text ++ csidTail)) megaCsidLen (some sid) sidLen =
          let out := wmMegaExtract x job.plen.toNat job.qlen.toNat sidLen.toNat sid
          some (out.1, some out.2)) := by
  obtain ⟨hp_le, hq_le, -, -⟩ := key.len_le
  have hplen : (key.job cipher.c).plen.toNat = key.p.len := toNat_ofNat (by omega)
  have hqlen : (key.job cipher.c).qlen.toNat = key.q.len := toNat_ofNat (by omega)
  have hprep := prepare_eq sid hk hc hsid
  refine ⟨key.job cipher.c, hprep, hplen, hqlen, fun hacc => ?_⟩
  obtain ⟨hok, hval⟩ := private_operation hpriv cipher hacc
  refine ⟨_, Prod.ext hok rfl, ?_, ?_⟩
  · rw [hplen, hqlen, ← MegaKey.xlen, hval]
  · rw [wmMegaRsaDecryptSession, hprep, Option.bind_eq_bind, Option.bind_some]
    simp only [hok, Bool.true_eq_false, if_false]
    rfl

end Decrypting

section Instance

/-- The operation computed in the open: a success exactly on odd factors and an operand
below their product. -/
def recombiningRsaPrivate : RsaPrivate := fun x sk =>
  let y := ofBytes (load x 0 sk.xlen)
  let s₁ := y ^ ofBytes sk.dp % ofBytes sk.p
  let s₂ := y ^ ofBytes sk.dq % ofBytes sk.q
  (decide (Odd (ofBytes sk.p) ∧ Odd (ofBytes sk.q) ∧ y < ofBytes sk.p * ofBytes sk.q),
    store x 0 (toBytes sk.xlen
      (Crt.recombine (ofBytes sk.p) (ofBytes sk.q) (ofBytes sk.iq) s₁ s₂)))

theorem recombiningRsaPrivate_spec :
    RsaPrivateSpec recombiningRsaPrivate fun _ => True := by
  intro x sk _ hp hq hlt
  refine ⟨decide_eq_true ⟨hp, hq, hlt⟩, ?_⟩
  have hsame := load_store_same x 0 (toBytes sk.xlen (Crt.recombine (ofBytes sk.p) (ofBytes sk.q)
    (ofBytes sk.iq) (ofBytes (load x 0 sk.xlen) ^ ofBytes sk.dp % ofBytes sk.p)
    (ofBytes (load x 0 sk.xlen) ^ ofBytes sk.dq % ofBytes sk.q)))
  rwa [length_toBytes] at hsame

/-- `p = 3`, `q = 5`, `u = 2`: the inverse of `p` modulo `q`, not of `q` modulo `p`. -/
def fifteenKey : MegaKey where
  p := ⟨2, [3], by decide, by decide⟩
  q := ⟨3, [5], by decide, by decide⟩
  d := ⟨2, [3], by decide, by decide⟩
  u := ⟨2, [2], by decide, by decide⟩
  one_lt_p := by decide
  one_lt_q := by decide
  odd_p := by decide
  odd_q := by decide
  inverse := by decide
  len_le := by decide

def sevenCipher : MegaCipher fifteenKey where
  c := ⟨3, [7], by decide, by decide⟩
  val_lt := by decide
  len_le := by decide

/-- `7 ^ 3 mod 15 = 13`. -/
theorem mega_decrypts_fifteen :
    ∃ job, wmMegaPrepare (some (fifteenKey.text ++ [])) 12 (some (sevenCipher.c.text ++ [])) 3
        (some fun _ => 0) 1 = some (some job) ∧
      ∃ x, recombiningRsaPrivate job.x job.sk = (true, x) ∧ ofBytes (load x 0 2) = 13 := by
  obtain ⟨job, hjob, hplen, hqlen, hrun⟩ := mega_decrypts recombiningRsaPrivate_spec sevenCipher
    [] [] 12 3 1 (fun _ => 0) (by decide) (by decide) (by decide)
  obtain ⟨x, hx, hval, -⟩ := hrun trivial
  rw [hplen, hqlen] at hval
  exact ⟨job, hjob, x, hx, hval⟩

end Instance

end BearTLS
