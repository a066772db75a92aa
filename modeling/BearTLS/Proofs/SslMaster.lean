import BearTLS.Model.SslMaster
import BearTLS.Proofs.Prf
import BearTLS.Spec.SslKeys

/-! Both ends of a session in TLS 1.2 write under the keys that the standard gives them, and
read under those of the other end. -/

namespace BearTLS

open Fips180 HeaderBlock Memory

section Secrets

variable (stack : Mem) (c : Sha2Context 32) (d : Sha2Context 64) (prfId : ℕ)

theorem literal_bytes {label : String}
    (h : 0 ∉ ascii label ∧ (ascii label).length < 2 ^ 32) : (literal label).bytes = ascii label := by
  rw [literal, dif_pos h]

theorem get_prf_eq {secret : List UInt8} (hsecret : secret.length < 2 ^ 61) {label : String}
    (hlabel : 0 ∉ ascii label ∧ (ascii label).length < 2 ^ 32) {seed : List (List UInt8)}
    (hseed : seed.flatten.length < 2 ^ 60) (len : ℕ) :
    brSslEngineGetPRF stack c d prfId len secret label seed =
      some (tlsPrf (prfId = br_sha384_ID) secret label seed.flatten len) := by
  have hm : ((literal label).bytes ++ seed.flatten).length + 256 < 2 ^ 61 := by
    rw [List.length_append, literal_bytes hlabel]
    omega
  have h256 := sha256_prf stack len (literal label) c hsecret hm
  have h384 := sha384_prf stack len (literal label) d hsecret hm
  rw [literal_bytes hlabel] at h256 h384
  by_cases hid : prfId = br_sha384_ID
  · rw [brSslEngineGetPRF, if_pos hid, h384, tlsPrf, if_pos (decide_eq_true hid)]
  · rw [brSslEngineGetPRF, if_neg hid, h256, tlsPrf, if_neg (by simpa using hid)]

theorem length_tlsPrf (sha384 : Bool) (secret : List UInt8) (label : String) (seed : List UInt8)
    (len : ℕ) : (tlsPrf sha384 secret label seed len).length = len := by
  cases sha384 with
  | true => exact Hmac.length_expand (length_digest (by decide)) (by decide) _ _
  | false => exact Hmac.length_expand (length_digest (by decide)) (by decide) _ _

variable {pms clientRandom serverRandom : List UInt8}

theorem master_eq (hpms : pms.length < 2 ^ 61) (hclient : clientRandom.length = 32)
    (hserver : serverRandom.length = 32) :
    brSslEngineComputeMaster stack c d prfId pms clientRandom serverRandom =
      some (tlsMasterSecret (prfId = br_sha384_ID) pms clientRandom serverRandom) := by
  have hflat : [clientRandom, serverRandom].flatten = clientRandom ++ serverRandom := by
    simp only [List.flatten_cons, List.flatten_nil, List.append_nil]
  rw [brSslEngineComputeMaster, get_prf_eq stack c d prfId hpms (by decide), hflat, tlsMasterSecret]
  rw [hflat, List.length_append]
  omega

theorem key_block_eq (hpms : pms.length < 2 ^ 61) (hclient : clientRandom.length = 32)
    (hserver : serverRandom.length = 32) (halfLen : ℕ) :
    computeKeyBlock (sslSecrets stack c d prfId pms clientRandom serverRandom) halfLen =
      tlsKeyBlock (prfId = br_sha384_ID) pms clientRandom serverRandom (2 * halfLen) := by
  have hflat : [serverRandom, clientRandom].flatten = serverRandom ++ clientRandom := by
    simp only [List.flatten_cons, List.flatten_nil, List.append_nil]
  have hmaster : (tlsMasterSecret (prfId = br_sha384_ID) pms clientRandom serverRandom).length =
      48 := length_tlsPrf _ _ _ _ _
  have hdouble : halfLen <<< 1 = 2 * halfLen := by
    rw [Nat.shiftLeft_eq, Nat.mul_comm]
  have hprf : brSslEngineGetPRF stack c d prfId (2 * halfLen)
      (tlsMasterSecret (prfId = br_sha384_ID) pms clientRandom serverRandom) "key expansion"
        [serverRandom, clientRandom] = some (tlsPrf (prfId = br_sha384_ID)
          (tlsMasterSecret (prfId = br_sha384_ID) pms clientRandom serverRandom) "key expansion"
          [serverRandom, clientRandom].flatten (2 * halfLen)) := by
    refine get_prf_eq stack c d prfId ?_ (by decide) ?_ _
    · rw [hmaster]
      decide
    · rw [hflat, List.length_append]
      omega
  simp only [computeKeyBlock, sslSecrets, master_eq stack c d prfId hpms hclient hserver, hdouble,
    Option.getD_some, hprf, hflat, tlsKeyBlock]

end Secrets

section Contexts

variable {κ ι : Type} (rc : SslEngine κ ι) (s : SslSecrets)

theorem gcm_switch_contexts (ctr : List UInt8 → List UInt8 → UInt32 → ℕ → UInt8)
    (gh : List UInt8 → List.Vector UInt8 16 → List UInt8 → List.Vector UInt8 16)
    (cipherKeyLen : ℕ) :
    let K := WriteKeys.of cipherKeyLen 4 (computeKeyBlock s (cipherKeyLen + 4))
    (rc.switchGcmOut true s ctr gh cipherKeyLen).outCtx = genGcmInit ctr gh K.clientKey K.clientIv ∧
      (rc.switchGcmIn true s ctr gh cipherKeyLen).inCtx = genGcmInit ctr gh K.serverKey K.serverIv ∧
      (rc.switchGcmOut false s ctr gh cipherKeyLen).outCtx =
        genGcmInit ctr gh K.serverKey K.serverIv ∧
      (rc.switchGcmIn false s ctr gh cipherKeyLen).inCtx =
        genGcmInit ctr gh K.clientKey K.clientIv := by
  have hdouble : cipherKeyLen <<< 1 = 2 * cipherKeyLen := by
    rw [Nat.shiftLeft_eq, Nat.mul_comm]
  simp only [WriteKeys.of, ← hdouble]
  exact ⟨rfl, rfl, rfl, rfl⟩

theorem twelveAt_slice (kb : List UInt8) (p : ℕ) :
    twelveAt kb p = twelveAt ((kb.drop p).take 12) 0 := by
  have hslice : ∀ i : Fin 12, kb.getD (p + i) 0 = ((kb.drop p).take 12).getD (0 + i) 0 := by
    intro i
    rw [List.getD_eq_getElem?_getD, List.getD_eq_getElem?_getD, Nat.zero_add,
      List.getElem?_take_of_lt i.isLt, List.getElem?_drop]
  rw [twelveAt, twelveAt]
  exact congrArg List.Vector.ofFn (funext hslice)

theorem chapol_switch_contexts (ichacha : List UInt8 → List UInt8 → UInt32 → ℕ → UInt8)
    (ipoly : List UInt8 → List UInt8 → List UInt8 → List UInt8 → List.Vector UInt8 16) :
    let K := WriteKeys.of 32 12 (computeKeyBlock s 44)
    (rc.switchChapolOut true s ichacha ipoly).outCtx =
        genChapolInit ichacha ipoly K.clientKey (twelveAt K.clientIv 0) ∧
      (rc.switchChapolIn true s ichacha ipoly).inCtx =
        genChapolInit ichacha ipoly K.serverKey (twelveAt K.serverIv 0) ∧
      (rc.switchChapolOut false s ichacha ipoly).outCtx =
        genChapolInit ichacha ipoly K.serverKey (twelveAt K.serverIv 0) ∧
      (rc.switchChapolIn false s ichacha ipoly).inCtx =
        genChapolInit ichacha ipoly K.clientKey (twelveAt K.clientIv 0) := by
  have hclient := twelveAt_slice (computeKeyBlock s 44) 64
  have hserver := twelveAt_slice (computeKeyBlock s 44) 76
  simp only [WriteKeys.of]
  rw [← hclient, ← hserver]
  exact ⟨rfl, rfl, rfl, rfl⟩

end Contexts

/-- From the pre-master secret on: under AES-GCM and under ChaCha20+Poly1305, each end is
switched to write under the key and the IV that the standard gives it, and to read under those
of its peer. -/
theorem key_schedule (stack : Mem) (c : Sha2Context 32) (d : Sha2Context 64) (prfId : ℕ)
    (pms clientRandom serverRandom : List UInt8) (hpms : pms.length < 2 ^ 61)
    (hclient : clientRandom.length = 32) (hserver : serverRandom.length = 32)
    {κ ι : Type} (rc : SslEngine κ ι) (ctr : List UInt8 → List UInt8 → UInt32 → ℕ → UInt8)
    (gh : List UInt8 → List.Vector UInt8 16 → List UInt8 → List.Vector UInt8 16)
    (cipherKeyLen : ℕ) (ichacha : List UInt8 → List UInt8 → UInt32 → ℕ → UInt8)
    (ipoly : List UInt8 → List UInt8 → List UInt8 → List UInt8 → List.Vector UInt8 16) :
    let s := sslSecrets stack c d prfId pms clientRandom serverRandom
    let kb := tlsKeyBlock (prfId = br_sha384_ID) pms clientRandom serverRandom
    let K := WriteKeys.of cipherKeyLen 4 (kb (2 * (cipherKeyLen + 4)))
    let L := WriteKeys.of 32 12 (kb (2 * 44))
    ((rc.switchGcmOut true s ctr gh cipherKeyLen).outCtx =
        genGcmInit ctr gh K.clientKey K.clientIv ∧
      (rc.switchGcmIn true s ctr gh cipherKeyLen).inCtx =
        genGcmInit ctr gh K.serverKey K.serverIv ∧
      (rc.switchGcmOut false s ctr gh cipherKeyLen).outCtx =
        genGcmInit ctr gh K.serverKey K.serverIv ∧
      (rc.switchGcmIn false s ctr gh cipherKeyLen).inCtx =
        genGcmInit ctr gh K.clientKey K.clientIv) ∧
    ((rc.switchChapolOut true s ichacha ipoly).outCtx =
        genChapolInit ichacha ipoly L.clientKey (twelveAt L.clientIv 0) ∧
      (rc.switchChapolIn true s ichacha ipoly).inCtx =
        genChapolInit ichacha ipoly L.serverKey (twelveAt L.serverIv 0) ∧
      (rc.switchChapolOut false s ichacha ipoly).outCtx =
        genChapolInit ichacha ipoly L.serverKey (twelveAt L.serverIv 0) ∧
      (rc.switchChapolIn false s ichacha ipoly).inCtx =
        genChapolInit ichacha ipoly L.clientKey (twelveAt L.clientIv 0)) := by
  have hgcm := key_block_eq stack c d prfId hpms hclient hserver (cipherKeyLen + 4)
  have hchapol := key_block_eq stack c d prfId hpms hclient hserver 44
  dsimp only
  rw [← hgcm, ← hchapol]
  exact ⟨gcm_switch_contexts rc _ ctr gh cipherKeyLen, chapol_switch_contexts rc _ ichacha ipoly⟩

/-- Pre-master secret and random values of a constant byte each. -/
theorem key_schedule_sample :
    (List.replicate 48 (1 : UInt8)).length < 2 ^ 61 ∧ (List.replicate 32 (2 : UInt8)).length = 32 ∧
      (SslEngine.zero.switchGcmOut true
        (sslSecrets (fun _ => 7) ⟨fun _ => 9, 5, .ofList brSha224IV⟩
          ⟨fun _ => 0, 0, .ofList IV512⟩ 4 (List.replicate 48 1) (List.replicate 32 2)
          (List.replicate 32 3)) (fun _ _ _ _ => 0) (fun _ tag _ => tag) 16).outCtx.iv =
        ((tlsKeyBlock false (List.replicate 48 1) (List.replicate 32 2) (List.replicate 32 3)
          40).drop 32).take 4 := by
  refine ⟨by decide, by decide, ?_⟩
  obtain ⟨⟨hout, -⟩, -⟩ := key_schedule (fun _ => 7) ⟨fun _ => 9, 5, .ofList brSha224IV⟩
    ⟨fun _ => 0, 0, .ofList IV512⟩ 4 (List.replicate 48 1) (List.replicate 32 2)
    (List.replicate 32 3) (by decide) (by decide) (by decide) SslEngine.zero (fun _ _ _ _ => 0)
    (fun _ tag _ => tag) 16 (fun _ _ _ _ => 0) (fun _ _ _ _ => List.Vector.replicate 16 0)
  have hid : decide (4 = br_sha384_ID) = false := by decide
  rw [hout]
  simp only [genGcmInit, WriteKeys.of, hid]

end BearTLS
