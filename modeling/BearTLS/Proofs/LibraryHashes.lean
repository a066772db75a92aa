import BearTLS.Proofs.Hashcash
import BearTLS.Proofs.Hmac
import BearTLS.Proofs.Pbkdf2

/-! The key derivation and the proof of work of `wm_https.c` over the hash functions of the
library. -/

namespace BearTLS

open Base64 Fips180 HeaderBlock Memory Radix

section Library

variable (stack : Mem)

theorem length_hmac512 (c₁ c₂ c₃ : Sha2Context 64) (key data : List UInt8) :
    (hmacOf (brSha512Vtable stack) c₁ c₂ c₃ key 0 [data]).length = 64 := by
  have hsize : brDigestSize (brSha512Vtable stack) = 64 := by
    simp only [brDigestSize, brSha512Vtable]
    decide
  have hout : ∀ c, ((brSha512Vtable stack).out c).length = 64 := fun _ => rfl
  rw [hmacOf, brHmacOut, List.length_take]
  show min (brDigestSize (brSha512Vtable stack)) ((brSha512Vtable stack).out _).length = 64
  rw [hsize, hout, Nat.min_self]

/-- What `wm_pbkdf2_hmac_sha512_once` stores. -/
def bearHmacSha512 (c₁ c₂ c₃ : Sha2Context 64) (key data : List UInt8) : List.Vector UInt8 64 :=
  ⟨hmacOf (brSha512Vtable stack) c₁ c₂ c₃ key 0 [data], length_hmac512 stack c₁ c₂ c₃ key data⟩

/-- HMAC-SHA-512 as in the standards. -/
noncomputable def hmacSha512 (key data : List UInt8) : List.Vector UInt8 64 :=
  ⟨Hmac.mac 128 sha512 key data, length_digest (by decide) _⟩

theorem bearHmacSha512_eq (c₁ c₂ c₃ : Sha2Context 64) {key data : List UInt8}
    (hkey : key.length < 2 ^ 61) (hdata : data.length + 128 < 2 ^ 61) :
    bearHmacSha512 stack c₁ c₂ c₃ key data = hmacSha512 key data := by
  have hflat : [data].flatten = data := List.append_nil data
  have hmac := hmac_of_computes (sha512_computes stack) c₁ c₂ c₃ hkey 0 (by rwa [hflat])
  rw [hflat] at hmac
  exact Subtype.ext hmac

theorem bearSha256_digest (c : Sha2Context 32) {m : List UInt8} (hm : m.length < 2 ^ 61) :
    ((bearSha256 stack c).out ((bearSha256 stack c).update (bearSha256 stack c).init m)).toList =
      sha256 m := by
  have hC := sha256_computes stack
  exact hC.out (hC.update (hC.init c) m) hm

section Derivation

variable {ρ : Type}

/-- `wm_pbkdf2_sha512_b64salt` with the HMAC of the library derives the key of PBKDF2 under
HMAC-SHA-512. -/
theorem pbkdf2_library (c₁ c₂ c₃ : Sha2Context 64) (progress : Progress ρ)
    (password saltB64 : Option CString) (iterations : UInt32) (out : Option Mem)
    (outLen : UInt32) (userData : ρ) :
    let o := wmPbkdf2Sha512B64salt (bearHmacSha512 stack c₁ c₂ c₃) progress password saltB64
      iterations out outLen userData
    (∀ p salt m, DerivesFrom password saltB64 iterations out outLen p salt m →
      o.ret = true ∧ ∃ m', o.out = some m' ∧ load m' 0 outLen.toNat =
          Pbkdf2.key hmacSha512 p.bytes salt iterations.toNat outLen.toNat ∧
        ∀ i, outLen.toNat ≤ i → m' i = m i) ∧
    ((¬ ∃ p salt m, DerivesFrom password saltB64 iterations out outLen p salt m) →
      o.ret = false ∧ o.out = out) := by
  refine ⟨fun p salt m h => ?_, fun h => rejected_of_args h userData⟩
  have hp := p.fits
  have hsalt := h.salt_le
  have hsame : ∀ data : List UInt8, data.length ≤ 68 →
      bearHmacSha512 stack c₁ c₂ c₃ p.bytes data = hmacSha512 p.bytes data := by
    intro data hdata
    exact bearHmacSha512_eq stack c₁ c₂ c₃ (by omega) (by omega)
  have hkey : Pbkdf2.key (bearHmacSha512 stack c₁ c₂ c₃) p.bytes salt iterations.toNat
      outLen.toNat = Pbkdf2.key hmacSha512 p.bytes salt iterations.toNat outLen.toNat :=
    Pbkdf2.key_congr hsame (by omega) (by omega)
  rw [← hkey]
  exact derived_of_args h userData

end Derivation

section Work

variable {ρ : Type} {text : CString} {token : List UInt8} {e : UInt32}

/-- The condition of the puzzle, on SHA-256 itself. -/
def Solves (token : List UInt8) (e nonce : UInt32) : Prop :=
  ofBytes ((sha256 (toBytes 4 nonce.toNat ++ (List.replicate 262144 token).flatten)).take 4) ≤
    (2 * (e.toNat % 64) + 1) * 2 ^ (7 * (e.toNat / 64) + 3)

theorem easyEnough_library (c : Sha2Context 32) (hlen : token.length = WM_HASHCASH_TOKEN_BYTES)
    (e nonce : UInt32) : EasyEnough (bearSha256 stack c) token e nonce ↔ Solves token e nonce := by
  have hmessage : (hashcashMessage token nonce).length < 2 ^ 61 := by
    rw [hashcashMessage, copies, List.length_append, length_toBytes, List.length_flatten,
      List.map_replicate, List.sum_replicate, hlen]
    decide
  rw [EasyEnough, Sha256.ofNonce, bearSha256_digest stack c hmessage]
  rfl

/-- `wm_hashcash_solve` with the SHA-256 of the library solves the puzzle for SHA-256. The context
of a nonce is the one that a single update leaves, its buffer included. -/
theorem hashcash_library (c : Sha2Context 32) (hdecode : decode text.bytes = some token)
    (hlen : token.length = WM_HASHCASH_TOKEN_BYTES) (he : e.toNat ≤ 255) (clock : ℕ → UInt32)
    (progress : Progress ρ) (out : Mem) (size : UInt32) (local₀ : Mem) (userData : ρ) :
    let H := bearSha256 stack c
    let run := wmHashcashRun H clock progress token e local₀ userData
    let o := wmHashcashSolve H clock progress (some text) e (some out) size local₀ userData
    (∀ nonce s ctx, (wmHashcashAttempt H clock progress (wmHashcashBufs token local₀) (clock 0)
        nonce s).1 = some ctx →
      ctx = brSha224Update (brSha256Init c)
        (toBytes 4 nonce.toNat ++ (List.replicate 262144 token).flatten)) ∧
    (o.ret = true → ∃ nonce, Solves token e nonce ∧ (∀ m < nonce, ¬ Solves token e m) ∧
      o.prefixB64 = some (store out 0 (urlText (toBytes 4 nonce.toNat) ++ [0]))) ∧
    (o.ret = false → (run.1 = .gaveUp ∧ TimedOut clock (clock 0) run.2.ticks) ∨
      (∀ nonce, ¬ Solves token e nonce) ∨ size.toNat < 7) := by
  intro H run o
  have hinc : H.Incremental := bearSha256_incremental stack c
  have heasy : ∀ nonce, EasyEnough H token e nonce ↔ Solves token e nonce :=
    easyEnough_library stack c hlen e
  obtain ⟨hone, hzero⟩ := solve_found H clock progress hlen he hdecode size out local₀ userData
  refine ⟨attempt_value hlen hinc local₀ (clock 0), fun hret => ?_, fun hret => ?_⟩
  · obtain ⟨nonce, hn, hstored⟩ := hone hret
    obtain ⟨hsolves, hleast⟩ := run_found_easy hlen he hinc hn
    exact ⟨nonce, (heasy nonce).mp hsolves, fun m hm h => hleast m hm ((heasy m).mpr h), hstored⟩
  · rcases hzero hret with hends | hshort
    · cases hr : run.1 with
      | gaveUp => exact .inl ⟨rfl, run_timed_out hlen hr⟩
      | found nonce => exact absurd hr (hends nonce)
      | exhausted =>
        exact .inr (.inl fun nonce h =>
          run_exhausted_hard hlen he hinc hr nonce ((heasy nonce).mpr h))
    · exact .inr (.inr hshort)

/-- With a clock that stands still the search succeeds if it can. -/
theorem hashcash_library_zeros :
    (wmHashcashSolve (bearSha256 (fun _ => 7) ⟨fun _ => 9, 5, .ofList brSha224IV⟩) (fun _ => 0)
      (none : Progress Unit) (some zeroToken) 255 (some fun _ => 0) 7 (fun _ => 0) ()).ret = true ↔
      ∃ nonce, Solves (List.replicate 48 0) 255 nonce := by
  have hdecode : decode zeroToken.bytes = some (List.replicate 48 0) := by decide +kernel
  obtain ⟨-, hfound, hlost⟩ := hashcash_library (e := 255) (fun _ => 7)
    ⟨fun _ => 9, 5, .ofList brSha224IV⟩ hdecode rfl (by decide) (fun _ => 0) (none : Progress Unit)
    (fun _ => 0) 7 (fun _ => 0) ()
  constructor
  · intro hret
    obtain ⟨nonce, hsolves, -⟩ := hfound hret
    exact ⟨nonce, hsolves⟩
  · rintro ⟨nonce, hsolves⟩
    by_contra hret
    rw [Bool.not_eq_true] at hret
    rcases hlost hret with ⟨-, k, -, hlate⟩ | hnone | hshort
    · have hstill : WM_HASHCASH_TIMEOUT_MS ≤ 0 - 0 := hlate
      exact absurd hstill (by decide)
    · exact hnone nonce hsolves
    · exact absurd hshort (by decide)

end Work

end Library

end BearTLS
