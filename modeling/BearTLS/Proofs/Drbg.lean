import BearTLS.Proofs.Hmac
import BearTLS.Spec.Drbg

/-! The random generator of an engine is HMAC_DRBG, seeded once by the system. -/

namespace BearTLS

open Fips180 HmacDrbg Memory

section Generator

variable {γ : Type} {C : BrHashClass γ} {Holds : γ → List UInt8 → Prop} {n : ℕ}
  {H : List UInt8 → List UInt8} {s : HmacDrbg.State}

/-- HMAC under a key that is a digest. -/
theorem pieces_mac (hC : C.Computes Holds n H) (c : γ) {key : List UInt8}
    (hkey : key.length = brDigestSize C) {data : List (List UInt8)}
    (hm : data.flatten.length + 128 < 2 ^ 61) :
    hmacPieces c (brHmacKeyInit c C key) data = Hmac.mac n H key data.flatten := by
  have hfits := hC.fits
  have hsmall := hC.small
  exact hmac_pieces_eq hC c (by omega) hm

/-- HMAC of the value V, under such a key. -/
theorem value_mac (hC : C.Computes Holds n H) (c : γ) {key v : List UInt8}
    (hkey : key.length = brDigestSize C) (hv : v.length = brDigestSize C) :
    hmacPieces c (brHmacKeyInit c C key) [v] = Hmac.mac n H key v := by
  have hfits := hC.fits
  have hsmall := hC.small
  exact hmac_piece_eq hC c (by omega) (by omega)

theorem take_mac (hC : C.Computes Holds n H) (k m : List UInt8) :
    (Hmac.mac n H k m).take (brDigestSize C) = Hmac.mac n H k m :=
  List.take_of_length_le (length_mac hC k m).le

/-- `br_hmac_drbg_update` on a context with the state `s`. -/
theorem drbg_update_eq (hC : C.Computes Holds n H) (c : γ) (hs : s.Sized (brDigestSize C))
    {seed : List UInt8} (hseed : seed.length + 512 < 2 ^ 61) :
    brHmacDrbgUpdate c ⟨C, s.key, s.v⟩ seed =
      ⟨C, (HmacDrbg.update (Hmac.mac n H) s seed).key,
        (HmacDrbg.update (Hmac.mac n H) s seed).v⟩ := by
  have hfits := hC.fits
  have hsmall := hC.small
  have hmac := length_mac hC
  have hkey : s.key.take (brDigestSize C) = s.key := List.take_of_length_le hs.key.le
  have hv : s.v.take (brDigestSize C) = s.v := List.take_of_length_le hs.v.le
  have hseeded : ∀ (key v : List UInt8) (b : UInt8), key.length = brDigestSize C →
      v.length = brDigestSize C → hmacPieces c (brHmacKeyInit c C key) [v, [b], seed] =
        Hmac.mac n H key (v ++ b :: seed) := by
    intro key v b hkey hv
    have hflat : [v, [b], seed].flatten = v ++ b :: seed := by
      simp only [List.flatten_cons, List.flatten_nil, List.append_nil, List.singleton_append]
    rw [pieces_mac hC c hkey, hflat]
    rw [hflat, List.length_append, List.length_cons, hv]
    omega
  have hfirst := hseeded s.key s.v 0x00 hs.key hs.v
  have hlen := hmac s.key (s.v ++ 0x00 :: seed)
  simp only [brHmacDrbgUpdate, HmacDrbg.update, hkey, hv, hfirst, take_mac hC]
  generalize Hmac.mac n H s.key (s.v ++ 0x00 :: seed) = key₁ at hlen ⊢
  rw [value_mac hC c hlen hs.v]
  by_cases hempty : seed = []
  · rw [if_pos (List.length_eq_zero_iff.mpr hempty), if_pos hempty]
  · have hlen' := hmac key₁ (Hmac.mac n H key₁ s.v ++ 0x01 :: seed)
    rw [if_neg (fun h => hempty (List.length_eq_zero_iff.mp h)), if_neg hempty, take_mac hC,
      hseeded key₁ _ 0x01 hlen (hmac _ _), take_mac hC, value_mac hC c hlen' (hmac _ _)]

/-- The loop of `br_hmac_drbg_generate`, which is to put out `l` more blocks. -/
theorem drbg_loop_eq (hC : C.Computes Holds n H) (c : γ) (hs : s.Sized (brDigestSize C))
    (l i len : ℕ) (hle : len ≤ brDigestSize C * l)
    (hlt : brDigestSize C * l < len + brDigestSize C) :
    drbgLoop c (brHmacKeyInit c C s.key) (brDigestSize C) (value (Hmac.mac n H) s i) len =
      some ((blocks (Hmac.mac n H) s i l).take len, value (Hmac.mac n H) s (i + l)) := by
  have hlen : ∀ i, (value (Hmac.mac n H) s i).length = brDigestSize C :=
    value_length (length_mac hC) hs
  have hnext : ∀ i, hmacPieces c (brHmacKeyInit c C s.key)
      [(value (Hmac.mac n H) s i).take (brDigestSize C)] = value (Hmac.mac n H) s (i + 1) := by
    intro i
    rw [List.take_of_length_le (hlen i).le]
    exact value_mac hC c hs.key (hlen i)
  induction l generalizing i len with
  | zero =>
    obtain rfl : len = 0 := by omega
    rw [drbgLoop, dif_neg (Nat.lt_irrefl 0)]
    rfl
  | succ l ih =>
    rw [Nat.mul_succ] at hle hlt
    rw [drbgLoop, dif_pos (by omega), hnext, blocks_succ]
    dsimp only
    rcases Nat.lt_or_ge (brDigestSize C) len with hlong | hshort
    · have hrest := ih (i + 1) (len - brDigestSize C) (by omega) (by omega)
      have htake : (value (Hmac.mac n H) s (i + 1) ++ blocks (Hmac.mac n H) s (i + 1) l).take len =
          value (Hmac.mac n H) s (i + 1) ++
            (blocks (Hmac.mac n H) s (i + 1) l).take (len - brDigestSize C) := by
        rw [List.take_append, hlen, List.take_of_length_le (by rw [hlen]; omega)]
      have hclen : (if brDigestSize C > len then len else brDigestSize C) = brDigestSize C :=
        if_neg (by omega)
      rw [hclen, dif_neg (by omega), hrest, htake, Option.map_some,
        List.take_of_length_le (hlen (i + 1)).le, Nat.add_assoc i 1 l, Nat.add_comm 1 l]
    · -- The last block.
      have hclen : (if brDigestSize C > len then len else brDigestSize C) = len := by
        split_ifs
        · rfl
        · omega
      obtain rfl : l = 0 := by
        rcases Nat.eq_zero_or_pos l with hl | hl
        · exact hl
        · have hmul := Nat.le_mul_of_pos_right (brDigestSize C) hl
          omega
      rw [hclen, dif_neg (by omega), Nat.sub_self, drbgLoop, dif_neg (Nat.lt_irrefl 0),
        Option.map_some]
      have hnone : blocks (Hmac.mac n H) s (i + 1) 0 = [] := rfl
      simp only [hnone, List.append_nil, Nat.zero_add]

/-- `br_hmac_drbg_generate` on a context with the state `s`. -/
theorem drbg_generate_eq (hC : C.Computes Holds n H) (hpos : 0 < brDigestSize C) (c : γ)
    (hs : s.Sized (brDigestSize C)) (len : ℕ) :
    let o := HmacDrbg.generate (Hmac.mac n H) (brDigestSize C) s len
    brHmacDrbgGenerate c ⟨C, s.key, s.v⟩ len = some (o.1, ⟨C, o.2.key, o.2.v⟩) ∧
      o.2.Sized (brDigestSize C) := by
  have hmac := length_mac hC
  have hkey : s.key.take (brDigestSize C) = s.key := List.take_of_length_le hs.key.le
  have hupper := Nat.mul_div_le (len + brDigestSize C - 1) (brDigestSize C)
  have hloop := drbg_loop_eq hC c hs ((len + brDigestSize C - 1) / brDigestSize C) 0 len
    (Hmac.enough_parts hpos len) (by omega)
  have hzero : value (Hmac.mac n H) s 0 = s.v := rfl
  rw [Nat.zero_add, hzero] at hloop
  refine ⟨?_, update_sized hmac []⟩
  have hv := value_length hmac hs ((len + brDigestSize C - 1) / brDigestSize C)
  simp only [brHmacDrbgGenerate, HmacDrbg.generate, hkey, hloop, Option.map_some]
  generalize (len + brDigestSize C - 1) / brDigestSize C = l at hv ⊢
  generalize value (Hmac.mac n H) s l = V at hv ⊢
  have hfits := hC.fits
  have hsmall := hC.small
  have htake : V.take (brDigestSize C) = V := List.take_of_length_le hv.le
  have hK : hmacPieces c (brHmacKeyInit c C s.key) [V, [0x00]] =
      Hmac.mac n H s.key (V ++ [0x00]) := by
    refine pieces_mac hC c hs.key (show (V ++ [0x00]).length + 128 < 2 ^ 61 from ?_)
    rw [List.length_append, List.length_singleton, hv]
    omega
  rw [htake, hK, take_mac hC, value_mac hC c (hmac s.key (V ++ [0x00])) hv]
  rfl

end Generator

section Engine

variable {γ : Type} {C : BrHashClass γ} {Holds : γ → List UInt8 → Prop} {n : ℕ}
  {H : List UInt8 → List UInt8} {sha256 sha384 sha1 : Option (BrHashClass γ)}

/-- An engine whose generator has been started. -/
structure RngShows (C : BrHashClass γ) (cc : EngineRng γ) (s : SeededRng) : Prop where
  rng : cc.rng = ⟨C, s.drbg.key, s.drbg.v⟩
  sized : s.drbg.Sized (brDigestSize C)
  started : cc.rngInitDone = 2
  os : cc.rngOsRandDone = s.seeded
  failed : cc.failed = none

theorem length_winceSeed (src : SeedSources) : (winceSeed src).length = 64 := length_load _ _ _

section InitRand

variable {c : γ} {cc : EngineRng γ} (src : SeedSources)

/-- The system is asked once. -/
theorem init_rand_again (hdone : cc.rngInitDone = 2) (hos : cc.rngOsRandDone = true) :
    brSslEngineInitRand c sha256 sha384 sha1 src cc = (cc, true) := by
  simp [brSslEngineInitRand, rngInit, hdone, hos]

theorem init_rand_first (hdone : cc.rngInitDone = 2) (hos : cc.rngOsRandDone = false) :
    brSslEngineInitRand c sha256 sha384 sha1 src cc =
      ({ cc with
          rng := brHmacDrbgUpdate c cc.rng (winceSeed src)
          rngInitDone := 2
          rngOsRandDone := true }, true) := by
  simp [brSslEngineInitRand, rngInit, hdone, hos]

theorem init_rand_fresh (hfound : sha256.or (sha384.or sha1) = some C) (hdone : cc.rngInitDone = 0)
    (hos : cc.rngOsRandDone = false) :
    brSslEngineInitRand c sha256 sha384 sha1 src cc =
      ({ cc with
          rng := brHmacDrbgUpdate c (brHmacDrbgInit c C []) (winceSeed src)
          rngInitDone := 2
          rngOsRandDone := true }, true) := by
  simp [brSslEngineInitRand, rngInit, hdone, hos, hfound]

end InitRand

theorem winceSeed_fits (src : SeedSources) : (winceSeed src).length + 512 < 2 ^ 61 := by
  rw [length_winceSeed]
  decide

/-- How long the data of a call may be. -/
def RngCall.Fits : RngCall → Prop
  | .injectEntropy data => data.length + 512 < 2 ^ 61
  | _ => True

variable (sha256 sha384 sha1) in
theorem rng_call_shows (hC : C.Computes Holds n H) (hpos : 0 < brDigestSize C) (c : γ)
    {cc : EngineRng γ} {s : SeededRng} (h : RngShows C cc s) (call : RngCall) (hfits : call.Fits) :
    ∃ cc', rngCall c sha256 sha384 sha1 cc call =
        some ((s.call (Hmac.mac n H) (brDigestSize C) call).1, cc') ∧
      RngShows C cc' (s.call (Hmac.mac n H) (brDigestSize C) call).2 := by
  have hmac := length_mac hC
  have hdone : cc.rngInitDone ≠ 0 := by
    rw [h.started]
    decide
  have hinit : rngInit c sha256 sha384 sha1 cc = (cc, true) := if_pos hdone
  cases call with
  | initRand src =>
    refine ⟨_, rfl, ?_⟩
    cases hos : s.seeded with
    | true =>
      have hsame : s.call (Hmac.mac n H) (brDigestSize C) (.initRand src) = ([], s) := by
        rw [SeededRng.call, hos, if_pos rfl]
      rw [hsame, init_rand_again src h.started (h.os.trans hos)]
      exact h
    | false =>
      have hcall : s.call (Hmac.mac n H) (brDigestSize C) (.initRand src) =
          ([], ⟨HmacDrbg.update (Hmac.mac n H) s.drbg (winceSeed src), true⟩) := by
        rw [SeededRng.call, hos]
        rfl
      have hsized := update_sized (s := s.drbg) hmac (winceSeed src)
      rw [hcall, init_rand_first src h.started (h.os.trans hos), h.rng,
        drbg_update_eq hC c h.sized (winceSeed_fits src)]
      exact ⟨rfl, hsized, rfl, rfl, h.failed⟩
  | injectEntropy data =>
    refine ⟨_, rfl, ?_⟩
    rw [brSslEngineInjectEntropy, hinit]
    refine ⟨?_, update_sized hmac data, rfl, h.os, h.failed⟩
    show brHmacDrbgUpdate c cc.rng data = _
    rw [h.rng, drbg_update_eq hC c h.sized hfits]
    rfl
  | mkrand len =>
    obtain ⟨hgen, hsized⟩ := drbg_generate_eq hC hpos c h.sized len
    refine ⟨{ cc with rng := _ }, ?_, rfl, hsized, h.started, h.os, h.failed⟩
    rw [rngCall, mkrand, h.rng, hgen]
    rfl

theorem drbg_init_eq (hC : C.Computes Holds n H) (c : γ) :
    let s := HmacDrbg.instantiate (Hmac.mac n H) (brDigestSize C) []
    brHmacDrbgInit c C [] = ⟨C, s.key, s.v⟩ ∧ s.Sized (brDigestSize C) := by
  have hs : State.Sized ⟨List.replicate (brDigestSize C) 0, List.replicate (brDigestSize C) 1⟩
      (brDigestSize C) := ⟨List.length_replicate, List.length_replicate⟩
  have hupdate := drbg_update_eq hC c hs (show ([] : List UInt8).length + 512 < 2 ^ 61 by decide)
  exact ⟨hupdate, update_sized (length_mac hC) []⟩

/-- The first call, which finds the generator as the context was zeroed. -/
theorem rng_first_shows (hC : C.Computes Holds n H) (c : γ)
    (hfound : sha256.or (sha384.or sha1) = some C) {cc : EngineRng γ} (hdone : cc.rngInitDone = 0)
    (hos : cc.rngOsRandDone = false) (hfailed : cc.failed = none) {call : RngCall}
    (hcall : ∀ len, call ≠ .mkrand len) (hfits : call.Fits) :
    let s : SeededRng := ⟨HmacDrbg.instantiate (Hmac.mac n H) (brDigestSize C) [], false⟩
    ∃ cc', rngCall c sha256 sha384 sha1 cc call =
        some ((s.call (Hmac.mac n H) (brDigestSize C) call).1, cc') ∧
      RngShows C cc' (s.call (Hmac.mac n H) (brDigestSize C) call).2 := by
  obtain ⟨hinit, hsized⟩ := drbg_init_eq hC c
  cases call with
  | initRand src =>
    refine ⟨_, rfl, ?_⟩
    have hseeded := update_sized (s := instantiate (Hmac.mac n H) (brDigestSize C) [])
      (length_mac hC) (winceSeed src)
    rw [init_rand_fresh src hfound hdone hos, hinit, drbg_update_eq hC c hsized (winceSeed_fits src)]
    exact ⟨rfl, hseeded, rfl, rfl, hfailed⟩
  | injectEntropy data =>
    refine ⟨_, rfl, ?_⟩
    have hstart : rngInit c sha256 sha384 sha1 cc =
        ({ cc with rng := brHmacDrbgInit c C [], rngInitDone := 1 }, true) := by
      simp [rngInit, hdone, hfound]
    rw [brSslEngineInjectEntropy, hstart]
    refine ⟨?_, update_sized (length_mac hC) data, rfl, hos, hfailed⟩
    show brHmacDrbgUpdate c (brHmacDrbgInit c C []) data = _
    rw [hinit, drbg_update_eq hC c hsized hfits]
    rfl
  | mkrand len => exact absurd rfl (hcall len)

theorem rng_run_shows (hC : C.Computes Holds n H) (hpos : 0 < brDigestSize C) (c : γ)
    {cc : EngineRng γ} {s : SeededRng} (h : RngShows C cc s) (calls : List RngCall)
    (hfits : ∀ call ∈ calls, call.Fits) :
    ∃ cc', rngRun c sha256 sha384 sha1 cc calls =
        some ((s.run (Hmac.mac n H) (brDigestSize C) calls).1, cc') ∧
      RngShows C cc' (s.run (Hmac.mac n H) (brDigestSize C) calls).2 := by
  induction calls generalizing cc s with
  | nil => exact ⟨cc, rfl, h⟩
  | cons call calls ih =>
    obtain ⟨cc₁, hcall, h₁⟩ := rng_call_shows sha256 sha384 sha1 hC hpos c h call
      (hfits call List.mem_cons_self)
    obtain ⟨cc₂, hrun, h₂⟩ := ih h₁ fun call hmem => hfits call (List.mem_cons_of_mem _ hmem)
    refine ⟨cc₂, ?_, h₂⟩
    rw [rngRun, hcall, Option.bind_some, hrun]
    rfl

end Engine

/-- The generator of an engine that has SHA-256, under any calls of which the first one starts
it: no call fails or hangs, and the outputs are those of one HMAC_DRBG, which takes in each
piece of entropy in its order and the seed of the system once. -/
theorem engine_rng (stack : Mem) (c : Sha2Context 32)
    (sha384 sha1 : Option (BrHashClass (Sha2Context 32))) (cc : EngineRng (Sha2Context 32))
    (hdone : cc.rngInitDone = 0) (hos : cc.rngOsRandDone = false) (hfailed : cc.failed = none)
    (first : RngCall) (hfirst : ∀ len, first ≠ .mkrand len) (calls : List RngCall)
    (hfits : ∀ call ∈ first :: calls, call.Fits) :
    let mac := Hmac.mac 64 sha256
    let s : SeededRng := ⟨HmacDrbg.instantiate mac 32 [], false⟩
    ∃ cc', rngRun c (some (brSha256Vtable stack)) sha384 sha1 cc (first :: calls) =
        some ((s.run mac 32 (first :: calls)).1, cc') ∧
      cc'.failed = none ∧ cc'.rngInitDone = 2 ∧
      cc'.rngOsRandDone = (s.run mac 32 (first :: calls)).2.seeded := by
  have hsize : brDigestSize (brSha256Vtable stack) = 32 := by
    simp only [brDigestSize, brSha256Vtable]
    decide
  have hC := sha256_computes stack
  have hfound : (some (brSha256Vtable stack)).or (sha384.or sha1) = some (brSha256Vtable stack) :=
    rfl
  obtain ⟨cc₁, hcall, h₁⟩ := rng_first_shows hC c hfound hdone hos hfailed hfirst
    (hfits first List.mem_cons_self)
  obtain ⟨cc₂, hrun, h₂⟩ := rng_run_shows hC (by rw [hsize]; decide) c h₁ calls fun call hmem =>
    hfits call (List.mem_cons_of_mem _ hmem)
  rw [hsize] at hcall hrun h₂
  refine ⟨cc₂, ?_, h₂.failed, h₂.started, h₂.os⟩
  rw [rngRun, hcall, Option.bind_some, hrun]
  rfl

/-- A context of zero bytes, as `br_ssl_client_zero` leaves it. -/
def zeroRng : EngineRng (Sha2Context 32) where
  rng := ⟨brSha256Vtable fun _ => 7, [], []⟩
  rngInitDone := 0
  rngOsRandDone := false
  failed := none

def morning : SeedSources := ⟨1, 2, 3, 4, 5, List.Vector.replicate 8 6⟩

/-- Two resets, between which the handshake takes 40 bytes. -/
theorem engine_rng_resets :
    zeroRng.rngInitDone = 0 ∧ zeroRng.rngOsRandDone = false ∧ zeroRng.failed = none ∧
      ∃ cc', rngRun ⟨fun _ => 9, 5, .ofList brSha224IV⟩ (some (brSha256Vtable fun _ => 7)) none none
            zeroRng [.initRand morning, .mkrand 40, .initRand morning] =
          some ((SeededRng.run (Hmac.mac 64 sha256) 32
            ⟨HmacDrbg.instantiate (Hmac.mac 64 sha256) 32 [], false⟩
            [.initRand morning, .mkrand 40, .initRand morning]).1, cc') ∧ cc'.failed = none := by
  have hfits : ∀ call ∈ [RngCall.initRand morning, .mkrand 40, .initRand morning], call.Fits := by
    intro call hcall
    simp only [List.mem_cons, List.not_mem_nil, or_false] at hcall
    rcases hcall with rfl | rfl | rfl <;> trivial
  obtain ⟨cc', hrun, hfailed, -, -⟩ := engine_rng (fun _ => 7) ⟨fun _ => 9, 5, .ofList brSha224IV⟩
    none none zeroRng rfl rfl rfl (.initRand morning) (fun _ h => nomatch h)
    [.mkrand 40, .initRand morning] hfits
  exact ⟨rfl, rfl, rfl, cc', hrun, hfailed⟩

end BearTLS
