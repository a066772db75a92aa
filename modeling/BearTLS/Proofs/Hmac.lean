import BearTLS.Proofs.Sha2

/-! `hmac.c` computes HMAC over every hash class that computes a hash function. -/

namespace BearTLS

open Fips180 Memory

section Hmac

variable {γ : Type} {C : BrHashClass γ} {Holds : γ → List UInt8 → Prop} {n : ℕ}
  {H : List UInt8 → List UInt8}

/-- The bytes at `ks` are the state of a context that has taken in `m`. -/
def Saved (C : BrHashClass γ) (Holds : γ → List UInt8 → Prop) (ks m : List UInt8) : Prop :=
  ∃ c, Holds c m ∧ ks = (C.state c).1

theorem Saved.resume (hC : C.Computes Holds n H) {ks m : List UInt8} (h : Saved C Holds ks m)
    (hm : m.length = n) (c : γ) : Holds (C.setState c ks (blockSize C).toUInt64) m := by
  obtain ⟨c', hc', rfl⟩ := h
  have hres := hC.resume hc' (by rw [hm, Nat.mod_self]) c
  rwa [hm, ← hC.block] at hres

theorem take_hash (hC : C.Computes Holds n H) (m : List UInt8) :
    (H m).take (brDigestSize C) = H m := by
  rw [← hC.size m, List.take_length]

theorem processKey_saved (hC : C.Computes Holds n H) (c : γ) {key : List UInt8} (bb : UInt8) :
    Saved C Holds (processKey c C key bb)
      ((key ++ List.replicate (n - key.length) 0).map (· ^^^ bb)) := by
  have hpad : key.map (· ^^^ bb) ++ List.replicate (n - key.length) bb =
      (key ++ List.replicate (n - key.length) 0).map (· ^^^ bb) := by
    rw [List.map_append, List.map_replicate, UInt8.zero_xor]
  refine ⟨_, ?_, rfl⟩
  rw [hC.block, hpad]
  exact hC.update (hC.init c) _

/-- The two saved states of a key context. -/
theorem keyInit_saved (hC : C.Computes Holds n H) (c : γ) {key : List UInt8}
    (hkey : key.length < 2 ^ 61) :
    Saved C Holds (brHmacKeyInit c C key).ksi (Hmac.pad n H key 0x36) ∧
      Saved C Holds (brHmacKeyInit c C key).kso (Hmac.pad n H key 0x5C) := by
  have hblock : (if key.length > blockSize C then
      (C.out (C.update (C.init c) key)).take (brDigestSize C) else key) =
        if key.length > n then H key else key := by
    have hout : C.out (C.update (C.init c) key) = H key := hC.out (hC.update (hC.init c) key) hkey
    rw [hC.block, hout, take_hash hC]
  simp only [brHmacKeyInit, hblock]
  exact ⟨processKey_saved hC c _, processKey_saved hC c _⟩

theorem length_hmac_pad (hC : C.Computes Holds n H) (key : List UInt8) (bb : UInt8) :
    (Hmac.pad n H key bb).length = n :=
  Hmac.length_pad (fun m => (hC.size m).le.trans hC.fits) bb

/-- The length of the output that `br_hmac_init` chooses. -/
theorem outLen_take (hC : C.Computes Holds n H) (m : List UInt8) (outLen : ℕ) :
    (H m).take (if outLen > 0 ∧ outLen < brDigestSize C then outLen else brDigestSize C) =
      if outLen = 0 then H m else (H m).take outLen := by
  split_ifs with hshort hzero hzero
  · omega
  · rfl
  · exact take_hash hC m
  · have hlen := hC.size m
    rw [take_hash hC, List.take_of_length_le (by omega)]

/-- An HMAC context and the message bytes it has taken in. -/
structure HmacHolds (C : BrHashClass γ) (Holds : γ → List UInt8 → Prop) (n : ℕ)
    (H : List UInt8 → List UInt8) (key : List UInt8) (ctx : BrHmacContext γ) (m : List UInt8) :
    Prop where
  vtable : ctx.vtable = C
  dig : Holds ctx.dig (Hmac.pad n H key 0x36 ++ m)
  kso : Saved C Holds ctx.kso (Hmac.pad n H key 0x5C)

/-- The contexts that a key context starts, as often as one likes. -/
theorem hmac_init_holds (hC : C.Computes Holds n H) (c c' : γ) {key : List UInt8}
    (hkey : key.length < 2 ^ 61) (outLen : ℕ) :
    HmacHolds C Holds n H key (brHmacInit c' (brHmacKeyInit c C key) outLen) [] := by
  obtain ⟨hksi, hkso⟩ := keyInit_saved hC c hkey
  refine ⟨rfl, ?_, hkso⟩
  rw [List.append_nil]
  exact hksi.resume hC (length_hmac_pad hC key 0x36) _

theorem hmac_update_holds (hC : C.Computes Holds n H) {key m : List UInt8} {ctx : BrHmacContext γ}
    (h : HmacHolds C Holds n H key ctx m) (data : List UInt8) :
    HmacHolds C Holds n H key (brHmacUpdate ctx data) (m ++ data) := by
  refine ⟨h.vtable, ?_, h.kso⟩
  rw [← List.append_assoc, brHmacUpdate, h.vtable]
  exact hC.update h.dig data

theorem hmac_updates_holds (hC : C.Computes Holds n H) {key m : List UInt8} {ctx : BrHmacContext γ}
    (h : HmacHolds C Holds n H key ctx m) (chunks : List (List UInt8)) :
    HmacHolds C Holds n H key (chunks.foldl brHmacUpdate ctx) (m ++ chunks.flatten) ∧
      (chunks.foldl brHmacUpdate ctx).outLen = ctx.outLen := by
  induction chunks generalizing ctx m with
  | nil =>
    rw [List.flatten_nil, List.append_nil]
    exact ⟨h, rfl⟩
  | cons chunk chunks ih =>
    rw [List.foldl_cons, List.flatten_cons, ← List.append_assoc]
    exact ih (hmac_update_holds hC h chunk)

theorem hmac_out_holds (hC : C.Computes Holds n H) {key m : List UInt8} {ctx : BrHmacContext γ}
    (h : HmacHolds C Holds n H key ctx m) (hm : m.length + 128 < 2 ^ 61) (c : γ) :
    brHmacOut c ctx = (Hmac.mac n H key m).take ctx.outLen := by
  have hn := hC.small
  have hsize := hC.fits
  have hinner : C.out ctx.dig = H (Hmac.pad n H key 0x36 ++ m) := by
    apply hC.out h.dig
    rw [List.length_append, length_hmac_pad hC]
    omega
  have houter := hC.update (h.kso.resume hC (length_hmac_pad hC key 0x5C) (C.init c))
    (H (Hmac.pad n H key 0x36 ++ m))
  have hlen : (Hmac.pad n H key 0x5C ++ H (Hmac.pad n H key 0x36 ++ m)).length < 2 ^ 61 := by
    rw [List.length_append, length_hmac_pad hC, hC.size]
    omega
  simp only [brHmacOut, h.vtable, hinner, take_hash hC]
  rw [hC.out houter hlen]
  rfl

theorem hmac_of_computes (hC : C.Computes Holds n H) (c₁ c₂ c₃ : γ) {key : List UInt8}
    (hkey : key.length < 2 ^ 61) (outLen : ℕ) {chunks : List (List UInt8)}
    (hm : chunks.flatten.length + 128 < 2 ^ 61) :
    hmacOf C c₁ c₂ c₃ key outLen chunks =
      Hmac.truncated n H key chunks.flatten outLen := by
  obtain ⟨hholds, hout⟩ :=
    hmac_updates_holds hC (hmac_init_holds hC c₁ c₂ hkey outLen) chunks
  rw [hmacOf, hmac_out_holds hC hholds hm, hout]
  exact outLen_take hC _ outLen

theorem hmac_pieces_eq (hC : C.Computes Holds n H) (c : γ) {key : List UInt8}
    (hkey : key.length < 2 ^ 61) {pieces : List (List UInt8)}
    (hm : pieces.flatten.length + 128 < 2 ^ 61) :
    hmacPieces c (brHmacKeyInit c C key) pieces = Hmac.mac n H key pieces.flatten := by
  have hmac := hmac_of_computes hC c c c hkey 0 hm
  rwa [Hmac.truncated, if_pos rfl] at hmac

theorem hmac_piece_eq (hC : C.Computes Holds n H) (c : γ) {key m : List UInt8}
    (hkey : key.length < 2 ^ 61) (hm : m.length + 128 < 2 ^ 61) :
    hmacPieces c (brHmacKeyInit c C key) [m] = Hmac.mac n H key m := by
  have hflat : [m].flatten = m := List.append_nil m
  have hlen : [m].flatten.length + 128 < 2 ^ 61 := by rwa [hflat]
  rw [hmac_pieces_eq hC c hkey hlen, hflat]

theorem length_mac (hC : C.Computes Holds n H) (k m : List UInt8) :
    (Hmac.mac n H k m).length = brDigestSize C := hC.size _

end Hmac

/-- HMAC under the four functions: any key, a message in any pieces, an output cut to any
length, from any contexts and with anything on the stack. -/
theorem hmac_sha2 (stack : Mem) (c₁ c₂ c₃ : Sha2Context 32) (d₁ d₂ d₃ : Sha2Context 64)
    (key : List UInt8) (hkey : key.length < 2 ^ 61) (outLen : ℕ) (chunks : List (List UInt8))
    (hm : chunks.flatten.length + 128 < 2 ^ 61) :
    hmacOf (brSha224Vtable stack) c₁ c₂ c₃ key outLen chunks =
        Hmac.truncated 64 sha224 key chunks.flatten outLen ∧
      hmacOf (brSha256Vtable stack) c₁ c₂ c₃ key outLen chunks =
        Hmac.truncated 64 sha256 key chunks.flatten outLen ∧
      hmacOf (brSha384Vtable stack) d₁ d₂ d₃ key outLen chunks =
        Hmac.truncated 128 sha384 key chunks.flatten outLen ∧
      hmacOf (brSha512Vtable stack) d₁ d₂ d₃ key outLen chunks =
        Hmac.truncated 128 sha512 key chunks.flatten outLen :=
  ⟨hmac_of_computes (sha224_computes stack) c₁ c₂ c₃ hkey outLen hm,
    hmac_of_computes (sha256_computes stack) c₁ c₂ c₃ hkey outLen hm,
    hmac_of_computes (sha384_computes stack) d₁ d₂ d₃ hkey outLen hm,
    hmac_of_computes (sha512_computes stack) d₁ d₂ d₃ hkey outLen hm⟩

/-- A key of 65 bytes, which is hashed first. -/
theorem hmac_sha2_long_key :
    (List.replicate 65 (1 : UInt8)).length < 2 ^ 61 ∧
      hmacOf (brSha256Vtable fun _ => 7) ⟨fun _ => 9, 5, .ofList brSha224IV⟩
          ⟨fun _ => 8, 6, .ofList brSha224IV⟩ ⟨fun _ => 7, 7, .ofList brSha224IV⟩
          (List.replicate 65 1) 20 [[97], [98, 99]] =
        Hmac.truncated 64 sha256 (List.replicate 65 1) [97, 98, 99] 20 :=
  ⟨by decide, (hmac_sha2 (fun _ => 7) ⟨fun _ => 9, 5, .ofList brSha224IV⟩
    ⟨fun _ => 8, 6, .ofList brSha224IV⟩ ⟨fun _ => 7, 7, .ofList brSha224IV⟩
    ⟨fun _ => 0, 0, .ofList IV512⟩ ⟨fun _ => 0, 0, .ofList IV512⟩ ⟨fun _ => 0, 0, .ofList IV512⟩
    (List.replicate 65 1) (by decide) 20 [[97], [98, 99]] (by decide)).2.1⟩

end BearTLS
