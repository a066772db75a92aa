import BearTLS.Model.Prf
import BearTLS.Proofs.Hmac

/-! The PRF of TLS 1.2 is `P_hash` under the hash function of the cipher suite. -/

namespace BearTLS

open Fips180 Memory

section Phash

variable {γ : Type} {C : BrHashClass γ} {Holds : γ → List UInt8 → Prop} {n : ℕ}
  {H : List UInt8 → List UInt8}

/-- One part of the output, laid over the destination. -/
theorem laid_over (buf tmp : List UInt8) :
    ((List.range (min tmp.length buf.length)).map fun i => buf.getD i 0 ^^^ tmp.getD i 0) =
      List.zipWith (· ^^^ ·) buf tmp := by
  apply List.ext_getElem
  · rw [List.length_map, List.length_range, List.length_zipWith, Nat.min_comm]
  · intro i h₁ h₂
    rw [List.length_map, List.length_range] at h₁
    simp only [List.getElem_map, List.getElem_range, List.getElem_zipWith,
      List.getD_eq_getElem _ _ (show i < buf.length by omega),
      List.getD_eq_getElem _ _ (show i < tmp.length by omega)]

theorem zipWith_append_right {α β δ : Type} (f : α → β → δ) (xs : List α) (ps qs : List β) :
    List.zipWith f xs (ps ++ qs) = List.zipWith f xs ps ++ List.zipWith f (xs.drop ps.length) qs := by
  induction ps generalizing xs with
  | nil => simp
  | cons p ps ih =>
    cases xs with
    | nil => simp
    | cons x xs => simp [ih]

variable {key label : List UInt8} {seed : List (List UInt8)}

/-- One round of the loop, in which `a` is the value `A(i + 1)`. -/
theorem phash_round (hC : C.Computes Holds n H) (c : γ) (hkey : key.length < 2 ^ 61)
    (hm : (label ++ seed.flatten).length + 256 < 2 ^ 61) (i : ℕ) (buf : List UInt8) :
    phashLoop c (brHmacKeyInit c C key) label seed
        (Hmac.chain n H key (label ++ seed.flatten) (i + 1)) buf =
      let part := Hmac.mac n H key
        (Hmac.chain n H key (label ++ seed.flatten) (i + 1) ++ (label ++ seed.flatten))
      if buf.length ≤ brDigestSize C then some (List.zipWith (· ^^^ ·) buf part)
      else if brDigestSize C = 0 then none
      else (phashLoop c (brHmacKeyInit c C key) label seed
        (Hmac.chain n H key (label ++ seed.flatten) (i + 2)) (buf.drop (brDigestSize C))).map
          (List.zipWith (· ^^^ ·) buf part ++ ·) := by
  have hfits := hC.fits
  have hsmall := hC.small
  have hlen := length_mac hC key
  have hnext : Hmac.chain n H key (label ++ seed.flatten) (i + 2) =
      Hmac.mac n H key (Hmac.chain n H key (label ++ seed.flatten) (i + 1)) := rfl
  have ha : (Hmac.chain n H key (label ++ seed.flatten) (i + 1)).length = brDigestSize C := hlen _
  generalize Hmac.chain n H key (label ++ seed.flatten) (i + 1) = a at ha hnext ⊢
  have htake : a.take (brDigestSize C) = a := List.take_of_length_le ha.le
  have htmp : hmacPieces c (brHmacKeyInit c C key) (a :: label :: seed) =
      Hmac.mac n H key (a ++ (label ++ seed.flatten)) := by
    rw [hmac_pieces_eq hC c hkey, List.flatten_cons, List.flatten_cons]
    rw [List.flatten_cons, List.flatten_cons, List.length_append, ha]
    omega
  have hchain := hmac_piece_eq hC c hkey (show a.length + 128 < 2 ^ 61 by omega)
  have hpart := hlen (a ++ (label ++ seed.flatten))
  have hover := laid_over buf (Hmac.mac n H key (a ++ (label ++ seed.flatten)))
  rw [hpart] at hover
  have hdig : (brHmacKeyInit c C key).digVtable = C := rfl
  rw [phashLoop]
  simp only [hdig, htake, htmp, hchain, hover, hnext]
  rcases Nat.lt_or_ge (brDigestSize C) buf.length with hlt | hle
  · have hmin : min (brDigestSize C) buf.length = brDigestSize C := by omega
    rw [hmin, if_neg (by omega), if_neg (by omega)]
    by_cases hzero : brDigestSize C = 0
    · rw [dif_pos hzero, if_pos hzero]
    · rw [dif_neg hzero, if_neg hzero]
  · rw [if_pos (by omega), if_pos hle]

/-- The loop, from the part with the index `i` on. -/
theorem phash_loop_eq (hC : C.Computes Holds n H) (hpos : 0 < brDigestSize C) (c : γ)
    (hkey : key.length < 2 ^ 61) (hm : (label ++ seed.flatten).length + 256 < 2 ^ 61) (l i : ℕ)
    (buf : List UInt8) (hbuf : buf.length ≤ brDigestSize C * (l + 1)) :
    phashLoop c (brHmacKeyInit c C key) label seed
        (Hmac.chain n H key (label ++ seed.flatten) (i + 1)) buf =
      some (List.zipWith (· ^^^ ·) buf
        (Hmac.parts n H key (label ++ seed.flatten) i (l + 1))) := by
  have hlen := length_mac hC key
  induction l generalizing i buf with
  | zero =>
    have hle : buf.length ≤ brDigestSize C := by rwa [Nat.zero_add, Nat.mul_one] at hbuf
    rw [phash_round hC c hkey hm, Hmac.parts_succ, zipWith_append_right, hlen,
      List.drop_of_length_le hle]
    simp only [if_pos hle, List.zipWith_nil_left, List.append_nil]
  | succ l ih =>
    rw [phash_round hC c hkey hm, Hmac.parts_succ, zipWith_append_right, hlen]
    by_cases hle : buf.length ≤ brDigestSize C
    · simp only [if_pos hle, List.drop_of_length_le hle, List.zipWith_nil_left, List.append_nil]
    · have hrest : (buf.drop (brDigestSize C)).length ≤ brDigestSize C * (l + 1) := by
        rw [List.length_drop]
        rw [Nat.mul_succ] at hbuf
        omega
      have hloop := ih (i + 1) (buf.drop (brDigestSize C)) hrest
      simp only [if_neg hle, if_neg (Nat.ne_of_gt hpos)]
      rw [hloop]
      rfl

/-- The code lays `P_hash` over what the destination holds. -/
theorem phash_eq (hC : C.Computes Holds n H) (hpos : 0 < brDigestSize C) (c : γ)
    (hkey : key.length < 2 ^ 61) (label : CString) (dst : List UInt8)
    (hm : (label.bytes ++ seed.flatten).length + 256 < 2 ^ 61) :
    brTlsPhash c dst C key label seed = some (List.zipWith (· ^^^ ·) dst
      (Hmac.expand n H key (brDigestSize C) (label.bytes ++ seed.flatten) dst.length)) := by
  rw [brTlsPhash]
  by_cases hempty : dst.length = 0
  · rw [if_pos hempty, List.eq_nil_of_length_eq_zero hempty]
    rfl
  · have hfirst : hmacPieces c (brHmacKeyInit c C key) (label.bytes :: seed) =
        Hmac.chain n H key (label.bytes ++ seed.flatten) 1 := by
      rw [hmac_pieces_eq hC c hkey, List.flatten_cons]
      · rfl
      · rw [List.flatten_cons]
        omega
    have henough := Hmac.enough_parts hpos dst.length
    obtain ⟨l, hl⟩ : ∃ l, (dst.length + brDigestSize C - 1) / brDigestSize C = l + 1 := by
      refine Nat.exists_eq_succ_of_ne_zero fun hzero => hempty ?_
      rw [hzero, Nat.mul_zero] at henough
      omega
    have hloop := phash_loop_eq hC hpos c hkey hm l 0 dst (by rwa [hl] at henough)
    have hparts : (Hmac.parts n H key (label.bytes ++ seed.flatten) 0 (l + 1)).length =
        brDigestSize C * (l + 1) := Hmac.length_parts hC.size _ 0 (l + 1)
    simp only [if_neg hempty, hfirst, hloop, Hmac.expand, hl]
    generalize Hmac.parts n H key (label.bytes ++ seed.flatten) 0 (l + 1) = ps at hparts ⊢
    have hcut := zipWith_append_right (· ^^^ ·) dst (ps.take dst.length) (ps.drop dst.length)
    rw [List.take_append_drop, List.length_take_of_le (by rwa [hparts, ← hl]), List.drop_length,
      List.zipWith_nil_left, List.append_nil] at hcut
    rw [hcut]

theorem zipWith_zeros (len : ℕ) {xs : List UInt8} (h : xs.length = len) :
    List.zipWith (· ^^^ ·) (List.replicate len 0) xs = xs := by
  subst h
  induction xs with
  | nil => rfl
  | cons x xs ih =>
    rw [List.length_cons, List.replicate_succ, List.zipWith_cons_cons, ih, UInt8.zero_xor]

theorem prf_of_computes (hC : C.Computes Holds n H) (hpos : 0 < brDigestSize C) (c : γ)
    (hkey : key.length < 2 ^ 61) (label : CString) (len : ℕ)
    (hm : (label.bytes ++ seed.flatten).length + 256 < 2 ^ 61) :
    brTlsPhash c (List.replicate len 0) C key label seed =
      some (Hmac.expand n H key (brDigestSize C) (label.bytes ++ seed.flatten) len) := by
  rw [phash_eq hC hpos c hkey label _ hm, List.length_replicate,
    zipWith_zeros len (Hmac.length_expand hC.size hpos _ _)]

end Phash

section Functions

variable (stack : Mem) (len : ℕ) {secret : List UInt8} (label : CString) {seed : List (List UInt8)}

theorem sha256_prf (c : Sha2Context 32) (hsecret : secret.length < 2 ^ 61)
    (hm : (label.bytes ++ seed.flatten).length + 256 < 2 ^ 61) :
    brTls12Sha256Prf stack c len secret label seed =
      some (Hmac.expand 64 sha256 secret 32 (label.bytes ++ seed.flatten) len) := by
  have hsize : brDigestSize (brSha256Vtable stack) = 32 := by
    simp only [brDigestSize, brSha256Vtable]
    decide
  have hprf := prf_of_computes (sha256_computes stack) (by rw [hsize]; decide) c hsecret label len hm
  rwa [hsize] at hprf

theorem sha384_prf (d : Sha2Context 64) (hsecret : secret.length < 2 ^ 61)
    (hm : (label.bytes ++ seed.flatten).length + 256 < 2 ^ 61) :
    brTls12Sha384Prf stack d len secret label seed =
      some (Hmac.expand 128 sha384 secret 48 (label.bytes ++ seed.flatten) len) := by
  have hsize : brDigestSize (brSha384Vtable stack) = 48 := by
    simp only [brDigestSize, brSha384Vtable]
    decide
  have hprf := prf_of_computes (sha384_computes stack) (by rw [hsize]; decide) d hsecret label len hm
  rwa [hsize] at hprf

end Functions

/-- Both functions of TLS 1.2 return, with as many bytes of `P_hash` as are asked for. -/
theorem tls12_prf (stack : Mem) (c : Sha2Context 32) (d : Sha2Context 64) (len : ℕ)
    (secret : List UInt8) (hsecret : secret.length < 2 ^ 61) (label : CString)
    (seed : List (List UInt8)) (hm : (label.bytes ++ seed.flatten).length + 256 < 2 ^ 61) :
    brTls12Sha256Prf stack c len secret label seed =
        some (Hmac.expand 64 sha256 secret 32 (label.bytes ++ seed.flatten) len) ∧
      brTls12Sha384Prf stack d len secret label seed =
        some (Hmac.expand 128 sha384 secret 48 (label.bytes ++ seed.flatten) len) :=
  ⟨sha256_prf stack len label c hsecret hm, sha384_prf stack len label d hsecret hm⟩

theorem tls12_prf_sample :
    ([1, 2, 3] : List UInt8).length < 2 ^ 61 ∧
      brTls12Sha256Prf (fun _ => 7) ⟨fun _ => 9, 5, .ofList brSha224IV⟩ 100 [1, 2, 3]
          ⟨[107, 101, 121], by decide, by decide⟩ [[4], [5, 6]] =
        some (Hmac.expand 64 sha256 [1, 2, 3] 32 [107, 101, 121, 4, 5, 6] 100) :=
  ⟨by decide, (tls12_prf (fun _ => 7) ⟨fun _ => 9, 5, .ofList brSha224IV⟩
    ⟨fun _ => 0, 0, .ofList IV512⟩ 100 [1, 2, 3] (by decide) ⟨[107, 101, 121], by decide, by decide⟩
    [[4], [5, 6]] (by decide)).1⟩

end BearTLS
