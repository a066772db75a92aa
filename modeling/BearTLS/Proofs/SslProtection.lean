import BearTLS.Proofs.SslEndpoint
import BearTLS.Spec.SslProtection

/-! AES-GCM and ChaCha20+Poly1305 records: the code works in its buffers as the functions on
byte strings say, and each decryption undoes the encryption with the same keys, at every
sequence number. -/

namespace BearTLS

open Memory

section Bytes

variable {xs ys : List UInt8} (ks : ℕ → UInt8)

theorem xor_eq_zero_iff (x y : UInt8) : x ^^^ y = 0 ↔ x = y := by
  constructor
  · intro h
    calc x = x ^^^ y ^^^ y := by rw [UInt8.xor_assoc, UInt8.xor_self, UInt8.xor_zero]
      _ = y := by rw [h, UInt8.zero_xor]
  · rintro rfl
    exact UInt8.xor_self

theorem or_eq_zero_iff (x y : UInt8) : x ||| y = 0 ↔ x = 0 ∧ y = 0 := by
  rw [← UInt8.toNat_inj, ← UInt8.toNat_inj, ← UInt8.toNat_inj, UInt8.toNat_or]
  exact Nat.or_eq_zero_iff

theorem fold_or_eq_zero (bs : List UInt8) (b : UInt8) :
    bs.foldl (· ||| ·) b = 0 ↔ b = 0 ∧ ∀ x ∈ bs, x = 0 := by
  induction bs generalizing b with
  | nil => simp
  | cons x bs ih =>
    rw [List.foldl_cons, ih, or_eq_zero_iff, List.forall_mem_cons, and_assoc]

/-- The accumulated differences say whether the tags are equal. -/
theorem tag_differs_iff (h : xs.length = ys.length) : tagDiffers xs ys = true ↔ xs ≠ ys := by
  have hzero : (∀ x ∈ List.zipWith (· ^^^ ·) xs ys, x = 0) ↔ xs = ys := by
    induction xs generalizing ys with
    | nil =>
      obtain rfl := List.eq_nil_of_length_eq_zero h.symm
      simp
    | cons x xs ih =>
      cases ys with
      | nil => cases h
      | cons y ys =>
        rw [List.zipWith_cons_cons, List.forall_mem_cons, xor_eq_zero_iff,
          ih (Nat.succ.inj h), List.cons.injEq]
  simp only [tagDiffers, decide_eq_true_eq, ne_eq, fold_or_eq_zero, hzero, true_and]

@[simp] theorem length_underStream (data : List UInt8) :
    (underStream ks data).length = data.length := by
  simp [underStream]

/-- A key stream undoes itself. -/
theorem under_stream_twice (data : List UInt8) : underStream ks (underStream ks data) = data := by
  apply List.ext_getElem (by simp)
  intro i h₁ h₂
  simp only [underStream, List.getElem_mapIdx, UInt8.xor_assoc, UInt8.xor_self, UInt8.xor_zero]

/-- The mask of a tag is the tag under the same key stream. -/
theorem mask_eq (tag : List UInt8) :
    List.zipWith (· ^^^ ·) tag (underStream ks (List.replicate tag.length 0)) =
      underStream ks tag := by
  apply List.ext_getElem (by simp)
  intro i h₁ h₂
  simp only [underStream, List.getElem_zipWith, List.getElem_mapIdx, List.getElem_replicate,
    UInt8.zero_xor]

end Bytes

section Buffers

variable (m : Mem) {d : ℕ} (type : UInt8)

theorem length_brEnc64be (x : UInt64) : (brEnc64be x).length = 8 := rfl

/-- The header in front of a body. -/
theorem store_header (h : 5 ≤ d) (body : List UInt8) :
    brEnc16be (brEnc16be (store (store m d body) (d - 5) [type]) (d - 5 + 1) BR_TLS12) (d - 5 + 3)
      body.length.toUInt16 = store m (d - 5) (recordWire type body) := by
  have hone : store (store (store m d body) (d - 5) [type]) (d - 5 + 1)
      [(BR_TLS12 >>> 8).toUInt8, BR_TLS12.toUInt8] =
        store (store m d body) (d - 5) ([type] ++ [3, 3]) := store_append _ _ [type] _
  simp only [brEnc16be, hone]
  have htwo : ∀ ys, store (store (store m d body) (d - 5) ([type] ++ [3, 3])) (d - 5 + 3) ys =
      store (store m d body) (d - 5) ([type] ++ [3, 3] ++ ys) :=
    fun ys => store_append _ _ ([type] ++ [3, 3]) ys
  have hlen : d - 5 + (recordHeader type body.length).length = d := by
    simp only [recordHeader, List.length_cons, List.length_nil]
    omega
  rw [htwo]
  exact store_prepend m d (d - 5) body (recordHeader type body.length) hlen

end Buffers

section Gcm

variable {cc : GcmContext} {type : UInt8} {pt : List UInt8}

/-- The parts of a body. -/
theorem body_parts {nonce tag : List UInt8} (text : List UInt8) (hn : nonce.length = 8) (ht : tag.length = 16) :
    (nonce ++ text ++ tag).take 8 = nonce ∧
      ((nonce ++ text ++ tag).drop 8).take ((nonce ++ text ++ tag).length - 24) = text ∧
      (nonce ++ text ++ tag).drop ((nonce ++ text ++ tag).length - 16) = tag := by
  have hlen : (nonce ++ text ++ tag).length = 8 + text.length + 16 := by
    rw [List.length_append, List.length_append, hn, ht]
  refine ⟨?_, ?_, ?_⟩
  · rw [List.append_assoc, List.take_left' hn]
  · rw [hlen, List.append_assoc, List.drop_left' hn, List.take_left' (by omega)]
  · rw [hlen, Nat.add_sub_cancel, List.drop_left' (by rw [List.length_append, hn])]

theorem tag_mask (ks : ℕ → UInt8) (tag : List.Vector UInt8 16) :
    List.zipWith (· ^^^ ·) tag.toList (underStream ks (List.replicate 16 0)) =
      underStream ks tag.toList := by
  have hmask := mask_eq ks tag.toList
  rwa [tag.toList_length] at hmask

/-- The body of a record: the nonce, the text and the masked tag. -/
theorem gcm_encode_eq (cc : GcmContext) (type : UInt8) (pt : List UInt8) :
    ∃ text tag, (doCtr cc (brEnc64be cc.seq) pt (List.replicate 16 0)).1 = text ∧
      (doTag cc type BR_TLS12 text).2 = tag ∧
      text.length = pt.length ∧
      gcmProtection.encode cc type pt = ((doTag cc type BR_TLS12 text).1, brEnc64be cc.seq ++ text ++
        (doCtr cc (brEnc64be cc.seq) text tag.toList).2) := by
  refine ⟨_, _, rfl, rfl, length_underStream _ _, ?_⟩
  simp only [gcmProtection, doCtr, tag_mask]

theorem length_gcm_encode (cc : GcmContext) (type : UInt8) (pt : List UInt8) :
    (gcmProtection.encode cc type pt).2.length = 8 + pt.length + 16 := by
  obtain ⟨text, tag, -, -, hlen, henc⟩ := gcm_encode_eq cc type pt
  simp only [henc, doCtr, List.length_append, length_underStream, length_brEnc64be, hlen,
    List.Vector.toList_length]

/-- An end seals under its own sequence number. -/
theorem gcm_encode_seal (cc : GcmContext) (type : UInt8) (pt : List UInt8) :
    (gcmProtection.encode cc type pt).2 = gcmSeal cc (brEnc64be cc.seq) type pt := by
  obtain ⟨text, tag, htext, htag, -, henc⟩ := gcm_encode_eq cc type pt
  have hsame : (doCtr cc (brEnc64be cc.seq) pt []).1 = text := htext
  rw [henc, gcmSeal, hsame, htag]
  rfl

theorem take_gcmSeal (cc : GcmContext) {nonce : List UInt8} (type : UInt8) (pt : List UInt8)
    (hnonce : nonce.length = 8) : (gcmSeal cc nonce type pt).take 8 = nonce := by
  simp only [gcmSeal, List.append_assoc]
  exact List.take_left' hnonce

/-- A body is let through exactly where it is sealed. -/
theorem gcm_decode_iff (cc : GcmContext) (type : UInt8) {body : List UInt8} (pt : List UInt8)
    (hlen : 24 ≤ body.length) :
    (gcmProtection.decode cc type body).2 = some pt ↔
      gcmSeal cc (body.take 8) type pt = body := by
  obtain ⟨nonce, text, tag, rfl, hnonce, htag⟩ : ∃ nonce text tag : List UInt8,
      body = nonce ++ text ++ tag ∧ nonce.length = 8 ∧ tag.length = 16 := by
    refine ⟨body.take 8, (body.drop 8).take (body.length - 24), body.drop (body.length - 16),
      ?_, List.length_take_of_le (by omega), by rw [List.length_drop]; omega⟩
    have hsplit : body.drop (body.length - 16) = (body.drop 8).drop (body.length - 24) := by
      rw [List.drop_drop]
      congr 1
      omega
    rw [hsplit, List.append_assoc, List.take_append_drop, List.take_append_drop]
  obtain ⟨htake, hmid, hbehind⟩ := body_parts text hnonce htag
  simp only [gcmProtection, gcmSeal, htake, hmid, hbehind, doCtr]
  generalize cc.keystream (cc.iv.take 4 ++ nonce) 2 = ks
  generalize cc.keystream (cc.iv.take 4 ++ nonce) 1 = ks'
  constructor
  · intro h
    split_ifs at h with hsame
    · obtain rfl := Option.some.inj h
      rw [under_stream_twice, hsame]
  · intro h
    have hmask : (underStream ks' (doTag cc type BR_TLS12 (underStream ks pt)).2.toList).length =
        tag.length := by
      rw [length_underStream, List.Vector.toList_length, htag]
    obtain ⟨hfront, hback⟩ := List.append_inj' h hmask
    have htext := List.append_cancel_left hfront
    rw [htext] at hback
    rw [if_pos hback, ← htext, under_stream_twice]

/-- Two contexts with the same keys and the same sequence number. -/
theorem gcm_matched {maxLen : ℕ} (hmax : maxLen ≤ 16384) :
    gcmProtection.Matched maxLen (fun c d : GcmContext => c = d) where
  decode c d type pt hcd hpt := by
    subst hcd
    have hlen := length_gcm_encode c type pt
    have hopen : (gcmProtection.decode c type (gcmProtection.encode c type pt).2).2 = some pt := by
      rw [gcm_decode_iff c type pt (by omega), gcm_encode_seal,
        take_gcmSeal c type pt (length_brEnc64be c.seq)]
    exact ⟨{ c with seq := c.seq + 1 }, Prod.ext rfl hopen, rfl⟩
  lengthOk c d type pt hcd hpt := by
    have hlen := length_gcm_encode c type pt
    show gcmCheckLength _ = true
    rw [hlen, gcmCheckLength, decide_eq_true_eq]
    omega

/-- Three blocks, one behind another. -/
theorem store_three (m : Mem) (p : ℕ) (xs ys zs : List UInt8) :
    store (store (store m p xs) (p + xs.length) ys) (p + xs.length + ys.length) zs =
      store m p (xs ++ ys ++ zs) := by
  rw [store_append, store_append, List.append_assoc]

theorem gcm_encrypt_eq (c : GcmContext) (t : UInt8) (m : Mem) {data len : ℕ} (hdata : 13 ≤ data) :
    gcmEncrypt c t BR_TLS12 m data len =
      ((gcmProtection.encode c t (load m data len)).1,
        store m (data - 13) (recordWire t (gcmProtection.encode c t (load m data len)).2),
        data - 13, (gcmProtection.encode c t (load m data len)).2.length + 5) := by
  obtain ⟨text, tag, htext, htag, hlen, henc⟩ := gcm_encode_eq c t (load m data len)
  rw [length_load] at hlen
  have hbody := length_gcm_encode c t (load m data len)
  rw [length_load] at hbody
  have hmask : List.zipWith (· ^^^ ·) tag.toList
      (doCtr c (brEnc64be c.seq) (load m data len) (List.replicate 16 0)).2 =
        (doCtr c (brEnc64be c.seq) text tag.toList).2 := tag_mask _ tag
  generalize hmasked : (doCtr c (brEnc64be c.seq) text tag.toList).2 = masked at henc hmask
  have hmlen : masked.length = 16 := by
    rw [← hmasked]
    simp only [doCtr, length_underStream, List.Vector.toList_length]
  have hnonce : load (store m (data - 8) (brEnc64be c.seq)) (data - 8) 8 = brEnc64be c.seq :=
    load_store_same m (data - 8) (brEnc64be c.seq)
  have hpt : load (store m (data - 8) (brEnc64be c.seq)) data len = load m data len :=
    load_store_disjoint _ _ _ _ _ (.inr (by rw [length_brEnc64be]; omega))
  have hsealed : load (store (store m (data - 8) (brEnc64be c.seq)) data text) data len = text := by
    rw [← hlen]
    exact load_store_same _ _ _
  have htagged : ∀ m' : Mem, load (store m' (data + len) tag.toList) (data + len) 16 = tag.toList := by
    intro m'
    have hsame := load_store_same m' (data + len) tag.toList
    rwa [tag.toList_length] at hsame
  have hover : ∀ m' : Mem, store (store m' (data + len) tag.toList) (data + len) masked =
      store m' (data + len) masked := by
    intro m'
    exact store_overwrite _ _ _ _ (by rw [hmlen, tag.toList_length])
  have hthree : store (store (store m (data - 8) (brEnc64be c.seq)) data text) (data + len) masked =
      store m (data - 8) (gcmProtection.encode c t (load m data len)).2 := by
    have hat : data - 8 + (brEnc64be c.seq).length = data := by
      rw [length_brEnc64be]
      omega
    have hjoin := store_three m (data - 8) (brEnc64be c.seq) text masked
    rw [hat, hlen] at hjoin
    rw [henc]
    exact hjoin
  have hlen24 : (gcmProtection.encode c t (load m data len)).2.length = len + 24 := by omega
  have hheader := store_header m t (show 5 ≤ data - 8 by omega)
    (gcmProtection.encode c t (load m data len)).2
  rw [show data - 8 - 5 = data - 13 by omega, hlen24] at hheader
  simp only [gcmEncrypt, hnonce, hpt, htext, hsealed, htag, htagged, hmask, hover, hthree]
  rw [hheader, hlen24, henc]

/-- A decryption in place is that of the bytes that stand there, and changes only the text. -/
theorem gcm_decrypt_eq (c : GcmContext) (t : UInt8) (m : Mem) {data len : ℕ} (hlen : 24 ≤ len) :
    ∃ plain, plain.length + 8 + 16 = len ∧
      gcmDecrypt c t BR_TLS12 m data len =
        ((gcmProtection.decode c t (load m data len)).1, store m (data + 8) plain,
          (gcmProtection.decode c t (load m data len)).2.map fun _ => (data + 8, plain.length)) ∧
      ∀ pt, (gcmProtection.decode c t (load m data len)).2 = some pt → pt = plain := by
  obtain ⟨k, rfl⟩ : ∃ k, len = 8 + k + 16 := ⟨len - 24, by omega⟩
  have hk : 8 + k + 16 - 24 = k := by omega
  obtain ⟨hnonce, htext, hbehind⟩ := body_parts (load m (data + 8) k)
    (length_load m data 8) (length_load m (data + (8 + k)) 16)
  rw [← load_add, ← load_add, length_load, hk] at htext
  rw [← load_add, ← load_add] at hnonce hbehind
  rw [length_load] at hbehind
  generalize htag : (doTag c t BR_TLS12 (load m (data + 8) k)).2 = tag
  obtain ⟨plain, mask, hctr⟩ : ∃ plain mask,
      doCtr c (load m data 8) (load m (data + 8) k) tag.toList = (plain, mask) := ⟨_, _, rfl⟩
  have hplain : plain.length = k ∧ mask.length = 16 := by
    simp only [doCtr, Prod.mk.injEq] at hctr
    obtain ⟨rfl, rfl⟩ := hctr
    simp
  have hdiff : tagDiffers mask (load m (data + (8 + k)) 16) = true ↔ _ :=
    tag_differs_iff (by rw [hplain.2, length_load])
  have hstored : load (store m (data + 8) plain) (data + 8 + k) 16 = load m (data + (8 + k)) 16 := by
    rw [load_store_disjoint _ _ _ _ _ (.inr (by omega)), Nat.add_assoc]
  have hdecode : gcmProtection.decode c t (load m data (8 + k + 16)) =
      ((doTag c t BR_TLS12 (load m (data + 8) k)).1,
        if mask = load m (data + (8 + k)) 16 then some plain else none) := by
    simp only [gcmProtection, length_load, hk, hnonce, htext, hbehind, htag, hctr]
  refine ⟨plain, by omega, ?_, ?_⟩
  · simp only [gcmDecrypt, hk, htag, hctr, hstored, hdecode]
    by_cases hsame : mask = load m (data + (8 + k)) 16
    · rw [if_neg fun hc => hdiff.mp hc hsame, if_pos hsame, hplain.1]
      rfl
    · rw [if_pos (hdiff.mpr hsame), if_neg hsame]
      rfl
  · intro pt hpt
    rw [hdecode] at hpt
    split_ifs at hpt with hsame
    · exact (Option.some.inj hpt).symm

theorem gcm_implements : gcmProtection.Implements gcmIn gcmOut where
  maxPlaintext c start stop := by
    show gcmMaxPlaintext start stop = _
    simp only [gcmMaxPlaintext, gcmProtection]
    congr 1
    split_ifs <;> omega
  length_encode := length_gcm_encode
  encrypt c t m data len hdata := gcm_encrypt_eq c t m hdata
  checkLength := rfl
  decrypt c t m data len hok := by
    have hbounds : 24 ≤ len ∧ len ≤ 16384 + 24 := by
      simpa [gcmProtection, gcmCheckLength] using hok
    exact gcm_decrypt_eq c t m hbounds.1

end Gcm

section ChaPol

theorem length_chapol_encode (cc : ChapolContext) (type : UInt8) (pt : List UInt8) :
    (chapolProtection.encode cc type pt).2.length = 0 + pt.length + 16 := by
  simp [chapolProtection, genChapolProcess, ipoly]

/-- The text and the tag of a body. -/
theorem text_tag {tag : List UInt8} (text : List UInt8) (ht : tag.length = 16) :
    (text ++ tag).take ((text ++ tag).length - 16) = text ∧
      (text ++ tag).drop ((text ++ tag).length - 16) = tag := by
  have hlen : (text ++ tag).length - 16 = text.length := by
    rw [List.length_append, ht, Nat.add_sub_cancel]
  rw [hlen]
  exact ⟨List.take_left, List.drop_left⟩

/-- Two contexts with the same keys and the same sequence number. -/
theorem chapol_matched {maxLen : ℕ} (hmax : maxLen ≤ 16384) :
    chapolProtection.Matched maxLen (fun c d : ChapolContext => c = d) where
  decode c d type pt hcd hpt := by
    subst hcd
    refine ⟨(chapolProtection.encode c type pt).1, ?_, rfl⟩
    simp only [chapolProtection, genChapolProcess, ipoly, if_true, Bool.false_eq_true, if_false]
    generalize hnonce : c.iv.toList.take 4 ++
      List.zipWith (· ^^^ ·) (c.iv.toList.drop 4) (brEnc64be c.seq) = nonce
    have htext : ∀ tag : List.Vector UInt8 16,
        (underStream (c.chacha nonce 1) pt ++ tag.toList).take
          ((underStream (c.chacha nonce 1) pt ++ tag.toList).length - 16) =
            underStream (c.chacha nonce 1) pt := fun tag => (text_tag _ tag.toList_length).1
    have htag : ∀ tag : List.Vector UInt8 16,
        (underStream (c.chacha nonce 1) pt ++ tag.toList).drop
          ((underStream (c.chacha nonce 1) pt ++ tag.toList).length - 16) = tag.toList :=
      fun tag => (text_tag _ tag.toList_length).2
    simp only [htext, htag, length_underStream, under_stream_twice, if_true]
  lengthOk c d type pt hcd hpt := by
    have hlen := length_chapol_encode c type pt
    show chapolCheckLength _ = true
    rw [hlen, chapolCheckLength, decide_eq_true_eq]
    omega

theorem chapol_decode_iff (cc : ChapolContext) (type : UInt8) {body : List UInt8}
    (pt : List UInt8) (hlen : 16 ≤ body.length) :
    (chapolProtection.decode cc type body).2 = some pt ↔
      (chapolProtection.encode cc type pt).2 = body := by
  obtain ⟨text, tag, rfl, htag⟩ : ∃ text tag : List UInt8,
      body = text ++ tag ∧ tag.length = 16 := by
    refine ⟨body.take (body.length - 16), body.drop (body.length - 16),
      (List.take_append_drop _ _).symm, by rw [List.length_drop]; omega⟩
  obtain ⟨htext, hbehind⟩ := text_tag text htag
  simp only [chapolProtection, genChapolProcess, ipoly, htext, hbehind, if_true,
    Bool.false_eq_true, if_false]
  generalize cc.iv.toList.take 4 ++
    List.zipWith (· ^^^ ·) (cc.iv.toList.drop 4) (brEnc64be cc.seq) = nonce
  constructor
  · intro h
    split_ifs at h with hsame
    · obtain rfl := Option.some.inj h
      rw [under_stream_twice, length_underStream, hsame]
  · intro h
    obtain ⟨hfront, hback⟩ := List.append_inj' h (by rw [List.Vector.toList_length, htag])
    rw [hfront] at hback
    have hsame : pt.length = text.length := by rw [← hfront, length_underStream]
    rw [hsame] at hback
    rw [if_pos hback, ← hfront, under_stream_twice]

theorem chapol_encrypt_eq (c : ChapolContext) (t : UInt8) (m : Mem) {data len : ℕ}
    (hdata : 5 ≤ data) :
    chapolEncrypt c t BR_TLS12 m data len =
      ((chapolProtection.encode c t (load m data len)).1,
        store m (data - 5) (recordWire t (chapolProtection.encode c t (load m data len)).2),
        data - 5, (chapolProtection.encode c t (load m data len)).2.length + 5) := by
  have hbody := length_chapol_encode c t (load m data len)
  rw [length_load, Nat.zero_add] at hbody
  obtain ⟨text, tag, hproc, hlen⟩ : ∃ text tag,
      genChapolProcess c t BR_TLS12 (load m data len) true =
        ({ c with seq := c.seq + 1 }, text, tag) ∧ text.length = len :=
    ⟨_, _, rfl, by rw [length_underStream, length_load]⟩
  have henc : chapolProtection.encode c t (load m data len) =
      ({ c with seq := c.seq + 1 }, text ++ tag.toList) := by
    simp only [chapolProtection, hproc]
  have htwo : store (store m data text) (data + len) tag.toList =
      store m data (chapolProtection.encode c t (load m data len)).2 := by
    rw [henc, ← hlen, store_append]
  have hheader := store_header m t hdata (chapolProtection.encode c t (load m data len)).2
  rw [hbody] at hheader
  simp only [chapolEncrypt, hproc, htwo]
  rw [hheader, hbody, henc]

/-- A decryption in place is that of the bytes that stand there, and changes only the text. -/
theorem chapol_decrypt_eq (c : ChapolContext) (t : UInt8) (m : Mem) {data len : ℕ}
    (hlen : 16 ≤ len) :
    ∃ plain, plain.length + 0 + 16 = len ∧
      chapolDecrypt c t BR_TLS12 m data len =
        ((chapolProtection.decode c t (load m data len)).1, store m (data + 0) plain,
          (chapolProtection.decode c t (load m data len)).2.map fun _ =>
            (data + 0, plain.length)) ∧
      ∀ pt, (chapolProtection.decode c t (load m data len)).2 = some pt → pt = plain := by
  obtain ⟨k, rfl⟩ : ∃ k, len = k + 16 := ⟨len - 16, by omega⟩
  have hk : k + 16 - 16 = k := by omega
  obtain ⟨htext, hbehind⟩ := text_tag (load m data k) (length_load m (data + k) 16)
  rw [← load_add, length_load, hk] at htext hbehind
  obtain ⟨plain, tag, hproc, hplain⟩ : ∃ plain tag,
      genChapolProcess c t BR_TLS12 (load m data k) false =
        ({ c with seq := c.seq + 1 }, plain, tag) ∧ plain.length = k :=
    ⟨_, _, rfl, by rw [length_underStream, length_load]⟩
  have hdiff : tagDiffers tag.toList (load m (data + k) 16) = true ↔ _ :=
    tag_differs_iff (by rw [tag.toList_length, length_load])
  have hstored : load (store m data plain) (data + k) 16 = load m (data + k) 16 :=
    load_store_disjoint _ _ _ _ _ (.inr (by omega))
  have hdecode : chapolProtection.decode c t (load m data (k + 16)) =
      ({ c with seq := c.seq + 1 },
        if tag.toList = load m (data + k) 16 then some plain else none) := by
    simp only [chapolProtection, length_load, hk, htext, hbehind, hproc]
  refine ⟨plain, by omega, ?_, ?_⟩
  · simp only [chapolDecrypt, hk, hproc, hstored, hdecode, Nat.add_zero]
    by_cases hsame : tag.toList = load m (data + k) 16
    · rw [if_neg fun hc => hdiff.mp hc hsame, if_pos hsame, hplain]
      rfl
    · rw [if_pos (hdiff.mpr hsame), if_neg hsame]
      rfl
  · intro pt hpt
    rw [hdecode] at hpt
    split_ifs at hpt with hsame
    · exact (Option.some.inj hpt).symm

theorem chapol_implements : chapolProtection.Implements chapolIn chapolOut where
  maxPlaintext c start stop := by
    show chapolMaxPlaintext start stop = _
    simp only [chapolMaxPlaintext, chapolProtection, Nat.add_zero]
    congr 1
    split_ifs <;> omega
  length_encode := length_chapol_encode
  encrypt c t m data len hdata := chapol_encrypt_eq c t m hdata
  checkLength := rfl
  decrypt c t m data len hok := by
    have hbounds : 16 ≤ len ∧ len ≤ 16384 + 16 := by
      simpa [chapolProtection, chapolCheckLength] using hok
    exact chapol_decrypt_eq c t m hbounds.1

end ChaPol

end BearTLS
