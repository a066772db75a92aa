import BearTLS.Spec.CertStore

/-! The scanners of the trust store: the marker count, and the base64 decoder with
its 32-bit accumulator. -/

namespace BearTLS

open Base64 Radix Search

theorem find_text_eq {text needle : List UInt8} (h : needle ≠ []) :
    wmCertStoreFindText text needle = find needle text := by
  rw [wmCertStoreFindText, if_neg (by simpa using h)]

theorem beginMarker_ne : beginMarker ≠ [] := by decide

theorem endMarker_ne : endMarker ≠ [] := by decide

theorem count_loop_eq (p : List UInt8) (n : ℕ) (hn : n < WM_MAX_EXTERNAL_ROOT_COUNT) :
    wmCertStoreCountLoop p n = min (n + count beginMarker p) WM_MAX_EXTERNAL_ROOT_COUNT := by
  induction hlen : p.length using Nat.strong_induction_on generalizing p n with
  | _ k ih =>
  subst hlen
  rw [wmCertStoreCountLoop]
  split
  · rename_i h
    rw [find_text_eq beginMarker_ne] at h
    rw [count_none h]
    omega
  · rename_i q h
    rw [find_text_eq beginMarker_ne] at h
    rw [count_some beginMarker_ne h]
    split_ifs with hcap
    · omega
    · rw [ih _ (find_after_length beginMarker_ne h) _ _ (by omega) rfl]
      omega

theorem count_pem_certs_eq (text : List UInt8) :
    wmCertStoreCountPemCerts text = min (count beginMarker text) WM_MAX_EXTERNAL_ROOT_COUNT := by
  rw [wmCertStoreCountPemCerts, count_loop_eq text 0 (by decide), Nat.zero_add]

section Decode

theorem b64_value_lt {c : UInt8} {v : ℕ} (h : wmCertStoreB64Value c = some v) : v < 64 := by
  unfold wmCertStoreB64Value at h
  simp only [UInt8.le_iff_toNat_le] at h
  split_ifs at h with h₁ h₂ h₃ h₄ h₅
  · obtain rfl := Option.some.inj h
    exact Nat.lt_of_le_of_lt (Nat.sub_le_sub_right h₁.2 65) (by decide)
  · obtain rfl := Option.some.inj h
    exact Nat.lt_of_le_of_lt (Nat.add_le_add_right (Nat.sub_le_sub_right h₂.2 97) 26) (by decide)
  · obtain rfl := Option.some.inj h
    exact Nat.lt_of_le_of_lt (Nat.add_le_add_right (Nat.sub_le_sub_right h₃.2 48) 52) (by decide)
  · obtain rfl := Option.some.inj h
    decide
  · obtain rfl := Option.some.inj h
    decide

/-- The loop, from any prefix on: `vs` are the values read so far. -/
theorem decode_loop_eq (outCap : ℕ) (text : List UInt8) (vs : List ℕ) {acc : UInt32}
    (hacc : acc.toNat = value 64 vs % 2 ^ 32) (hcap : (bytes vs).length ≤ outCap) :
    wmCertStoreDecodeLoop outCap text acc (6 * vs.length % 8) (bytes vs) =
      let all := bytes (vs ++ text.filterMap wmCertStoreB64Value)
      if all.length ≤ outCap then ⟨all, all.length⟩ else ⟨all.take outCap, 0⟩ := by
  induction text generalizing vs acc with
  | nil => simp only [wmCertStoreDecodeLoop, List.filterMap_nil, List.append_nil, if_pos hcap]
  | cons c rest ih =>
    rw [wmCertStoreDecodeLoop]
    by_cases heq : c = 61
    · rw [if_pos heq, ih vs hacc hcap, heq]
      rfl
    rw [if_neg heq]
    cases hv : wmCertStoreB64Value c with
    | none =>
      dsimp only
      rw [ih vs hacc hcap, List.filterMap_cons_none hv]
    | some v =>
      have hlt := b64_value_lt hv
      have hws : ∀ w ∈ rest.filterMap wmCertStoreB64Value, w < 64 := by
        intro w hw
        obtain ⟨c', -, hc'⟩ := List.mem_filterMap.mp hw
        exact b64_value_lt hc'
      have hacc' := acc_snoc hlt hacc
      have hall : vs ++ (c :: rest).filterMap wmCertStoreB64Value =
          vs ++ [v] ++ rest.filterMap wmCertStoreB64Value := by
        rw [List.filterMap_cons_some hv, List.append_assoc, List.singleton_append]
      dsimp only
      rw [hall]
      by_cases hbits : 6 * vs.length % 8 + 6 ≥ 8
      · obtain ⟨hrest, hstep⟩ := step_emit hlt hbits hacc'
        rw [if_pos hbits, ← hstep, hrest]
        by_cases hfull : (bytes vs).length ≥ outCap
        · -- the byte that does not fit
          obtain ⟨tail, htail⟩ := bytes_prefix_append (vs ++ [v]) hws
          rw [hstep, List.append_assoc] at htail
          have hlong := congrArg List.length htail
          simp only [List.length_append, List.length_singleton] at hlong
          rw [if_pos hfull, if_neg (by omega), ← htail, List.take_append_of_le_length hfull,
            List.take_of_length_le hcap]
        · have hroom : (bytes (vs ++ [v])).length ≤ outCap := by
            rw [hstep, List.length_append, List.length_singleton]
            omega
          rw [if_neg hfull, ih (vs ++ [v]) hacc' hroom]
      · obtain ⟨hrest, hstep⟩ := step_keep hlt (Nat.not_le.mp hbits)
        rw [if_neg hbits, hrest, ← hstep, ih (vs ++ [v]) hacc' (hstep ▸ hcap)]

theorem decode_b64_eq (text : List UInt8) (outCap : ℕ) :
    wmCertStoreDecodeB64 text outCap =
      let all := bytes (text.filterMap wmCertStoreB64Value)
      if all.length ≤ outCap then ⟨all, all.length⟩ else ⟨all.take outCap, 0⟩ :=
  decode_loop_eq outCap text [] rfl (Nat.zero_le _)

theorem b64_value_char {v : ℕ} (hv : v < 64) : wmCertStoreB64Value (char v) = some v := by
  have hall : ∀ v < 64, wmCertStoreB64Value (char v) = some v := by decide
  exact hall v hv

/-- The values of an unbroken standard text. -/
theorem b64_values_text {vs : List ℕ} (h : ∀ v ∈ vs, v < 64) (n : ℕ) :
    (vs.map char ++ List.replicate n 61).filterMap wmCertStoreB64Value = vs := by
  have hpad : (List.replicate n (61 : UInt8)).filterMap wmCertStoreB64Value = [] := by
    rw [List.filterMap_eq_nil_iff]
    intro c hc
    rw [List.eq_of_mem_replicate hc]
    decide
  rw [List.filterMap_append, hpad, List.append_nil]
  induction vs with
  | nil => rfl
  | cons v vs ih =>
    rw [List.map_cons, List.filterMap_cons_some (b64_value_char (h v List.mem_cons_self)),
      ih fun w hw => h w (List.mem_cons_of_mem _ hw)]

theorem b64_values_encode (bs : List UInt8) :
    (encode bs).filterMap wmCertStoreB64Value = sextets bs :=
  b64_values_text (sextets_lt bs) _

/-- The standard text of `der`, with line breaks and spaces anywhere. -/
theorem decode_b64_encode {text der : List UInt8} {outCap : ℕ}
    (h : text.filter (fun c => !isBreak c) = encode der) (hcap : der.length ≤ outCap) :
    wmCertStoreDecodeB64 text outCap = ⟨der, der.length⟩ := by
  have hskip : ∀ t : List UInt8, t.filterMap wmCertStoreB64Value =
      (t.filter fun c => !isBreak c).filterMap wmCertStoreB64Value := by
    intro t
    induction t with
    | nil => rfl
    | cons c t ih =>
      by_cases hc : isBreak c = true
      · have hnone : wmCertStoreB64Value c = none := by
          simp only [isBreak, Bool.or_eq_true, decide_eq_true_eq] at hc
          rcases hc with (rfl | rfl) | rfl <;> decide
        rw [List.filter_cons_of_neg (by simp [hc]), List.filterMap_cons_none hnone, ih]
      · rw [List.filter_cons_of_pos (by simpa using hc), List.filterMap_cons,
          List.filterMap_cons, ih]
  rw [decode_b64_eq, hskip, h, b64_values_encode, bytes_sextets]
  dsimp only
  rw [if_pos hcap]

/-- Neither a dash nor a break is a character of the text. -/
theorem encode_chars {bs : List UInt8} {c : UInt8} (h : c ∈ encode bs) :
    c ≠ 45 ∧ isBreak c = false := by
  rcases List.mem_append.mp h with h | h
  · obtain ⟨v, hv, rfl⟩ := List.mem_map.mp h
    have hall : ∀ v < 64, char v ≠ 45 ∧ isBreak (char v) = false := by decide
    exact hall v (sextets_lt bs v hv)
  · rw [List.eq_of_mem_replicate h]
    decide

end Decode

section Bundle

theorem PemBlock.body_plain (b : PemBlock) : (45 : UInt8) ∉ b.body := by
  intro h
  have hmem : (45 : UInt8) ∈ b.body.filter (fun c => !isBreak c) :=
    List.mem_filter.mpr ⟨h, by decide⟩
  rw [b.body_base64] at hmem
  exact (encode_chars hmem).1 rfl

theorem no_comment : (45 : UInt8) ∉ ([] : List UInt8) := List.not_mem_nil

/-- A block without commentary and line breaks. -/
def PemBlock.plain (der : List UInt8) (hpos : 0 < der.length)
    (hle : der.length ≤ WM_CERT_DER_MAX_BYTES) : PemBlock where
  comment := []
  der := der
  body := encode der
  comment_plain := no_comment
  der_pos := hpos
  der_le := hle
  body_base64 := List.filter_eq_self.mpr fun c hc => by simp [(encode_chars hc).2]

theorem length_plain_le (der : List UInt8) (hpos : 0 < der.length)
    (hle : der.length ≤ WM_CERT_DER_MAX_BYTES) :
    (PemBlock.plain der hpos hle).text.length ≤ 2 * der.length + 56 := by
  have hbody := length_encode_le der
  have hbegin : beginMarker.length = 27 := rfl
  have hend : endMarker.length = 25 := rfl
  simp only [PemBlock.text, PemBlock.plain, List.length_append, List.length_nil, hbegin, hend]
  omega

/-- A line feed in front of every line of `width` characters, and at the end; `k` characters
of the current line are still to come. -/
def foldLines (width : ℕ) : ℕ → List UInt8 → List UInt8
  | _, [] => [10]
  | 0, c :: cs => 10 :: c :: foldLines width (width - 1) cs
  | k + 1, c :: cs => c :: foldLines width k cs

theorem filter_foldLines (width k : ℕ) (cs : List UInt8) :
    (foldLines width k cs).filter (fun c => !isBreak c) = cs.filter fun c => !isBreak c := by
  induction cs generalizing k with
  | nil => rfl
  | cons c cs ih =>
    cases k with
    | zero =>
      rw [foldLines, List.filter_cons_of_neg (by decide), List.filter_cons, List.filter_cons, ih]
    | succ k => rw [foldLines, List.filter_cons, List.filter_cons, ih]

theorem length_foldLines_le (width k : ℕ) (cs : List UInt8) :
    (foldLines width k cs).length ≤ 2 * cs.length + 1 := by
  induction cs generalizing k with
  | nil => exact Nat.le_refl 1
  | cons c cs ih =>
    cases k with
    | zero =>
      have hrest := ih (width - 1)
      simp only [foldLines, List.length_cons]
      omega
    | succ k =>
      have hrest := ih k
      simp only [foldLines, List.length_cons]
      omega

/-- A block in lines of 76 characters, behind a commentary. -/
def PemBlock.lines (comment der : List UInt8) (hcomment : (45 : UInt8) ∉ comment)
    (hpos : 0 < der.length) (hle : der.length ≤ WM_CERT_DER_MAX_BYTES) : PemBlock where
  comment := comment
  der := der
  body := foldLines 76 0 (encode der)
  comment_plain := hcomment
  der_pos := hpos
  der_le := hle
  body_base64 := by
    rw [filter_foldLines]
    exact List.filter_eq_self.mpr fun c hc => by simp [(encode_chars hc).2]

theorem length_lines_le (comment der : List UInt8) (hcomment : (45 : UInt8) ∉ comment)
    (hpos : 0 < der.length) (hle : der.length ≤ WM_CERT_DER_MAX_BYTES) :
    (PemBlock.lines comment der hcomment hpos hle).text.length ≤
      comment.length + 4 * der.length + 61 := by
  have hbody := length_encode_le der
  have hfold := length_foldLines_le 76 0 (encode der)
  have hbegin : beginMarker.length = 27 := rfl
  have hend : endMarker.length = 25 := rfl
  simp only [PemBlock.text, PemBlock.lines, List.length_append, hbegin, hend]
  omega

theorem length_bundle_le {bs : List PemBlock} {n : ℕ} (h : ∀ b ∈ bs, b.text.length ≤ n) :
    (bundleText bs).length ≤ bs.length * n := by
  induction bs with
  | nil => exact Nat.zero_le _
  | cons b bs ih =>
    have hb := h b List.mem_cons_self
    have hrest := ih fun x hx => h x (List.mem_cons_of_mem _ hx)
    rw [bundleText, List.flatMap_cons, List.length_append, ← bundleText, List.length_cons,
      Nat.succ_mul]
    omega

/-- The loading scan sees exactly the bodies of a bundle. -/
theorem blocks_bundle (bs : List PemBlock) :
    blocks beginMarker endMarker (bundleText bs) = bs.map PemBlock.body := by
  induction bs with
  | nil => exact blocks_none (by decide)
  | cons b bs ih =>
    rw [bundleText, List.flatMap_cons, PemBlock.text, ← bundleText, List.map_cons,
      blocks_append (d := 45) (by decide) (by decide) b.comment_plain b.body_plain, ih]

theorem pemAnchors_bundle (decode : X509Decoder) (bs : List PemBlock) :
    pemAnchors decode (bundleText bs) = tableAnchors decode (bs.map PemBlock.der) := by
  rw [pemAnchors, tableAnchors, blocks_bundle, List.filterMap_map, List.filterMap_map]
  apply List.filterMap_congr
  intro b _
  simp only [Function.comp_apply, blockAnchor, decode_b64_encode b.body_base64 b.der_le,
    if_pos b.der_pos, List.take_length]

theorem length_bundle_pos {bs : List PemBlock} (h : 0 < bs.length) :
    0 < (bundleText bs).length := by
  cases bs with
  | nil => exact absurd h (Nat.lt_irrefl 0)
  | cons b bs =>
    have hbegin : beginMarker.length = 27 := rfl
    simp only [bundleText, List.flatMap_cons, PemBlock.text, List.length_append, hbegin]
    omega

theorem length_le_count (bs : List PemBlock) :
    bs.length ≤ count beginMarker (bundleText bs) := by
  have : (blocks beginMarker endMarker (bundleText bs)).length ≤ _ :=
    length_blocks_le beginMarker_ne (bundleText bs)
  rwa [blocks_bundle, List.length_map] at this

end Bundle

end BearTLS
