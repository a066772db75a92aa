import BearTLS.Proofs.CertStore

/-! `wm_build_anchor_from_der` accepts exactly the CA certificates that fit a
storage slot. It stays inside the slot, and it does not see how the decoder cuts
the subject name into chunks. -/

namespace BearTLS

open Memory

section Frame

theorem store_within {m m' : Mem} {bs : List UInt8} {n : ℕ} (hlen : bs.length ≤ n)
    (hm : ∀ i, n ≤ i → m i = m' i) : ∀ i, n ≤ i → store m 0 bs i = m' i := by
  intro i hi
  rw [store_outside _ _ _ (.inr (by omega))]
  exact hm i hi

theorem zeroed_within (s : AnchorStorage) : s.Within s.zeroed := by
  refine ⟨?_, ?_, ?_, ?_⟩ <;>
    exact store_within (Nat.le_of_eq List.length_replicate) fun _ _ => rfl

/-- The sink keeps inside its buffer, whatever chunks come in. -/
theorem append_dn_within (chunks : List (List UInt8)) (s : DnSink) (hlen : s.len ≤ s.cap) :
    ∀ i, s.cap ≤ i → (chunks.foldl wmCertStoreAppendDn s).buf i = s.buf i := by
  induction chunks generalizing s with
  | nil =>
    intro i _
    rfl
  | cons c cs ih =>
    intro i hi
    rw [List.foldl_cons]
    by_cases hc : s.overflow = true ∨ s.len + c.length > s.cap
    · rw [wmCertStoreAppendDn, if_pos hc]
      exact ih { s with overflow := true } hlen i hi
    · rw [wmCertStoreAppendDn, if_neg hc]
      obtain ⟨-, hroom⟩ := not_or.mp hc
      refine (ih { s with buf := store s.buf s.len c, len := s.len + c.length }
        (Nat.le_of_not_lt hroom) i hi).trans ?_
      exact store_outside _ _ _ (.inr (by omega))

theorem build_within (decode : X509Decoder) (der : List UInt8) (slot : ℕ) (s : AnchorStorage) :
    s.Within (wmBuildAnchorFromDer decode der slot s).storage := by
  have hz := zeroed_within s
  -- the name is written before anything is checked
  have hdn : ∀ i, WM_MAX_DN_LEN ≤ i → ((decode der).dnChunks.foldl wmCertStoreAppendDn
      ⟨s.zeroed.dn, WM_MAX_DN_LEN, 0, false⟩).buf i = s.dn i := fun i hi =>
    (append_dn_within (decode der).dnChunks ⟨s.zeroed.dn, WM_MAX_DN_LEN, 0, false⟩
      (Nat.zero_le _) i hi).trans (hz.dn i hi)
  have hname : s.Within { s.zeroed with dn := ((decode der).dnChunks.foldl wmCertStoreAppendDn
      ⟨s.zeroed.dn, WM_MAX_DN_LEN, 0, false⟩).buf } := ⟨hdn, hz.rsaN, hz.rsaE, hz.ecQ⟩
  unfold wmBuildAnchorFromDer
  dsimp only
  cases (decode der).pkey with
  | none => split_ifs <;> exact hname
  | some pkey =>
    cases pkey with
    | other =>
      dsimp only
      split_ifs <;> exact hname
    | rsa n e =>
      dsimp only
      split_ifs with herr hca hk
      · exact hname
      · exact hname
      · exact hname
      · obtain ⟨hn, he⟩ := not_or.mp hk
        exact ⟨hdn, store_within (Nat.le_of_not_lt hn) hz.rsaN,
          store_within (Nat.le_of_not_lt he) hz.rsaE, hz.ecQ⟩
    | ec curve q =>
      dsimp only
      split_ifs with herr hca hk
      · exact hname
      · exact hname
      · exact hname
      · exact ⟨hdn, hz.rsaN, hz.rsaE, store_within (Nat.le_of_not_lt hk) hz.ecQ⟩

end Frame

section Chunks

theorem build_same_name {decode decode' : X509Decoder} {der : List UInt8}
    (h : (decode der).SameName (decode' der)) (slot : ℕ) (s : AnchorStorage) :
    let o := wmBuildAnchorFromDer decode der slot s
    let o' := wmBuildAnchorFromDer decode' der slot s
    o'.ret = o.ret ∧ o'.anchor = o.anchor ∧
      ((decode der).dnChunks.flatten.length ≤ WM_MAX_DN_LEN → o'.storage = o.storage) := by
  have hfold := append_dn_fold (decode der).dnChunks
    ⟨s.zeroed.dn, WM_MAX_DN_LEN, 0, false⟩ rfl (Nat.zero_le _)
  have hfold' := append_dn_fold (decode' der).dnChunks
    ⟨s.zeroed.dn, WM_MAX_DN_LEN, 0, false⟩ rfl (Nat.zero_le _)
  rw [h.name] at hfold'
  dsimp only [wmBuildAnchorFromDer] at hfold hfold' ⊢
  rw [Nat.zero_add] at hfold hfold'
  rw [h.lastError, h.pkey, h.isCA]
  by_cases hfit : (decode der).dnChunks.flatten.length ≤ WM_MAX_DN_LEN
  · -- both sinks hold the whole name
    rw [if_pos hfit] at hfold hfold'
    rw [hfold, hfold']
    exact ⟨rfl, rfl, fun _ => rfl⟩
  · rw [if_neg hfit] at hfold hfold'
    rw [if_pos (.inr hfold'), if_pos (.inr hfold)]
    exact ⟨rfl, rfl, fun hle => absurd hle hfit⟩

end Chunks

section Acceptance

/-- The keys that a storage slot has room for. -/
theorem fits_iff {pkey : Option X509Pkey} :
    (∃ k, pkey = some k ∧ k.fits = true) ↔
      (∃ n e, pkey = some (.rsa n e) ∧ n.length ≤ WM_MAX_RSA_N_LEN ∧
          e.length ≤ WM_MAX_RSA_E_LEN) ∨
        ∃ curve q, pkey = some (.ec curve q) ∧ q.length ≤ WM_MAX_EC_Q_LEN := by
  constructor
  · rintro ⟨k, rfl, hk⟩
    cases k with
    | rsa n e =>
      obtain ⟨hn, he⟩ := not_or.mp (fits_rsa.mp hk)
      exact .inl ⟨n, e, rfl, Nat.le_of_not_lt hn, Nat.le_of_not_lt he⟩
    | ec curve q => exact .inr ⟨curve, q, rfl, Nat.le_of_not_lt (fits_ec.mp hk)⟩
    | other => exact absurd hk Bool.false_ne_true
  · rintro (⟨n, e, rfl, hn, he⟩ | ⟨curve, q, rfl, hq⟩)
    · exact ⟨_, rfl, fits_rsa.mpr (by omega)⟩
    · exact ⟨_, rfl, fits_ec.mpr (by omega)⟩

theorem anchor_eq_some {d : X509Decoded} {v : AnchorView} :
    d.anchor = some v ↔ d.lastError = 0 ∧ d.isCA = true ∧
      d.dnChunks.flatten.length ≤ WM_MAX_DN_LEN ∧ ∃ k, d.pkey = some k ∧ k.fits = true ∧
        v = ⟨d.dnChunks.flatten, BR_X509_TA_CA, k⟩ := by
  unfold X509Decoded.anchor
  cases hk : d.pkey with
  | none => simp
  | some k =>
    dsimp only
    constructor
    · intro h
      split_ifs at h with hok
      obtain ⟨herr, hca, hname, hfits⟩ := hok
      exact ⟨herr, hca, hname, k, rfl, hfits, (Option.some.inj h).symm⟩
    · rintro ⟨herr, hca, hname, k', hk', hfits, rfl⟩
      obtain rfl := Option.some.inj hk'
      rw [if_pos ⟨herr, hca, hname, hfits⟩]

theorem build_ret_iff (decode : X509Decoder) (der : List UInt8) (slot : ℕ) (s : AnchorStorage) :
    (wmBuildAnchorFromDer decode der slot s).ret = true ↔ ∃ v, (decode der).anchor = some v := by
  have hspec := build_spec decode der slot s
  dsimp only at hspec
  cases hd : (decode der).anchor with
  | none =>
    rw [hd] at hspec
    simp [hspec]
  | some v =>
    rw [hd] at hspec
    simp [hspec.1]

theorem build_keyType {decode : X509Decoder} {der : List UInt8} {slot : ℕ} {s : AnchorStorage}
    {k : X509Pkey} (hkey : (decode der).pkey = some k)
    (hret : (wmBuildAnchorFromDer decode der slot s).ret = true) :
    (wmBuildAnchorFromDer decode der slot s).anchor.keyType = k.keyType := by
  dsimp only [wmBuildAnchorFromDer] at hret ⊢
  rw [hkey] at hret ⊢
  cases k with
  | other =>
    dsimp only at hret
    split_ifs at hret
  | rsa n e =>
    dsimp only at hret ⊢
    split_ifs at hret ⊢
    rfl
  | ec curve q =>
    dsimp only at hret ⊢
    split_ifs at hret ⊢
    rfl

/-- A certificate is accepted exactly when it decodes, is a CA and fits; the anchor
then has its name and key. No write leaves the slot, and another way to cut the
name gives the same anchor. -/
theorem anchor_building_exact (decode : X509Decoder) (der : List UInt8) (slot : ℕ)
    (s : AnchorStorage) :
    let d := decode der
    let o := wmBuildAnchorFromDer decode der slot s
    (o.ret = true ↔ d.lastError = 0 ∧ d.isCA = true ∧
      d.dnChunks.flatten.length ≤ WM_MAX_DN_LEN ∧
      ((∃ n e, d.pkey = some (.rsa n e) ∧ n.length ≤ WM_MAX_RSA_N_LEN ∧
          e.length ≤ WM_MAX_RSA_E_LEN) ∨
        ∃ curve q, d.pkey = some (.ec curve q) ∧ q.length ≤ WM_MAX_EC_Q_LEN)) ∧
    (o.ret = true → o.anchor.Own slot ∧ ∃ k, d.pkey = some k ∧ o.anchor.keyType = k.keyType ∧
      ∀ slots : ℕ → AnchorStorage, slots slot = o.storage →
        readAnchor slots o.anchor = ⟨d.dnChunks.flatten, BR_X509_TA_CA, k⟩) ∧
    s.Within o.storage ∧
    ∀ decode' : X509Decoder, d.SameName (decode' der) →
      let o' := wmBuildAnchorFromDer decode' der slot s
      o'.ret = o.ret ∧ o'.anchor = o.anchor ∧ (o.ret = true → o'.storage = o.storage) := by
  intro d o
  have hiff : o.ret = true ↔ ∃ v, d.anchor = some v := build_ret_iff decode der slot s
  refine ⟨?_, ?_, build_within decode der slot s, ?_⟩
  · rw [← fits_iff, hiff]
    constructor
    · rintro ⟨v, hv⟩
      obtain ⟨herr, hca, hname, k, hk, hfits, -⟩ := anchor_eq_some.mp hv
      exact ⟨herr, hca, hname, k, hk, hfits⟩
    · rintro ⟨herr, hca, hname, k, hk, hfits⟩
      exact ⟨_, anchor_eq_some.mpr ⟨herr, hca, hname, k, hk, hfits, rfl⟩⟩
  · intro hret
    obtain ⟨v, hv⟩ := hiff.mp hret
    have hspec := build_spec decode der slot s
    dsimp only at hspec
    rw [hv] at hspec
    obtain ⟨-, hown, hread⟩ := hspec
    obtain ⟨-, -, -, k, hk, -, rfl⟩ := anchor_eq_some.mp hv
    exact ⟨hown, k, hk, build_keyType hk hret, hread⟩
  · intro decode' hsame o'
    obtain ⟨hret', hanchor, hstorage⟩ := build_same_name hsame slot s
    refine ⟨hret', hanchor, fun hret => ?_⟩
    obtain ⟨v, hv⟩ := hiff.mp hret
    obtain ⟨-, -, hname, -⟩ := anchor_eq_some.mp hv
    exact hstorage hname

end Acceptance

end BearTLS
