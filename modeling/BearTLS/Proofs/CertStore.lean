import BearTLS.Proofs.Pem

/-! The loops of `wm_cert_store_init` fill the array in order, up to its capacity. -/

namespace BearTLS

open Bounded Memory

section Build

/-- All chunks fit, or the sink has overflowed. -/
theorem append_dn_fold (chunks : List (List UInt8)) (s : DnSink) (hov : s.overflow = false)
    (hlen : s.len ≤ s.cap) :
    if s.len + chunks.flatten.length ≤ s.cap then
      chunks.foldl wmCertStoreAppendDn s =
        { s with buf := store s.buf s.len chunks.flatten, len := s.len + chunks.flatten.length }
    else (chunks.foldl wmCertStoreAppendDn s).overflow = true := by
  have hstuck : ∀ (cs : List (List UInt8)) (t : DnSink), t.overflow = true →
      (cs.foldl wmCertStoreAppendDn t).overflow = true := by
    intro cs
    induction cs with
    | nil =>
      intro t ht
      exact ht
    | cons c cs ih =>
      intro t ht
      exact ih _ (by simp [wmCertStoreAppendDn, ht])
  induction chunks generalizing s with
  | nil => simp [hlen]
  | cons c cs ih =>
    rw [List.foldl_cons, List.flatten_cons, List.length_append]
    by_cases hc : s.len + c.length > s.cap
    · rw [if_neg (by omega)]
      exact hstuck cs _ (by simp [wmCertStoreAppendDn, hc])
    · have hstep : wmCertStoreAppendDn s c =
          { s with buf := store s.buf s.len c, len := s.len + c.length } := by
        simp [wmCertStoreAppendDn, hov, hc]
      have hrest := ih (wmCertStoreAppendDn s c) (by rw [hstep]; exact hov) (by
        rw [hstep]
        exact Nat.le_of_not_lt hc)
      rw [hstep] at hrest ⊢
      dsimp only at hrest
      rw [store_append, Nat.add_assoc] at hrest
      exact hrest

/-- An anchor does not notice what happens to other slots. -/
theorem readAnchor_congr {storage storage' : ℕ → AnchorStorage} {slot : ℕ} {a : TrustAnchor}
    (h : a.Own slot) (hs : storage slot = storage' slot) :
    readAnchor storage a = readAnchor storage' a := by
  obtain ⟨hdn, hkey⟩ := h
  have hname : ∀ r, a.dn = some r → storage r.slot = storage' r.slot := by
    intro r hr
    rw [hdn r hr, hs]
  have hread : readKey storage a.key = readKey storage' a.key := by
    cases hk : a.key with
    | none => rfl
    | rsa n e =>
      rw [hk] at hkey
      simp only [readKey, hkey.1, hkey.2, hs]
    | ec curve q =>
      rw [hk] at hkey
      simp only [readKey, show q.slot = slot from hkey, hs]
  unfold readAnchor
  rw [hread]
  cases hd : a.dn with
  | none => rfl
  | some r => simp only [hname r hd]

theorem fits_rsa {n e : List UInt8} :
    X509Pkey.fits (.rsa n e) = true ↔
      ¬ (n.length > WM_MAX_RSA_N_LEN ∨ e.length > WM_MAX_RSA_E_LEN) := by
  simp only [X509Pkey.fits, Bool.and_eq_true, decide_eq_true_eq]
  omega

theorem fits_ec {curve : ℕ} {q : List UInt8} :
    X509Pkey.fits (.ec curve q) = true ↔ ¬ q.length > WM_MAX_EC_Q_LEN := by
  simp only [X509Pkey.fits, decide_eq_true_eq, Nat.not_lt]

/-- `wm_build_anchor_from_der` accepts exactly the certificates that give an
anchor, and the slot then holds that anchor. -/
theorem build_spec (decode : X509Decoder) (der : List UInt8) (slot : ℕ) (storage : AnchorStorage) :
    let o := wmBuildAnchorFromDer decode der slot storage
    match (decode der).anchor with
    | some v => o.ret = true ∧ o.anchor.Own slot ∧
        ∀ slots : ℕ → AnchorStorage, slots slot = o.storage → readAnchor slots o.anchor = v
    | none => o.ret = false := by
  simp only [wmBuildAnchorFromDer, X509Decoded.anchor]
  have hfold := append_dn_fold (decode der).dnChunks
    ⟨storage.zeroed.dn, WM_MAX_DN_LEN, 0, false⟩ rfl (Nat.zero_le _)
  dsimp only at hfold
  rw [Nat.zero_add] at hfold
  by_cases hfit : (decode der).dnChunks.flatten.length ≤ WM_MAX_DN_LEN
  · rw [if_pos hfit] at hfold
    rw [hfold]
    have hname : load (store storage.zeroed.dn 0 (decode der).dnChunks.flatten) 0
        (decode der).dnChunks.flatten.length = (decode der).dnChunks.flatten :=
      load_store_same _ _ _
    cases hkey : (decode der).pkey with
    | none => simp
    | some pkey =>
      by_cases herr : (decode der).lastError = 0
      · cases hca : (decode der).isCA with
        | false => simp [herr]
        | true =>
          cases pkey with
          | rsa n e =>
            by_cases hk : n.length > WM_MAX_RSA_N_LEN ∨ e.length > WM_MAX_RSA_E_LEN
            · have hnot : ¬ X509Pkey.fits (.rsa n e) = true := fun hfits => fits_rsa.mp hfits hk
              simp [herr, hk, hnot]
            · have hfits : X509Pkey.fits (.rsa n e) = true := fits_rsa.mpr hk
              simp only [herr, hfit, hfits, hk, ne_eq, not_true_eq_false, Bool.false_eq_true,
                or_self, if_false, and_self, if_true, reduceCtorEq]
              refine ⟨trivial, ⟨?_, rfl, rfl⟩, fun slots hslots => ?_⟩
              · rintro r ⟨⟩
                rfl
              · simp only [readAnchor, readKey, hslots, hname, load_store_same]
          | ec curve q =>
            by_cases hk : q.length > WM_MAX_EC_Q_LEN
            · have hnot : ¬ X509Pkey.fits (.ec curve q) = true := fun hfits => fits_ec.mp hfits hk
              simp [herr, hk, hnot]
            · have hfits : X509Pkey.fits (.ec curve q) = true := fits_ec.mpr hk
              simp only [herr, hfit, hfits, hk, ne_eq, not_true_eq_false, Bool.false_eq_true,
                or_self, if_false, and_self, if_true, reduceCtorEq]
              refine ⟨trivial, ⟨?_, rfl⟩, fun slots hslots => ?_⟩
              · rintro r ⟨⟩
                rfl
              · simp only [readAnchor, readKey, hslots, hname, load_store_same]
          | other => simp [herr, X509Pkey.fits]
      · simp [herr]
  · rw [if_neg hfit] at hfold
    rw [hfold]
    cases (decode der).pkey with
    | none => simp
    | some pkey =>
      dsimp only
      rw [if_neg fun h => hfit h.2.2.1]
      simp

end Build

section Loops

/-- The array holds the anchors `vs`, and nothing else counts. -/
structure Holds (s : Loading) (cap : ℕ) (vs : List AnchorView) : Prop where
  capacity : s.st.capacity = cap
  count : s.st.count = s.next
  next : s.next = vs.length
  room : vs.length ≤ cap
  own : ∀ i < s.next, (s.st.anchors i).Own i
  read : ∀ i (h : i < vs.length), readAnchor s.st.storage (s.st.anchors i) = vs[i]

variable {decode : X509Decoder} {s : Loading} {cap : ℕ} {vs : List AnchorView}

theorem trusted_length (st : CertStore) : st.trusted.length = st.count := by
  rw [CertStore.trusted, List.length_map, List.length_range]

theorem Holds.trusted (h : Holds s cap vs) : s.st.trusted = vs := by
  apply List.ext_getElem
  · rw [trusted_length, h.count, h.next]
  · intro i h₁ h₂
    simp only [CertStore.trusted, List.getElem_map, List.getElem_range]
    exact h.read i h₂

/-- Writing slot `next` leaves what counts alone. -/
theorem Holds.below (h : Holds s cap vs) (a : TrustAnchor) (o : AnchorStorage) {i : ℕ}
    (hi : i < vs.length) :
    readAnchor (Function.update s.st.storage s.next o) (Function.update s.st.anchors s.next a i) =
      vs[i] := by
  have hne : i ≠ s.next := by
    rw [h.next]
    omega
  rw [Function.update_of_ne hne, ← h.read i hi]
  exact readAnchor_congr (h.own i (by rwa [h.next])) (Function.update_of_ne hne _ _)

theorem build_holds (h : Holds s cap vs) (hroom : vs.length < cap) (der : List UInt8) :
    Holds (s.build decode der) cap (vs ++ (decode der).anchor.toList) := by
  have hspec := build_spec decode der s.next (s.st.storage s.next)
  unfold Loading.build
  dsimp only at hspec ⊢
  set o := wmBuildAnchorFromDer decode der s.next (s.st.storage s.next)
  cases hd : (decode der).anchor with
  | none =>
    rw [hd] at hspec
    rw [if_neg (by simpa using hspec), Option.toList_none, List.append_nil]
    refine ⟨h.capacity, h.count, h.next, h.room, fun i hi => ?_, fun i hi => h.below _ _ hi⟩
    dsimp only
    rw [Function.update_of_ne (Nat.ne_of_lt hi)]
    exact h.own i hi
  | some v =>
    rw [hd] at hspec
    obtain ⟨hret, hown, hread⟩ := hspec
    rw [if_pos hret, Option.toList_some]
    have hlen : (vs ++ [v]).length = vs.length + 1 := List.length_append
    refine ⟨h.capacity, congrArg (· + 1) h.count, by rw [hlen, h.next], by omega, ?_, ?_⟩
    · intro i hi
      rcases Nat.lt_succ_iff_lt_or_eq.mp hi with hi | rfl
      · dsimp only
        rw [Function.update_of_ne (Nat.ne_of_lt hi)]
        exact h.own i hi
      · dsimp only
        rw [Function.update_self]
        exact hown
    · intro i hi
      rw [hlen] at hi
      rcases Nat.lt_succ_iff_lt_or_eq.mp hi with hi | rfl
      · rw [List.getElem_append_left hi]
        exact h.below _ _ hi
      · rw [List.getElem_concat_length rfl, ← h.next]
        dsimp only
        rw [Function.update_self]
        exact hread _ (Function.update_self _ _ _)

theorem load_ders_holds (decode : X509Decoder) (h : Holds s cap vs) (ders : List (List UInt8)) :
    Holds (wmCertStoreLoadDers decode ders s) cap
      (fill cap (fun der => (decode der).anchor) ders vs) := by
  induction ders generalizing s vs with
  | nil => exact h
  | cons der ders ih =>
    rw [wmCertStoreLoadDers, fill, h.capacity, h.next]
    split_ifs with hroom
    · exact ih (build_holds h hroom der)
    · exact h

theorem load_loop_holds (decode : X509Decoder) (h : Holds s cap vs) (p : List UInt8) :
    Holds (wmCertStoreLoadLoop decode p s) cap
      (fill cap (blockAnchor decode) (Search.blocks beginMarker endMarker p) vs) := by
  induction hlen : p.length using Nat.strong_induction_on generalizing p s vs with
  | _ n ih =>
  subst hlen
  rw [wmCertStoreLoadLoop, h.capacity, h.next]
  by_cases hroom : vs.length < cap
  · rw [if_pos hroom]
    split
    · rename_i hb
      rw [find_text_eq beginMarker_ne] at hb
      rw [Search.blocks_none hb]
      exact h
    · rename_i q hb
      rw [find_text_eq beginMarker_ne] at hb
      dsimp only
      split
      · rename_i he
        rw [find_text_eq endMarker_ne] at he
        rw [Search.blocks_open beginMarker_ne hb he]
        exact h
      · rename_i footer he
        rw [find_text_eq endMarker_ne] at he
        rw [Search.blocks_some beginMarker_ne hb he, fill, if_pos hroom]
        refine ih _ ?_ ?_ _ rfl
        · have h₁ := Search.find_after_length beginMarker_ne hb
          have h₂ := (Search.find_suffix he).length_le
          rw [List.length_drop]
          omega
        · unfold blockAnchor
          dsimp only
          split_ifs with hpos
          · exact build_holds h hroom _
          · rwa [Option.toList_none, List.append_nil]
  · rw [if_neg hroom]
    have hfull : fill cap (blockAnchor decode) (Search.blocks beginMarker endMarker p) vs = vs := by
      rw [fill_eq _ h.room, List.take_append_of_le_length (by omega),
        List.take_of_length_le h.room]
    rwa [hfull]

end Loops

theorem load_pem_roots_holds (decode : X509Decoder) (env : CertEnv) (h : Holds s cap [])
    (hplaces : 0 < env.filePlaces) :
    Holds (wmCertStoreLoadPemRoots decode env s) cap ((env.fileAnchors decode).take cap) := by
  unfold wmCertStoreLoadPemRoots CertEnv.fileAnchors
  cases wmCertStoreReadFile env.secondRead with
  | none => simpa using h
  | some pem =>
    dsimp only
    cases hder : env.allocDer with
    | false => simpa using h
    | true =>
      rw [if_neg (by decide), if_pos ⟨hplaces, rfl⟩]
      have := load_loop_holds decode h pem
      rwa [fill_eq _ h.room, List.nil_append] at this

theorem builtAnchor_eq (decode : X509Decoder) (der : List UInt8) :
    builtAnchor decode der = (decode der).anchor := by
  have hspec := build_spec decode der 0 .zero
  unfold builtAnchor
  dsimp only at hspec ⊢
  cases hd : (decode der).anchor with
  | none =>
    rw [hd] at hspec
    rw [if_neg (by simpa using hspec)]
  | some v =>
    rw [hd] at hspec
    rw [if_pos hspec.1, hspec.2.2 _ rfl]

theorem length_tableAnchors (decode : X509Decoder) (tables : RootTables) :
    (tables.anchors decode).length ≤ WM_PUBLIC_ROOT_COUNT := by
  have h₁ : (tableAnchors decode tables.builtin).length ≤ _ := List.length_filterMap_le _ _
  have h₂ : (tableAnchors decode tables.extra).length ≤ _ := List.length_filterMap_le _ _
  rw [tables.builtin_count] at h₁
  rw [tables.extra_count] at h₂
  rw [RootTables.anchors, List.length_append, WM_PUBLIC_ROOT_COUNT]
  omega

section Places

variable {env : CertEnv}

theorem rootsPath_of_places (h : 0 < env.filePlaces) : env.rootsPath = true := by
  unfold CertEnv.filePlaces at h
  cases hr : env.rootsPath with
  | true => rfl
  | false =>
    rw [hr] at h
    exact absurd h (Nat.lt_irrefl 0)

theorem file_anchors_eq_nil (decode : X509Decoder) (h : ¬ 0 < env.filePlaces) :
    env.fileAnchors decode = [] := by
  unfold CertEnv.fileAnchors
  cases wmCertStoreReadFile env.secondRead with
  | none => rfl
  | some pem => exact if_neg fun hload => h hload.1

theorem alloc_eq {capacity : ℕ} (st : CertStore) (hpos : capacity ≠ 0)
    (hanchors : env.allocAnchors = true) (hstorage : env.allocStorage = true) :
    wmCertStoreAlloc env capacity st =
      (true, ⟨fun _ => .zero, fun _ => .zero, true, capacity, st.count, st.initialized⟩) := by
  rw [wmCertStoreAlloc, if_neg hpos, if_neg (by simp [hanchors, hstorage])]

theorem start_holds (cap : ℕ) : Holds (.start cap) cap [] :=
  ⟨rfl, rfl, rfl, Nat.zero_le _, fun i hi => absurd hi (Nat.not_lt_zero i),
    fun i hi => absurd hi (Nat.not_lt_zero i)⟩

/-- The loading read fills the array with its anchors, as far as there is room. -/
theorem file_holds (decode : X509Decoder) (env : CertEnv) {s : Loading} {cap : ℕ}
    (h : Holds s cap []) :
    Holds (if 0 < env.filePlaces ∧ env.rootsPath = true then wmCertStoreLoadPemRoots decode env s
      else s) cap ((env.fileAnchors decode).take cap) := by
  by_cases hplaces : 0 < env.filePlaces
  · rw [if_pos ⟨hplaces, rootsPath_of_places hplaces⟩]
    exact load_pem_roots_holds decode env h hplaces
  · rw [if_neg fun hload => hplaces hload.1, file_anchors_eq_nil decode hplaces, List.take_nil]
    exact h

end Places

/-- An initialisation that gets its memory runs the three loops on empty arrays. -/
theorem init_eq (decode : X509Decoder) (tables : RootTables) (env : CertEnv) {st : CertStore}
    (hst : st.initialized = false) (hanchors : env.allocAnchors = true)
    (hstorage : env.allocStorage = true) :
    let s := Loading.start (WM_PUBLIC_ROOT_COUNT + env.filePlaces)
    let s := if 0 < env.filePlaces ∧ env.rootsPath = true then wmCertStoreLoadPemRoots decode env s
      else s
    let s := wmCertStoreLoadDers decode tables.builtin s
    let s := wmCertStoreLoadDers decode tables.extra s
    wmCertStoreInit decode tables env st =
      (decide (0 < s.st.count), { s.st with initialized := true }) := by
  unfold wmCertStoreInit
  rw [if_neg (by simp [hst])]
  extract_lets _ _ _ _ externalCount capacity
  have hcount : externalCount = env.filePlaces := by
    unfold CertEnv.filePlaces externalCount
    cases env.rootsPath with
    | false => rfl
    | true =>
      cases wmCertStoreReadFile env.firstRead with
      | none => rfl
      | some pem => exact count_pem_certs_eq pem
  have hcap : capacity = WM_PUBLIC_ROOT_COUNT + env.filePlaces := by rw [← hcount]
  have hpos : capacity ≠ 0 := by
    have : WM_PUBLIC_ROOT_COUNT = 23 := rfl
    omega
  rw [alloc_eq st hpos hanchors hstorage]
  dsimp only
  rw [if_neg (by decide), hcap, hcount, hst]
  rfl

/-- The array after initialisation: the anchors of the file, then those of the
tables, as far as there is room. -/
theorem init_trusted (decode : X509Decoder) (tables : RootTables) (env : CertEnv) {st : CertStore}
    (hst : st.initialized = false) (hanchors : env.allocAnchors = true)
    (hstorage : env.allocStorage = true) :
    (wmCertStoreInit decode tables env st).2.trusted =
      (env.fileAnchors decode ++ tables.anchors decode).take
        (WM_PUBLIC_ROOT_COUNT + env.filePlaces) := by
  rw [init_eq decode tables env hst hanchors hstorage]
  have hfile := file_holds decode env (start_holds (WM_PUBLIC_ROOT_COUNT + env.filePlaces))
  -- the tables go behind what the file has left
  have hbuiltin := load_ders_holds decode hfile tables.builtin
  have heq := (load_ders_holds decode hbuiltin tables.extra).trusted
  rw [fill_eq _ hbuiltin.room, fill_eq _ hfile.room, take_take_append, List.append_assoc,
    take_take_append] at heq
  exact heq

end BearTLS
