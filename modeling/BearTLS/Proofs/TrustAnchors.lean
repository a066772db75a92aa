import BearTLS.Proofs.CertStore
import BearTLS.Sanity.Certificates

/-! The trust anchors after initialisation: a well-formed bundle is loaded
exactly, and the compiled-in anchors are there as long as there is room. -/

namespace BearTLS

open Bounded

section Certificates

set_option maxRecDepth 4000 in
theorem built_R4 : builtAnchor twoCertificates WM_GTS_ROOT_R4_DER = some anchorR4 := by
  rw [builtAnchor_eq]
  decide

set_option maxRecDepth 4000 in
theorem built_X2 : builtAnchor twoCertificates WM_ISRG_ROOT_X2_DER = some anchorX2 := by
  rw [builtAnchor_eq]
  decide

set_option maxRecDepth 4000 in
theorem length_R4 : WM_GTS_ROOT_R4_DER.length = 525 := rfl

set_option maxRecDepth 4000 in
theorem length_X2 : WM_ISRG_ROOT_X2_DER.length = 543 := rfl

/-- A PEM block with the first of the two. -/
def blockR4 : PemBlock :=
  .plain WM_GTS_ROOT_R4_DER (by rw [length_R4]; decide) (by rw [length_R4]; decide)

theorem length_blockR4 : blockR4.text.length ≤ 1106 := by
  have h : blockR4.text.length ≤ 2 * WM_GTS_ROOT_R4_DER.length + 56 := length_plain_le _ _ _
  rwa [length_R4] at h

set_option maxRecDepth 4000 in
theorem built_root : builtAnchor withSampleRoot CERT_ROOT_EC_DER = some anchorRoot := by
  rw [builtAnchor_eq]
  decide

set_option maxRecDepth 4000 in
theorem length_root : CERT_ROOT_EC_DER.length = 398 := rfl

theorem sample_ne {der : List UInt8} (h : der.length ≠ 398) :
    builtAnchor withSampleRoot der = builtAnchor twoCertificates der := by
  have hne : der ≠ CERT_ROOT_EC_DER := by
    rintro rfl
    exact h length_root
  rw [builtAnchor_eq, builtAnchor_eq, withSampleRoot, if_neg hne]

/-- A block with the sample root, as its file has it. -/
def blockRoot (comment : List UInt8) (hcomment : (45 : UInt8) ∉ comment) : PemBlock :=
  .lines comment CERT_ROOT_EC_DER hcomment (by rw [length_root]; decide)
    (by rw [length_root]; decide)

theorem length_blockRoot (comment : List UInt8) (hcomment : (45 : UInt8) ∉ comment) :
    (blockRoot comment hcomment).text.length ≤ comment.length + 1653 := by
  have h : (blockRoot comment hcomment).text.length ≤
    comment.length + 4 * CERT_ROOT_EC_DER.length + 61 := length_lines_le _ _ _ _ _
  rw [length_root] at h
  omega

/-- The sample root is the only certificate with its anchor. -/
theorem root_of_anchor {der : List UInt8} (h : builtAnchor withSampleRoot der = some anchorRoot) :
    der = CERT_ROOT_EC_DER := by
  by_contra hroot
  rw [builtAnchor_eq, withSampleRoot, if_neg hroot, ← builtAnchor_eq] at h
  by_cases hR4 : der = WM_GTS_ROOT_R4_DER
  · subst hR4
    rw [built_R4] at h
    exact absurd h (by decide)
  · by_cases hX2 : der = WM_ISRG_ROOT_X2_DER
    · subst hX2
      rw [built_X2] at h
      exact absurd h (by decide)
    · rw [builtAnchor_eq, twoCertificates, if_neg hR4, if_neg hX2] at h
      exact absurd h (by decide)

theorem length_bundleR4 (n : ℕ) : (bundleText (List.replicate n blockR4)).length ≤ n * 1106 := by
  have hall : ∀ b ∈ List.replicate n blockR4, b.text.length ≤ 1106 := fun b hb =>
    List.eq_of_mem_replicate hb ▸ length_blockR4
  have h := length_bundle_le hall
  rwa [List.length_replicate] at h

theorem anchors_bundleR4 (n : ℕ) :
    tableAnchors twoCertificates ((List.replicate n blockR4).map PemBlock.der) =
      List.replicate n anchorR4 := by
  have hR4 : (twoCertificates WM_GTS_ROOT_R4_DER).anchor = some anchorR4 := by
    rw [← builtAnchor_eq, built_R4]
  rw [List.map_replicate, tableAnchors]
  exact List.filterMap_replicate_of_some hR4

end Certificates

section Bundle

theorem read_whole {text : List UInt8} (hpos : 0 < text.length)
    (hsize : text.length ≤ WM_CERT_FILE_MAX_BYTES) :
    wmCertStoreReadFile (.whole text) = some text := by
  simp only [FileRead.whole, wmCertStoreReadFile, Nat.ne_of_gt hpos, gt_iff_lt,
    Nat.not_lt.mpr hsize, Bool.true_eq_false, or_self, if_false]

theorem filePlaces_le (env : CertEnv) : env.filePlaces ≤ WM_MAX_EXTERNAL_ROOT_COUNT := by
  unfold CertEnv.filePlaces
  split
  · exact Nat.min_le_right _ _
  · exact Nat.zero_le _

/-- The counting read provides for every block, up to its limit. -/
theorem bundle_places {bs : List PemBlock} (hpos : 0 < bs.length)
    (hsize : (bundleText bs).length ≤ WM_CERT_FILE_MAX_BYTES) {env : CertEnv}
    (hpath : env.rootsPath = true) (hread : env.firstRead = .whole (bundleText bs)) :
    min bs.length WM_MAX_EXTERNAL_ROOT_COUNT ≤ env.filePlaces := by
  have hcount := length_le_count bs
  unfold CertEnv.filePlaces
  rw [hpath, hread, read_whole (length_bundle_pos hpos) hsize]
  exact Nat.le_min.mpr ⟨Nat.le_trans (Nat.min_le_left _ _) hcount, Nat.min_le_right _ _⟩

theorem file_anchors_bundle (decode : X509Decoder) {bs : List PemBlock}
    (hsize : (bundleText bs).length ≤ WM_CERT_FILE_MAX_BYTES) (hpos : 0 < bs.length) {env : CertEnv}
    (hpath : env.rootsPath = true) (hfirst : env.firstRead = .whole (bundleText bs))
    (hsecond : env.secondRead = .whole (bundleText bs)) (hder : env.allocDer = true) :
    env.fileAnchors decode = tableAnchors decode (bs.map PemBlock.der) := by
  have hplaces : 0 < env.filePlaces :=
    Nat.lt_of_lt_of_le (Nat.lt_min.mpr ⟨hpos, by decide⟩) (bundle_places hpos hsize hpath hfirst)
  unfold CertEnv.fileAnchors
  rw [hsecond, read_whole (length_bundle_pos hpos) hsize]
  dsimp only
  rw [if_pos ⟨hplaces, hder⟩, pemAnchors_bundle]

theorem tableAnchors_eq (decode : X509Decoder) (ders : List (List UInt8)) :
    tableAnchors decode ders = ders.filterMap (builtAnchor decode) := by
  have hbuilt : builtAnchor decode = fun der => (decode der).anchor :=
    funext (builtAnchor_eq decode)
  rw [hbuilt]
  rfl

theorem bundle_trusted (decode : X509Decoder) (tables : RootTables) {bs : List PemBlock}
    (hbs : bs.length ≤ WM_MAX_EXTERNAL_ROOT_COUNT)
    (hsize : (bundleText bs).length ≤ WM_CERT_FILE_MAX_BYTES) {st : CertStore}
    (hst : st.initialized = false) :
    (wmCertStoreInit decode tables
        ⟨true, .whole (bundleText bs), .whole (bundleText bs), true, true, true⟩ st).2.trusted =
      tableAnchors decode (bs.map PemBlock.der) ++ tables.anchors decode := by
  set env : CertEnv := ⟨true, .whole (bundleText bs), .whole (bundleText bs), true, true, true⟩
  have hfile : env.fileAnchors decode = tableAnchors decode (bs.map PemBlock.der) := by
    cases bs with
    | nil => rfl
    | cons b bs => exact file_anchors_bundle decode hsize (Nat.succ_pos _) rfl rfl rfl rfl
  have hroom : bs.length ≤ env.filePlaces := by
    rcases Nat.eq_zero_or_pos bs.length with h0 | hpos
    · rw [h0]
      exact Nat.zero_le _
    · have : _ ≤ env.filePlaces := bundle_places hpos hsize rfl rfl
      rwa [Nat.min_eq_left hbs] at this
  have hlen : (tableAnchors decode (bs.map PemBlock.der)).length ≤ bs.length := by
    have : (tableAnchors decode (bs.map PemBlock.der)).length ≤ _ := List.length_filterMap_le _ _
    rwa [List.length_map] at this
  have htables := length_tableAnchors decode tables
  rw [init_trusted decode tables env hst rfl rfl, hfile, List.take_of_length_le]
  rw [List.length_append]
  omega

/-- A well-formed bundle of at most 256 certificates is loaded exactly. -/
theorem bundle_loaded_exactly (decode : X509Decoder) (tables : RootTables) {bs : List PemBlock}
    (hbs : bs.length ≤ WM_MAX_EXTERNAL_ROOT_COUNT)
    (hsize : (bundleText bs).length ≤ WM_CERT_FILE_MAX_BYTES) {st : CertStore}
    (hst : st.initialized = false) :
    (wmCertStoreInit decode tables
        ⟨true, .whole (bundleText bs), .whole (bundleText bs), true, true, true⟩ st).2.trusted =
      (bs.map PemBlock.der).filterMap (builtAnchor decode) ++
        tables.builtin.filterMap (builtAnchor decode) ++
        tables.extra.filterMap (builtAnchor decode) := by
  rw [bundle_trusted decode tables hbs hsize hst, RootTables.anchors, tableAnchors_eq,
    tableAnchors_eq, tableAnchors_eq, List.append_assoc]

/-- A block that holds no certificate, with breaks in its text. -/
def emptyBlock : PemBlock where
  comment := []
  der := [48, 0]
  body := ascii "\r\nMA\r\nA=\r\n"
  comment_plain := no_comment
  der_pos := by decide
  der_le := by decide
  body_base64 := by decide

/-- The sample root behind a commentary, a block that is rejected, and a compiled-in
certificate once more. -/
def mixedBundle : List PemBlock :=
  [blockRoot (ascii "\nBearSSL sample root\n") (by decide), emptyBlock, blockR4]

theorem length_mixedBundle : (bundleText mixedBundle).length ≤ 3000 := by
  have hroot := length_blockRoot (ascii "\nBearSSL sample root\n") (by decide)
  have hcomment : (ascii "\nBearSSL sample root\n").length = 21 := by decide
  have hempty : emptyBlock.text.length = 62 := by decide
  have hR4 := length_blockR4
  simp only [mixedBundle, bundleText, List.flatMap_cons, List.flatMap_nil, List.length_append,
    List.length_nil]
  omega

theorem anchors_mixedBundle : tableAnchors withSampleRoot (mixedBundle.map PemBlock.der) =
    [anchorRoot, anchorR4] := by
  have hders : mixedBundle.map PemBlock.der = [CERT_ROOT_EC_DER, [48, 0], WM_GTS_ROOT_R4_DER] :=
    rfl
  have hempty : builtAnchor withSampleRoot [48, 0] = none := by
    rw [sample_ne (by decide), builtAnchor_eq]
    rfl
  have hR4 := (sample_ne (by rw [length_R4]; decide)).trans built_R4
  rw [hders, tableAnchors_eq, List.filterMap_cons_some built_root, List.filterMap_cons_none hempty,
    List.filterMap_cons_some hR4, List.filterMap_nil]

theorem anchors_sampleTables :
    (repeatedTables WM_ISRG_ROOT_X2_DER WM_GTS_ROOT_R4_DER).anchors withSampleRoot =
      List.replicate 9 anchorX2 ++ List.replicate 14 anchorR4 := by
  have hR4 := (sample_ne (by rw [length_R4]; decide)).trans built_R4
  have hX2 := (sample_ne (by rw [length_X2]; decide)).trans built_X2
  rw [RootTables.anchors, tableAnchors_eq, tableAnchors_eq, repeatedTables,
    List.filterMap_replicate_of_some hX2, List.filterMap_replicate_of_some hR4]
  rfl

theorem bundle_loaded_exactly_mixed :
    (wmCertStoreInit withSampleRoot (repeatedTables WM_ISRG_ROOT_X2_DER WM_GTS_ROOT_R4_DER)
        ⟨true, .whole (bundleText mixedBundle), .whole (bundleText mixedBundle), true, true, true⟩
        .start).2.trusted =
      [anchorRoot, anchorR4] ++ List.replicate 9 anchorX2 ++ List.replicate 14 anchorR4 := by
  have hloaded := bundle_loaded_exactly withSampleRoot (repeatedTables WM_ISRG_ROOT_X2_DER
    WM_GTS_ROOT_R4_DER) (show mixedBundle.length ≤ WM_MAX_EXTERNAL_ROOT_COUNT by decide)
    (Nat.le_trans length_mixedBundle (by decide)) (show CertStore.start.initialized = false from rfl)
  rw [← tableAnchors_eq, ← tableAnchors_eq, ← tableAnchors_eq, List.append_assoc,
    anchors_mixedBundle] at hloaded
  rw [hloaded, List.append_assoc, ← anchors_sampleTables, RootTables.anchors]

end Bundle

section Fallback

/-- The accepted entries of the tables are all trusted exactly when they fit behind
what the file has brought, or the ones that do not fit equal anchors that do. -/
theorem compiled_in_trusted_iff (decode : X509Decoder) (tables : RootTables) (env : CertEnv)
    {st : CertStore} (hst : st.initialized = false) (hanchors : env.allocAnchors = true)
    (hstorage : env.allocStorage = true) :
    (∀ der ∈ tables.builtin ++ tables.extra, ∀ v, builtAnchor decode der = some v →
        v ∈ (wmCertStoreInit decode tables env st).2.trusted) ↔
      (env.fileAnchors decode).length + (tables.anchors decode).length ≤
          WM_PUBLIC_ROOT_COUNT + env.filePlaces ∨
        ∀ v ∈ (tables.anchors decode).drop
            (WM_PUBLIC_ROOT_COUNT + env.filePlaces - (env.fileAnchors decode).length),
          v ∈ (env.fileAnchors decode ++ tables.anchors decode).take
            (WM_PUBLIC_ROOT_COUNT + env.filePlaces) := by
  rw [init_trusted decode tables env hst hanchors hstorage, ← mem_take_append_iff]
  have hmem : ∀ v, v ∈ tables.anchors decode ↔
      ∃ der ∈ tables.builtin ++ tables.extra, builtAnchor decode der = some v := by
    intro v
    simp only [RootTables.anchors, tableAnchors, List.mem_append, List.mem_filterMap,
      builtAnchor_eq, or_and_right, exists_or]
  simp only [hmem]
  constructor
  · rintro h v ⟨der, hder, hv⟩
    exact h der hder v hv
  · intro h der hder v hv
    exact h v ⟨der, hder, hv⟩

/-- Without a file there is room for everything. -/
theorem compiled_in_trusted_iff_no_file :
    anchorX2 ∈ (wmCertStoreInit twoCertificates
      (repeatedTables WM_GTS_ROOT_R4_DER WM_ISRG_ROOT_X2_DER)
      ⟨true, ⟨none, true, true, true⟩, ⟨none, true, true, true⟩, true, true, true⟩
        .start).2.trusted := by
  refine (compiled_in_trusted_iff twoCertificates
    (repeatedTables WM_GTS_ROOT_R4_DER WM_ISRG_ROOT_X2_DER)
    ⟨true, ⟨none, true, true, true⟩, ⟨none, true, true, true⟩, true, true, true⟩
    (show CertStore.start.initialized = false from rfl) rfl rfl).mpr (.inl ?_)
      WM_ISRG_ROOT_X2_DER ?_ anchorX2 built_X2
  · have := length_tableAnchors twoCertificates
      (repeatedTables WM_GTS_ROOT_R4_DER WM_ISRG_ROOT_X2_DER)
    simpa [CertEnv.fileAnchors, wmCertStoreReadFile] using Nat.le_add_right_of_le this
  · exact List.mem_append_right _ (List.mem_replicate.mpr ⟨by decide, rfl⟩)

/-- A file with 279 copies of one certificate takes every place: the count stops
at 256, and 23 blocks more go where the tables should. -/
theorem long_bundle_hides_compiled_in :
    builtAnchor twoCertificates WM_ISRG_ROOT_X2_DER = some anchorX2 ∧
    WM_ISRG_ROOT_X2_DER ∈ (repeatedTables WM_GTS_ROOT_R4_DER WM_ISRG_ROOT_X2_DER).extra ∧
    (bundleText (List.replicate 279 blockR4)).length ≤ WM_CERT_FILE_MAX_BYTES ∧
    anchorX2 ∉ (wmCertStoreInit twoCertificates
      (repeatedTables WM_GTS_ROOT_R4_DER WM_ISRG_ROOT_X2_DER)
      ⟨true, .whole (bundleText (List.replicate 279 blockR4)),
        .whole (bundleText (List.replicate 279 blockR4)), true, true, true⟩ .start).2.trusted := by
  have hsize : (bundleText (List.replicate 279 blockR4)).length ≤ WM_CERT_FILE_MAX_BYTES :=
    Nat.le_trans (length_bundleR4 279) (by decide)
  refine ⟨built_X2, List.mem_replicate.mpr ⟨by decide, rfl⟩, hsize, ?_⟩
  set env : CertEnv := ⟨true, .whole (bundleText (List.replicate 279 blockR4)),
    .whole (bundleText (List.replicate 279 blockR4)), true, true, true⟩
  have hfile : env.fileAnchors twoCertificates = List.replicate 279 anchorR4 := by
    rw [file_anchors_bundle twoCertificates hsize (by rw [List.length_replicate]; decide) rfl rfl
      rfl rfl, anchors_bundleR4]
  have hplaces : env.filePlaces ≤ 256 := filePlaces_le env
  rw [init_trusted twoCertificates _ env rfl rfl rfl, hfile, List.take_append_of_le_length]
  · intro h
    have hne : anchorX2 ≠ anchorR4 := by decide
    exact hne (List.eq_of_mem_replicate (List.mem_of_mem_take h))
  · have h23 : WM_PUBLIC_ROOT_COUNT = 23 := rfl
    rw [List.length_replicate]
    omega

end Fallback

end BearTLS
