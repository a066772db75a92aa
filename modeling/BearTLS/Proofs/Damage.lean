import BearTLS.Proofs.TrustAnchors

/-! A damaged text in front of a bundle: which blocks of the bundle the loading
scan loses in it. -/

namespace BearTLS

open Search

section Scan

theorem resume_split (front : List UInt8) (bs : List PemEntry) :
    (resume front bs).lost ++ (resume front bs).kept = bs := by
  induction bs generalizing front with
  | nil => rfl
  | cons b bs ih =>
    rw [resume]
    split_ifs
    · rfl
    · exact congrArg (b :: ·) (ih _)

/-- Once no block is open, the scan meets every block. -/
theorem blocks_entries (bs : List PemEntry) :
    ∀ (front : List UInt8) (b : PemEntry), Between beginMarker endMarker front →
      blocks beginMarker endMarker (front ++ beginMarker ++ b.body ++ endMarker ++ entriesText bs) =
        blocks beginMarker endMarker front ++ b.body :: bs.map PemEntry.body := by
  induction bs with
  | nil =>
    intro front b hfront
    have hnil : blocks beginMarker endMarker (entriesText []) = [] := blocks_none (by decide)
    rw [(scan_between beginMarker_ne hfront b.closes _).1, hnil, List.map_nil]
  | cons b' bs ih =>
    intro front b hfront
    obtain ⟨hnone, hplain⟩ := between_plain endMarker beginMarker_ne b'.opens
    have hnext := ih b'.comment b' hplain
    rw [blocks_none hnone, List.nil_append] at hnext
    rw [(scan_between beginMarker_ne hfront b.closes _).1, entriesText, List.flatMap_cons,
      ← entriesText, PemEntry.text, hnext, List.map_cons]

/-- The blocks of the whole text: those of the damage, and those that are kept. -/
theorem blocks_resume (front : List UInt8) (bs : List PemEntry) :
    blocks beginMarker endMarker (front ++ entriesText bs) =
      blocks beginMarker endMarker (resume front bs).front ++
        (resume front bs).kept.map PemEntry.body := by
  induction bs generalizing front with
  | nil => simp [entriesText, resume]
  | cons b bs ih =>
    have hcons : entriesText (b :: bs) = b.text ++ entriesText bs := List.flatMap_cons
    rw [resume]
    split_ifs with hbetween
    · have hmet := blocks_entries bs (front ++ b.comment) b hbetween
      rw [List.map_cons, ← hmet, hcons, PemEntry.text]
      simp only [List.append_assoc]
    · rw [hcons, ← List.append_assoc]
      exact ih _

end Scan

section Trusted

variable (decode : X509Decoder)

theorem blockAnchor_iff {body : List UInt8} {v : AnchorView} :
    blockAnchor decode body = some v ↔
      ∃ der, BodyDecodes body der ∧ builtAnchor decode der = some v := by
  unfold blockAnchor BodyDecodes
  rw [decode_b64_eq]
  dsimp only
  set all := Base64.bytes (body.filterMap wmCertStoreB64Value)
  split_ifs with hcap hpos hpos
  · rw [List.take_length, ← builtAnchor_eq]
    constructor
    · intro hv
      exact ⟨all, ⟨rfl, hpos⟩, hv⟩
    · rintro ⟨der, ⟨hder, -⟩, hv⟩
      obtain ⟨rfl, -⟩ := B64Out.mk.inj hder
      exact hv
  · refine ⟨by simp, ?_⟩
    rintro ⟨der, ⟨hder, hlen⟩, -⟩
    obtain ⟨rfl, -⟩ := B64Out.mk.inj hder
    exact absurd hlen hpos
  · exact absurd hpos (Nat.lt_irrefl 0)
  · refine ⟨by simp, ?_⟩
    rintro ⟨der, ⟨hder, hlen⟩, -⟩
    obtain ⟨-, hzero⟩ := B64Out.mk.inj hder
    omega

/-- A file that is read whole, with no more markers than the count goes. -/
theorem whole_trusted (tables : RootTables) {text : List UInt8}
    (hcount : count beginMarker text ≤ WM_MAX_EXTERNAL_ROOT_COUNT)
    (hsize : text.length ≤ WM_CERT_FILE_MAX_BYTES) {st : CertStore}
    (hst : st.initialized = false) :
    (wmCertStoreInit decode tables ⟨true, .whole text, .whole text, true, true, true⟩
      st).2.trusted = pemAnchors decode text ++ tables.anchors decode := by
  set env : CertEnv := ⟨true, .whole text, .whole text, true, true, true⟩
  have hanchors : (pemAnchors decode text).length ≤ count beginMarker text := by
    have hblocks : (blocks beginMarker endMarker text).length ≤ _ :=
      length_blocks_le beginMarker_ne text
    exact (List.length_filterMap_le _ _).trans hblocks
  have htables := length_tableAnchors decode tables
  have hfile : env.fileAnchors decode = pemAnchors decode text ∧
      (pemAnchors decode text).length ≤ env.filePlaces := by
    rcases Nat.eq_zero_or_pos text.length with h0 | hpos
    · obtain rfl := List.length_eq_zero_iff.mp h0
      have hnil : pemAnchors decode [] = [] := by
        rw [pemAnchors, blocks_none (by decide), List.filterMap_nil]
      rw [hnil]
      exact ⟨rfl, Nat.zero_le _⟩
    have hplaces : env.filePlaces = count beginMarker text := by
      unfold CertEnv.filePlaces
      rw [read_whole hpos hsize]
      exact Nat.min_eq_left hcount
    refine ⟨?_, hplaces ▸ hanchors⟩
    unfold CertEnv.fileAnchors
    rw [read_whole hpos hsize, hplaces]
    dsimp only
    split_ifs with hsome
    · rfl
    · have hnone : (pemAnchors decode text).length = 0 := by
        simp only [and_true, env] at hsome
        omega
      exact (List.length_eq_zero_iff.mp hnone).symm
  rw [init_trusted decode tables env hst rfl rfl, hfile.1, List.take_of_length_le]
  rw [List.length_append]
  omega

/-- The anchors that are trusted when a bundle stands behind a damaged text. -/
theorem damaged_trusted (tables : RootTables) {damage : List UInt8} {bs : List PemEntry}
    (hcount : count beginMarker (damage ++ entriesText bs) ≤ WM_MAX_EXTERNAL_ROOT_COUNT)
    (hsize : (damage ++ entriesText bs).length ≤ WM_CERT_FILE_MAX_BYTES) {st : CertStore}
    (hst : st.initialized = false) (v : AnchorView) :
    let file := damage ++ entriesText bs
    v ∈ (wmCertStoreInit decode tables ⟨true, .whole file, .whole file, true, true, true⟩
        st).2.trusted ↔
      v ∈ pemAnchors decode (resume damage bs).front ∨
        (∃ b ∈ (resume damage bs).kept, blockAnchor decode b.body = some v) ∨
        v ∈ tables.anchors decode := by
  intro file
  rw [whole_trusted decode tables hcount hsize hst, pemAnchors, blocks_resume,
    List.filterMap_append, ← pemAnchors, List.filterMap_map, List.append_assoc, List.mem_append,
    List.mem_append, List.mem_filterMap]
  rfl

end Trusted

section Certificates

/-- A well-formed block is complete. -/
def PemBlock.entry (b : PemBlock) : PemEntry where
  comment := b.comment
  body := b.body
  opens := by
    rw [find_append (d := 45) (by decide) b.comment_plain]
    exact find_of_prefixed (List.prefix_refl _)
  closes := by
    rw [find_append (d := 45) (by decide) b.body_plain]
    exact find_of_prefixed (List.prefix_refl _)

/-- The block that is to be lost. -/
def rootEntry : PemEntry := (blockRoot [] no_comment).entry

theorem decodes_root : BodyDecodes rootEntry.body CERT_ROOT_EC_DER :=
  ⟨decode_b64_encode (blockRoot [] no_comment).body_base64
    (blockRoot [] no_comment).der_le, (blockRoot [] no_comment).der_pos⟩

/-- A block that breaks off in its first line. -/
def truncatedBlock : List UInt8 := ascii "-----BEGIN CERTIFICATE-----\nMIIB\n"

/-- A block that has lost its first line. -/
def beheadedBlock : List UInt8 := ascii "MIIB\n-----END CERTIFICATE-----\n"

theorem length_damaged {damage : List UInt8} (h : damage.length ≤ 64) :
    (damage ++ entriesText [rootEntry]).length ≤ 1717 := by
  have htext : entriesText [rootEntry] = (blockRoot [] no_comment).text :=
    List.append_nil _
  have hroot := length_blockRoot [] no_comment
  rw [List.length_nil] at hroot
  rw [htext, List.length_append]
  omega

theorem count_damaged {damage : List UInt8} (h : damage.length ≤ 64) :
    count beginMarker (damage ++ entriesText [rootEntry]) ≤ WM_MAX_EXTERNAL_ROOT_COUNT := by
  have hcount := count_mul_le beginMarker (damage ++ entriesText [rootEntry])
  have hlength := length_damaged h
  have hbegin : beginMarker.length = 27 := rfl
  have hmax : WM_MAX_EXTERNAL_ROOT_COUNT = 256 := rfl
  rw [hbegin] at hcount
  omega

/-- No certificate starts with the first bytes of the truncated block and of the marker
behind it. -/
theorem truncated_rejected {der : List UInt8} (h : [48, 130, 1, 4] <+: der) :
    (withSampleRoot der).anchor = none := by
  have hroot : der ≠ CERT_ROOT_EC_DER := by
    rintro rfl
    exact absurd h (by decide)
  have hR4 : der ≠ WM_GTS_ROOT_R4_DER := by
    rintro rfl
    exact absurd h (by decide)
  have hX2 : der ≠ WM_ISRG_ROOT_X2_DER := by
    rintro rfl
    exact absurd h (by decide)
  rw [withSampleRoot, if_neg hroot, twoCertificates, if_neg hR4, if_neg hX2]
  rfl

theorem swallowed_rejected (rest : List UInt8) :
    blockAnchor withSampleRoot (truncatedBlock.drop 27 ++ (beginMarker ++ rest)) = none := by
  have hvalues : (truncatedBlock.drop 27 ++ (beginMarker ++ rest)).filterMap wmCertStoreB64Value =
      (truncatedBlock.drop 27 ++ beginMarker).filterMap wmCertStoreB64Value ++
        rest.filterMap wmCertStoreB64Value := by
    rw [← List.append_assoc, List.filterMap_append]
  have hjunk : [48, 130, 1, 4] <+: Base64.bytes
      ((truncatedBlock.drop 27 ++ beginMarker).filterMap wmCertStoreB64Value) := by decide
  have hprefix : [48, 130, 1, 4] <+: Base64.bytes
      ((truncatedBlock.drop 27 ++ beginMarker).filterMap wmCertStoreB64Value ++
        rest.filterMap wmCertStoreB64Value) := by
    refine hjunk.trans (Base64.bytes_prefix_append _ fun w hw => ?_)
    obtain ⟨c, -, hc⟩ := List.mem_filterMap.mp hw
    exact b64_value_lt hc
  unfold blockAnchor
  rw [decode_b64_eq, hvalues]
  dsimp only
  split_ifs with hcap hpos
  · rw [List.take_length]
    exact truncated_rejected hprefix
  · rfl
  · rfl
  · rfl

/-- The truncated block swallows the block behind it, and gives no anchor. -/
theorem anchors_truncated :
    pemAnchors withSampleRoot (truncatedBlock ++ rootEntry.text) = [] := by
  obtain ⟨t, ht⟩ : ∃ t, rootEntry.body = 10 :: t := ⟨_, rfl⟩
  have htext : truncatedBlock ++ rootEntry.text =
      beginMarker ++ (truncatedBlock.drop 27 ++ (beginMarker ++ (10 :: t)) ++ endMarker) := by
    have hfirst : beginMarker ++ truncatedBlock.drop 27 = truncatedBlock := by decide
    have hcomment : rootEntry.comment = [] := rfl
    rw [PemEntry.text, ht, hcomment, List.nil_append]
    calc truncatedBlock ++ (beginMarker ++ 10 :: t ++ endMarker)
        = beginMarker ++ truncatedBlock.drop 27 ++ (beginMarker ++ 10 :: t ++ endMarker) := by
          rw [hfirst]
      _ = _ := by simp only [List.append_assoc]
  have hbody := rootEntry.closes
  rw [ht, List.cons_append] at hbody
  have hskip : find endMarker (truncatedBlock.drop 27 ++ (beginMarker ++ 10 :: (t ++ endMarker))) =
      find endMarker (10 :: (t ++ endMarker)) := rfl
  have hopen : find beginMarker (truncatedBlock ++ rootEntry.text) =
      some (truncatedBlock ++ rootEntry.text) := by
    rw [htext]
    exact find_of_prefixed (List.prefix_append _ _)
  have hclose : find endMarker ((truncatedBlock ++ rootEntry.text).drop beginMarker.length) =
      some endMarker := by
    rw [htext, List.drop_left, List.append_assoc, List.append_assoc, List.cons_append, hskip, hbody]
  have hlast : endMarker.drop endMarker.length = [] := List.drop_length
  rw [pemAnchors, blocks_some beginMarker_ne hopen hclose, htext, List.drop_left,
    List.length_append, Nat.add_sub_cancel, List.take_left, hlast, blocks_none (by decide),
    List.filterMap_cons_none (swallowed_rejected _), List.filterMap_nil]

theorem resume_truncated :
    resume truncatedBlock [rootEntry] = ⟨truncatedBlock ++ rootEntry.text, [rootEntry], []⟩ := by
  have hopen : find beginMarker truncatedBlock = some truncatedBlock := by decide
  have hleft : leftover beginMarker endMarker truncatedBlock = truncatedBlock :=
    leftover_open hopen (by decide)
  have hcomment : rootEntry.comment = [] := rfl
  have hnot : ¬ Between beginMarker endMarker (truncatedBlock ++ rootEntry.comment) := by
    rw [hcomment, List.append_nil, Between, hleft]
    decide
  rw [resume, if_neg hnot]
  rfl

theorem resume_beheaded :
    resume beheadedBlock [rootEntry] = ⟨beheadedBlock, [], [rootEntry]⟩ := by
  have hcomment : rootEntry.comment = [] := rfl
  have hplain : find beginMarker (beheadedBlock ++ beginMarker) = some beginMarker := by decide
  rw [resume, hcomment, List.append_nil, if_pos (between_plain endMarker beginMarker_ne hplain).2]

end Certificates

/-- Every accepted block of a bundle behind a damaged text is trusted exactly when
the scan meets it with no block open, or its anchor comes from elsewhere. -/
theorem damage_suppresses_iff (decode : X509Decoder) (tables : RootTables) {damage : List UInt8}
    {bs : List PemEntry}
    (hcount : count beginMarker (damage ++ entriesText bs) ≤ WM_MAX_EXTERNAL_ROOT_COUNT)
    (hsize : (damage ++ entriesText bs).length ≤ WM_CERT_FILE_MAX_BYTES) {st : CertStore}
    (hst : st.initialized = false) :
    let file := damage ++ entriesText bs
    (∀ b ∈ bs, ∀ der v, BodyDecodes b.body der → builtAnchor decode der = some v →
        v ∈ (wmCertStoreInit decode tables ⟨true, .whole file, .whole file, true, true, true⟩
          st).2.trusted) ↔
      ∀ b ∈ (resume damage bs).lost, ∀ der v, BodyDecodes b.body der →
        builtAnchor decode der = some v →
        v ∈ pemAnchors decode (resume damage bs).front ∨
          (∃ b' ∈ (resume damage bs).kept, blockAnchor decode b'.body = some v) ∨
          v ∈ tables.anchors decode := by
  intro file
  have hsplit := resume_split damage bs
  constructor
  · intro h b hb der v hder hv
    have hmem : b ∈ bs := hsplit ▸ List.mem_append_left _ hb
    exact (damaged_trusted decode tables hcount hsize hst v).mp (h b hmem der v hder hv)
  · intro h b hb der v hder hv
    refine (damaged_trusted decode tables hcount hsize hst v).mpr ?_
    rw [← hsplit] at hb
    rcases List.mem_append.mp hb with hb | hb
    · exact h b hb der v hder hv
    · exact .inr (.inl ⟨b, hb, (blockAnchor_iff decode).mpr ⟨der, hder, hv⟩⟩)

/-- A block without its first line does no harm to the one behind it. -/
theorem damage_suppresses_iff_beheaded :
    anchorRoot ∈ (wmCertStoreInit withSampleRoot
      (repeatedTables WM_GTS_ROOT_R4_DER WM_ISRG_ROOT_X2_DER)
      ⟨true, .whole (beheadedBlock ++ entriesText [rootEntry]),
        .whole (beheadedBlock ++ entriesText [rootEntry]), true, true, true⟩
        .start).2.trusted := by
  have hcount : count beginMarker (beheadedBlock ++ entriesText [rootEntry]) ≤ _ :=
    count_damaged (by decide)
  have hsize : (beheadedBlock ++ entriesText [rootEntry]).length ≤ WM_CERT_FILE_MAX_BYTES :=
    (length_damaged (by decide)).trans (by decide)
  refine (damage_suppresses_iff withSampleRoot
    (repeatedTables WM_GTS_ROOT_R4_DER WM_ISRG_ROOT_X2_DER) hcount hsize
    (show CertStore.start.initialized = false from rfl)).mpr ?_ rootEntry
    (List.mem_singleton.mpr rfl) _ _ decodes_root built_root
  intro b hb
  rw [resume_beheaded] at hb
  exact absurd hb List.not_mem_nil

/-- A certificate is not loaded because the block before it breaks off, whatever the tables
hold besides. -/
theorem truncated_block_hides_next :
    let file := truncatedBlock ++ entriesText [rootEntry]
    count beginMarker file ≤ WM_MAX_EXTERNAL_ROOT_COUNT ∧ file.length ≤ WM_CERT_FILE_MAX_BYTES ∧
      BodyDecodes rootEntry.body CERT_ROOT_EC_DER ∧
      builtAnchor withSampleRoot CERT_ROOT_EC_DER = some anchorRoot ∧
      ∀ tables : RootTables, CERT_ROOT_EC_DER ∉ tables.builtin ++ tables.extra →
        anchorRoot ∉ (wmCertStoreInit withSampleRoot tables
          ⟨true, .whole file, .whole file, true, true, true⟩ .start).2.trusted := by
  intro file
  have hcount : count beginMarker file ≤ WM_MAX_EXTERNAL_ROOT_COUNT := count_damaged (by decide)
  have hsize : file.length ≤ WM_CERT_FILE_MAX_BYTES :=
    (length_damaged (by decide)).trans (by decide)
  refine ⟨hcount, hsize, decodes_root, built_root, fun tables htables h => htables ?_⟩
  have hsources := (damaged_trusted withSampleRoot tables hcount hsize rfl anchorRoot).mp h
  rw [resume_truncated] at hsources
  rcases hsources with hfront | ⟨b, hb, -⟩ | hmem
  · rw [anchors_truncated] at hfront
    exact absurd hfront List.not_mem_nil
  · exact absurd hb List.not_mem_nil
  · rw [RootTables.anchors, tableAnchors, tableAnchors, ← List.filterMap_append,
      List.mem_filterMap] at hmem
    obtain ⟨der, hder, hanchor⟩ := hmem
    rw [← builtAnchor_eq] at hanchor
    exact root_of_anchor hanchor ▸ hder

end BearTLS
