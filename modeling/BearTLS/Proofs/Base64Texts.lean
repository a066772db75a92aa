import BearTLS.Proofs.HashcashText
import BearTLS.Proofs.Pem

/-! The base64 codecs beside each other. One decoder skips what is no character of the
standard alphabet, the other stops at `=` and fails on what is of neither alphabet; the
encoder's text goes through the latter and back. -/

namespace BearTLS

open Base64 Memory Radix

section Values

theorem b64_value_eq (c : UInt8) : wmCertStoreB64Value c = stdValue c := by
  have hback : c.toNat.toUInt8 = c := UInt8.ofNat_toNat
  have hall : ∀ n < 256, ∀ v ∈ wmCertStoreB64Value n.toUInt8, char v = n.toUInt8 := by
    decide +kernel
  have hchar := hall c.toNat c.toNat_lt
  rw [hback] at hchar
  cases hval : stdValue c with
  | none =>
    refine Option.eq_none_iff_forall_ne_some.mpr fun v hv => ?_
    have hnot := List.find?_eq_none.mp hval v (List.mem_range.mpr (b64_value_lt hv))
    exact hnot (by simpa using hchar v hv)
  | some v =>
    have hfound := List.find?_some hval
    rw [← show char v = c by simpa using hfound]
    exact b64_value_char (stdValue_lt hval)

end Values

section Bounds

/-- Whatever the text is, no byte is stored behind the buffer, and eight bits are read
for each byte that is. -/
theorem hashcash_decode_bounds (outSize : ℕ) (text : List UInt8) (bitbuf : UInt32)
    (bitcount : ℕ) (out : List UInt8) (h : out.length ≤ outSize) :
    (wmHashcashB64DecodeLoop outSize text bitbuf bitcount out).out.length ≤ outSize ∧
      8 * (wmHashcashB64DecodeLoop outSize text bitbuf bitcount out).out.length ≤
        8 * out.length + bitcount + 6 * text.length := by
  induction text generalizing bitbuf bitcount out with
  | nil =>
    rw [wmHashcashB64DecodeLoop]
    exact ⟨h, by dsimp only; omega⟩
  | cons c rest ih =>
    rw [wmHashcashB64DecodeLoop, List.length_cons]
    by_cases heq : c = 61
    · rw [if_pos heq]
      exact ⟨h, by dsimp only; omega⟩
    rw [if_neg heq]
    cases hv : wmHashcashFrom64 c with
    | none => exact ⟨h, by dsimp only; omega⟩
    | some v =>
      dsimp only
      split_ifs with hbits hfull
      · exact ⟨h, by dsimp only; omega⟩
      · have hlen : ∀ byte : UInt8, (out ++ [byte]).length = out.length + 1 := fun _ =>
          List.length_append
        have hnext := fun buf count byte => ih buf count (out ++ [byte]) (by rw [hlen]; omega)
        refine ⟨(hnext _ _ _).1, (hnext _ _ _).2.trans ?_⟩
        rw [hlen]
        omega
      · obtain ⟨hsize, hread⟩ := ih _ (bitcount + 6) out h
        exact ⟨hsize, hread.trans (by omega)⟩

theorem hashcash_decode_le (text : CString) (outSize : ℕ) :
    (wmHashcashB64Decode text outSize).out.length ≤ outSize :=
  (hashcash_decode_bounds outSize text.bytes 0 0 [] (Nat.zero_le _)).1

/-- A text and a buffer side by side in memory are too short for the sign bit of the
returned `int`. -/
theorem hashcash_decode_int (text : CString) (outSize : ℕ)
    (h : text.bytes.length + outSize < 2 ^ 32) :
    (wmHashcashB64Decode text outSize).out.length < 2 ^ 31 := by
  obtain ⟨hsize, hread⟩ := hashcash_decode_bounds outSize text.bytes 0 0 [] (Nat.zero_le _)
  rw [← wmHashcashB64Decode] at hsize hread
  rw [List.length_nil] at hread
  omega

end Bounds

section Decoders

theorem b64_decode_sextets (text : List UInt8) (outCap : ℕ) :
    let vs := text.filterMap stdValue
    (6 * vs.length / 8 ≤ outCap →
        wmCertStoreDecodeB64 text outCap = ⟨bytes vs, 6 * vs.length / 8⟩) ∧
      (outCap < 6 * vs.length / 8 → (wmCertStoreDecodeB64 text outCap).len = 0) := by
  intro vs
  have hvalues : text.filterMap wmCertStoreB64Value = vs := by
    simp only [vs, b64_value_eq]
  rw [decode_b64_eq, hvalues]
  dsimp only
  rw [length_bytes]
  exact ⟨fun h => if_pos h, fun h => by rw [if_neg (by omega)]⟩

theorem hashcash_decode_sextets (text : CString) (outSize : ℕ) :
    let chars := unpadded text.bytes
    let vs := chars.filterMap charValue
    let o := wmHashcashB64Decode text outSize
    ((∀ c ∈ chars, charValue c ≠ none) ∧ 6 * vs.length / 8 ≤ outSize →
        o = ⟨bytes vs, (6 * vs.length / 8 : ℕ)⟩) ∧
      ((∃ c ∈ chars, charValue c = none) ∨ outSize < 6 * vs.length / 8 → o.ret = -1) := by
  intro chars vs o
  have hdecodes := hashcash_b64_decode text outSize
  constructor
  · rintro ⟨hall, hfits⟩
    rw [← length_bytes] at hfits ⊢
    exact hdecodes.fits vs (textValues_some hall) hfits
  · intro hbad
    apply hdecodes.fails
    intro ws hws
    by_cases hnone : ∃ c ∈ chars, charValue c = none
    · obtain ⟨c, hc, hc'⟩ := hnone
      rw [textValues_none hc hc'] at hws
      cases hws
    · have hlong := hbad.resolve_left hnone
      have hall : ∀ c ∈ chars, charValue c ≠ none := fun c hc hc' => hnone ⟨c, hc, hc'⟩
      obtain rfl := Option.some.inj ((textValues_some hall).symm.trans hws)
      rwa [List.nil_append, length_bytes]

/-- Each decoder gives the leading bytes of its characters' values, or its own report of a
failure; on a standard text that fits both they agree. The returned `int` of the one is
exact wherever text and buffer lie side by side in memory. -/
theorem decoders_agree :
    (∀ (text : List UInt8) (outCap : ℕ),
      let vs := text.filterMap stdValue
      (6 * vs.length / 8 ≤ outCap →
          wmCertStoreDecodeB64 text outCap = ⟨bytes vs, 6 * vs.length / 8⟩) ∧
        (outCap < 6 * vs.length / 8 → (wmCertStoreDecodeB64 text outCap).len = 0)) ∧
    (∀ (text : CString) (outSize : ℕ),
      let chars := unpadded text.bytes
      let vs := chars.filterMap charValue
      let o := wmHashcashB64Decode text outSize
      ((∀ c ∈ chars, charValue c ≠ none) ∧ 6 * vs.length / 8 ≤ outSize →
          o = ⟨bytes vs, (6 * vs.length / 8 : ℕ)⟩) ∧
        ((∃ c ∈ chars, charValue c = none) ∨ outSize < 6 * vs.length / 8 → o.ret = -1) ∧
        (text.bytes.length + outSize < 2 ^ 32 → o.out.length < 2 ^ 31)) ∧
    ∀ (vs : List ℕ) (n : ℕ) (text : CString) (outCap outSize : ℕ), (∀ v ∈ vs, v < 64) →
      text.bytes = vs.map char ++ List.replicate n 61 →
      6 * vs.length / 8 ≤ outCap → 6 * vs.length / 8 ≤ outSize →
      wmCertStoreDecodeB64 text.bytes outCap = ⟨bytes vs, 6 * vs.length / 8⟩ ∧
        wmHashcashB64Decode text outSize = ⟨bytes vs, (6 * vs.length / 8 : ℕ)⟩ := by
  refine ⟨b64_decode_sextets, fun text outSize => ?_, ?_⟩
  · obtain ⟨hfits, hfails⟩ := hashcash_decode_sextets text outSize
    exact ⟨hfits, hfails, hashcash_decode_int text outSize⟩
  · intro vs n text outCap outSize hvs htext hcap hsize
    constructor
    · have hdecode := decode_b64_eq text.bytes outCap
      rw [htext, b64_values_text hvs] at hdecode
      dsimp only at hdecode
      rwa [length_bytes, if_pos hcap, ← htext] at hdecode
    · have hvalues := textValues_spells (spells_char hvs) n
      rw [← htext] at hvalues
      have hdecode := (hashcash_b64_decode text outSize).fits vs hvalues (by simpa using hsize)
      rwa [List.nil_append, length_bytes] at hdecode

end Decoders

section RoundTrip

/-- A group is stored only where it ends in front of the end of the buffer. -/
theorem encode_loop_frame (outSize : ℕ) (data : List UInt8) (used : ℕ) (out : Mem) {i : ℕ}
    (hi : outSize ≤ i) : (wmHashcashB64EncodeLoop outSize data used out).out i = out i := by
  induction hlen : data.length using Nat.strong_induction_on generalizing data used out with
  | _ n ih =>
  subst hlen
  cases data with
  | nil =>
    rw [wmHashcashB64EncodeLoop]
    split_ifs with hfull
    · rfl
    · exact store_outside out used [0] (.inr (by simp only [List.length_singleton]; omega))
  | cons a rest =>
    rw [encode_turn]
    dsimp only
    split_ifs with hfull
    · rfl
    · have hshort : (rest.drop 2).length < (a :: rest).length := by
        rw [List.length_drop, List.length_cons]
        omega
      rw [ih _ hshort _ _ _ rfl]
      exact store_outside out used _ (.inr (by omega))

/-- The encoder writes its text exactly where that and a NUL fit, the decoder takes the
text in either alphabet back to the data, and neither goes beyond its buffer. -/
theorem base64url_round_trip (b : List UInt8) :
    (∀ (out : Mem) (outSize : UInt32),
      let e := wmHashcashB64Encode b out outSize
      (e.ret = true ↔ (4 * b.length + 2) / 3 + 1 ≤ outSize.toNat) ∧
        (e.ret = true → e.out = store out 0 (urlText b ++ [0])) ∧
        ∀ i, outSize.toNat ≤ i → e.out i = out i) ∧
    (∀ (text : CString) (chars : List UInt8) (n outSize : ℕ),
      chars.map urlForm = urlText b → text.bytes = chars ++ List.replicate n 61 →
      let d := wmHashcashB64Decode text outSize
      (b.length ≤ outSize → d = ⟨b, b.length⟩) ∧ (outSize < b.length → d.ret = -1)) ∧
    ∀ (text : CString) (outSize : ℕ), (wmHashcashB64Decode text outSize).out.length ≤ outSize := by
  refine ⟨fun out outSize => ?_, ?_, hashcash_decode_le⟩
  · have hencodes := hashcash_b64_encode b out outSize
    have hlen := length_urlText b
    refine ⟨?_, ?_, fun i hi => encode_loop_frame outSize.toNat b 0 out hi⟩
    · constructor
      · intro hret
        by_contra hshort
        rw [hencodes.fails (by omega)] at hret
        cases hret
      · intro hroom
        rw [hencodes.fits (by omega)]
    · intro hret
      have hroom : 0 + (urlText b).length < outSize.toNat := by
        by_contra hshort
        rw [hencodes.fails (by omega)] at hret
        cases hret
      rw [hencodes.fits hroom]
  · intro text chars n outSize hform htext d
    have hspells := spells_urlForm (sextets_lt b) hform
    have hdecode : decode text.bytes = some b := by
      rw [decode, htext, textValues_spells hspells, Option.map_some, bytes_sextets]
    constructor
    · exact hashcash_decode_fits hdecode
    · intro hshort
      apply hashcash_decode_fails
      rintro bs hbs
      obtain rfl := Option.some.inj (hdecode.symm.trans hbs)
      exact hshort

end RoundTrip

end BearTLS
