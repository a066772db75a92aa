import BearTLS.Lib.Base64
import BearTLS.Model.Hashcash

/-! The texts of the proof of work: its base64 decoder and encoder, and its
big-endian words. -/

namespace BearTLS

open Base64 Memory Radix

section Words

theorem byte_of_and (v : UInt32) : (v &&& 0xff).toUInt8 = (v.toNat % 256).toUInt8 := by
  have hand : (v &&& 0xff).toNat = v.toNat % 256 := by
    rw [UInt32.toNat_and]
    exact Nat.and_two_pow_sub_one_eq_mod _ 8
  apply UInt8.toNat_inj.mp
  rw [UInt32.toNat_toUInt8, hand]
  rfl

theorem store_be32_eq (v : UInt32) : wmHashcashStoreBe32 v = toBytes 4 v.toNat := by
  have hshift : ∀ k : UInt32, (v >>> k).toNat = v.toNat / 2 ^ (k.toNat % 32) := by
    intro k
    rw [UInt32.toNat_shiftRight, Nat.shiftRight_eq_div_pow]
  have h24 : (v >>> 24).toNat = v.toNat / 256 / 256 / 256 := by
    rw [hshift, Nat.div_div_eq_div_mul, Nat.div_div_eq_div_mul]
    rfl
  have h16 : (v >>> 16).toNat = v.toNat / 256 / 256 := by
    rw [hshift, Nat.div_div_eq_div_mul]
    rfl
  have h8 : (v >>> 8).toNat = v.toNat / 256 := hshift 8
  rw [wmHashcashStoreBe32, byte_of_and, byte_of_and, byte_of_and, byte_of_and, h24, h16, h8]
  rfl

theorem byte_shift (b : UInt8) {k : UInt32} (hk : k.toNat ≤ 24) :
    (b.toUInt32 <<< k).toNat = 2 ^ k.toNat * b.toNat := by
  have hmod : k.toNat % 32 = k.toNat := Nat.mod_eq_of_lt (by omega)
  have hpow : 2 ^ k.toNat * b.toNat < 2 ^ 32 := by
    calc 2 ^ k.toNat * b.toNat < 2 ^ k.toNat * 2 ^ 8 :=
          Nat.mul_lt_mul_of_pos_left b.toNat_lt (Nat.two_pow_pos _)
      _ = 2 ^ (k.toNat + 8) := (Nat.pow_add 2 _ 8).symm
      _ ≤ 2 ^ 32 := Nat.pow_le_pow_right (by omega) (by omega)
  rw [UInt32.toNat_shiftLeft, hmod, Nat.shiftLeft_eq, Nat.mul_comm]
  exact Nat.mod_eq_of_lt hpow

/-- Four bytes, put together from the top. -/
theorem word_of_bytes (a b c d : UInt8) :
    (a.toUInt32 <<< 24 ||| b.toUInt32 <<< 16 ||| c.toUInt32 <<< 8 ||| d.toUInt32).toNat =
      ((a.toNat * 256 + b.toNat) * 256 + c.toNat) * 256 + d.toNat := by
  have hb := b.toNat_lt
  have hc := c.toNat_lt
  have hd := d.toNat_lt
  have h24 : (a.toUInt32 <<< 24).toNat = 2 ^ 24 * a.toNat := byte_shift a (by decide)
  have h16 : (b.toUInt32 <<< 16).toNat = 2 ^ 16 * b.toNat := byte_shift b (by decide)
  have h8 : (c.toUInt32 <<< 8).toNat = 2 ^ 8 * c.toNat := byte_shift c (by decide)
  have hab : 2 ^ 24 * a.toNat ||| 2 ^ 16 * b.toNat = 2 ^ 16 * (a.toNat * 256 + b.toNat) := by
    rw [← Nat.two_pow_add_eq_or_of_lt (by omega)]
    omega
  have habc : 2 ^ 16 * (a.toNat * 256 + b.toNat) ||| 2 ^ 8 * c.toNat =
      2 ^ 8 * ((a.toNat * 256 + b.toNat) * 256 + c.toNat) := by
    rw [← Nat.two_pow_add_eq_or_of_lt (by omega)]
    omega
  rw [UInt32.toNat_or, UInt32.toNat_or, UInt32.toNat_or, h24, h16, h8, hab, habc,
    UInt8.toNat_toUInt32, ← Nat.two_pow_add_eq_or_of_lt (by omega)]
  omega

theorem load_be32_eq (bs : List UInt8) (h : 4 ≤ bs.length) :
    (wmHashcashLoadBe32 bs).toNat = ofBytes (bs.take 4) := by
  rcases bs with _ | ⟨a, _ | ⟨b, _ | ⟨c, _ | ⟨d, rest⟩⟩⟩⟩
  · simp at h
  · simp at h
  · simp at h
  · simp at h
  · have hbytes : ofBytes [a, b, c, d] =
        ((a.toNat * 256 + b.toNat) * 256 + c.toNat) * 256 + d.toNat := by
      simp only [ofBytes, List.map_cons, List.map_nil, value_cons, value_nil, List.length_cons,
        List.length_nil]
      omega
    exact (word_of_bytes a b c d).trans hbytes.symm

end Words

section Decode

/-- Both characters of a value are read as that value. -/
theorem from64_char {c : UInt8} {v : ℕ} (hv : v < 64) (h : char v = c ∨ urlChar v = c) :
    wmHashcashFrom64 c = some v := by
  have hall : ∀ v < 64, wmHashcashFrom64 (char v) = some v ∧
      wmHashcashFrom64 (urlChar v) = some v := by
    decide +kernel
  rcases h with rfl | rfl
  · exact (hall v hv).1
  · exact (hall v hv).2

/-- What is read as a value is one of its characters. -/
theorem char_of_from64 {c : UInt8} {v : ℕ} (h : wmHashcashFrom64 c = some v) :
    v < 64 ∧ (char v = c ∨ urlChar v = c) := by
  have hall : ∀ n < 256, ∀ v ∈ wmHashcashFrom64 n.toUInt8,
      v < 64 ∧ (char v = n.toUInt8 ∨ urlChar v = n.toUInt8) := by
    decide +kernel
  have hback : c.toNat.toUInt8 = c := UInt8.ofNat_toNat
  have hc := hall c.toNat c.toNat_lt
  rw [hback] at hc
  exact hc v h

theorem from64_eq (c : UInt8) : wmHashcashFrom64 c = charValue c := by
  cases hval : charValue c with
  | none =>
    refine Option.eq_none_iff_forall_ne_some.mpr fun v hv => ?_
    obtain ⟨hlt, hchar⟩ := char_of_from64 hv
    have hnot := List.find?_eq_none.mp hval v (List.mem_range.mpr hlt)
    exact hnot (by simpa using hchar)
  | some v =>
    have hchar := List.find?_some hval
    exact from64_char (charValue_lt hval) (by simpa using hchar)

/-- What the decoder makes of a text behind the values `vs`. -/
structure DecodesTo (outSize : ℕ) (vs : List ℕ) (text : List UInt8) (o : HashcashB64Out) :
    Prop where
  fits : ∀ ws, textValues text = some ws → (bytes (vs ++ ws)).length ≤ outSize →
    o = ⟨bytes (vs ++ ws), (bytes (vs ++ ws)).length⟩
  fails : (∀ ws, textValues text = some ws → outSize < (bytes (vs ++ ws)).length) → o.ret = -1

theorem DecodesTo.stop {outSize : ℕ} {vs : List ℕ} {text : List UInt8}
    (hsize : (bytes vs).length ≤ outSize) (h : textValues text = some []) :
    DecodesTo outSize vs text ⟨bytes vs, (bytes vs).length⟩ where
  fits ws hws _ := by
    obtain rfl : [] = ws := Option.some.inj (h.symm.trans hws)
    rw [List.append_nil]
  fails hlong := by
    have := hlong [] h
    rw [List.append_nil] at this
    omega

theorem DecodesTo.next {outSize : ℕ} {vs : List ℕ} {c : UInt8} {rest : List UInt8} {v : ℕ}
    {o : HashcashB64Out} (hc : c ≠ 61) (hv : charValue c = some v)
    (h : DecodesTo outSize (vs ++ [v]) rest o) : DecodesTo outSize vs (c :: rest) o := by
  have hvalues : textValues (c :: rest) = (textValues rest).map (v :: ·) := by
    rw [textValues, if_neg hc, hv]
    cases textValues rest <;> rfl
  have hcons : ∀ ws, vs ++ [v] ++ ws = vs ++ v :: ws := fun ws => by simp
  constructor
  · intro ws hws hle
    rw [hvalues] at hws
    obtain ⟨ws, hrest, rfl⟩ := Option.map_eq_some_iff.mp hws
    rw [← hcons] at hle ⊢
    exact h.fits ws hrest hle
  · intro hlong
    apply h.fails
    intro ws hws
    rw [hcons]
    exact hlong (v :: ws) (by rw [hvalues, hws, Option.map_some])

/-- The loop, from any prefix on: `vs` are the values read so far. -/
theorem hashcash_decode_loop (outSize : ℕ) (text : List UInt8) (vs : List ℕ) {bitbuf : UInt32}
    (hbuf : bitbuf.toNat = value 64 vs % 2 ^ 32) (hsize : (bytes vs).length ≤ outSize) :
    DecodesTo outSize vs text
      (wmHashcashB64DecodeLoop outSize text bitbuf (6 * vs.length % 8) (bytes vs)) := by
  induction text generalizing vs bitbuf with
  | nil => exact .stop hsize rfl
  | cons c rest ih =>
    rw [wmHashcashB64DecodeLoop]
    by_cases heq : c = 61
    · rw [if_pos heq]
      exact .stop hsize (by rw [textValues, if_pos heq])
    rw [if_neg heq, from64_eq]
    cases hv : charValue c with
    | none =>
      refine ⟨fun ws hws => ?_, fun _ => rfl⟩
      rw [textValues, if_neg heq, hv] at hws
      cases hws
    | some v =>
      have hlt := charValue_lt hv
      have hbuf' := acc_snoc hlt hbuf
      dsimp only
      by_cases hbits : 6 * vs.length % 8 + 6 ≥ 8
      · obtain ⟨hrest, hstep⟩ := step_emit hlt hbits hbuf'
        rw [if_pos hbits, ← hstep, hrest]
        by_cases hfull : (bytes vs).length ≥ outSize
        · -- the byte that does not fit
          rw [if_pos hfull]
          refine .next heq hv ⟨fun ws hws hle => ?_, fun _ => rfl⟩
          have hpre := (bytes_prefix_append (vs ++ [v]) (textValues_lt hws)).length_le
          rw [hstep, List.length_append, List.length_singleton] at hpre
          omega
        · rw [if_neg hfull]
          apply DecodesTo.next heq hv (ih (vs ++ [v]) hbuf' _)
          rw [hstep, List.length_append, List.length_singleton]
          omega
      · obtain ⟨hrest, hstep⟩ := step_keep hlt (Nat.not_le.mp hbits)
        rw [if_neg hbits, hrest, ← hstep]
        exact .next heq hv (ih (vs ++ [v]) hbuf' (hstep ▸ hsize))

theorem hashcash_b64_decode (text : CString) (outSize : ℕ) :
    DecodesTo outSize [] text.bytes (wmHashcashB64Decode text outSize) :=
  hashcash_decode_loop outSize text.bytes [] rfl (Nat.zero_le _)

theorem hashcash_decode_fits {text : CString} {outSize : ℕ} {bs : List UInt8}
    (h : decode text.bytes = some bs) (hle : bs.length ≤ outSize) :
    wmHashcashB64Decode text outSize = ⟨bs, bs.length⟩ := by
  obtain ⟨vs, hvs, rfl⟩ := Option.map_eq_some_iff.mp h
  exact (hashcash_b64_decode text outSize).fits vs hvs hle

/-- The decoder reports a text that is not base64, or whose bytes do not fit. -/
theorem hashcash_decode_fails {text : CString} {outSize : ℕ}
    (h : ∀ bs, decode text.bytes = some bs → outSize < bs.length) :
    (wmHashcashB64Decode text outSize).ret = -1 := by
  apply (hashcash_b64_decode text outSize).fails
  intro vs hvs
  exact h (bytes vs) (by rw [decode, hvs, Option.map_some])

end Decode

section Encode

theorem alphabet_eq {v : ℕ} (hv : v < 64) : alphabet.getD v 0 = urlChar v := by
  have hall : ∀ v < 64, alphabet.getD v 0 = urlChar v := by decide +kernel
  exact hall v hv

/-- The character at one of the four places of a group. -/
theorem group_char (value : UInt32) {k : ℕ} (hk : k ≤ 3) :
    alphabet.getD ((value >>> (18 - k * 6).toUInt32) &&& 0x3f).toNat 0 =
      urlChar (value.toNat / 2 ^ (18 - k * 6) % 64) := by
  have hsh : (18 - k * 6).toUInt32.toNat % 32 = 18 - k * 6 := by
    have : (18 - k * 6).toUInt32.toNat = 18 - k * 6 := Nat.mod_eq_of_lt (by omega)
    omega
  have hand : ((value >>> (18 - k * 6).toUInt32) &&& 0x3f).toNat =
      value.toNat / 2 ^ (18 - k * 6) % 64 := by
    rw [UInt32.toNat_and, UInt32.toNat_shiftRight, hsh, Nat.shiftRight_eq_div_pow]
    exact Nat.and_two_pow_sub_one_eq_mod _ 6
  rw [hand, alphabet_eq (Nat.mod_lt _ (by omega))]

theorem group_value (a b c : UInt8) :
    (a.toUInt32 <<< 16 ||| b.toUInt32 <<< 8 ||| c.toUInt32).toNat =
      (a.toNat * 256 + b.toNat) * 256 + c.toNat := by
  have h := word_of_bytes 0 a b c
  have hzero : (0 : UInt8).toUInt32 <<< 24 = 0 := rfl
  rw [hzero, UInt32.zero_or] at h
  rw [h]
  simp

/-- The four characters of a group. -/
theorem group_text (a b c : UInt8) :
    (List.range 4).map (fun k => alphabet.getD
      (((a.toUInt32 <<< 16 ||| b.toUInt32 <<< 8 ||| c.toUInt32) >>> (18 - k * 6).toUInt32) &&&
        0x3f).toNat 0) =
      [a.toNat / 4, a.toNat % 4 * 16 + b.toNat / 16, b.toNat % 16 * 4 + c.toNat / 64,
        c.toNat % 64].map urlChar := by
  have ha := a.toNat_lt
  have hb := b.toNat_lt
  have hc := c.toNat_lt
  have hrange : List.range 4 = [0, 1, 2, 3] := rfl
  set v := (a.toNat * 256 + b.toNat) * 256 + c.toNat with hv
  have h₀ : v / 2 ^ (18 - 0 * 6) % 64 = a.toNat / 4 := by omega
  have h₁ : v / 2 ^ (18 - 1 * 6) % 64 = a.toNat % 4 * 16 + b.toNat / 16 := by omega
  have h₂ : v / 2 ^ (18 - 2 * 6) % 64 = b.toNat % 16 * 4 + c.toNat / 64 := by omega
  have h₃ : v / 2 ^ (18 - 3 * 6) % 64 = c.toNat % 64 := by omega
  rw [hrange]
  simp only [List.map_cons, List.map_nil]
  rw [group_char _ (by omega), group_char _ (by omega), group_char _ (by omega),
    group_char _ (by omega), group_value, ← hv, h₀, h₁, h₂, h₃]

/-- What the encoder makes of data with the text `text`, behind `used` characters. -/
structure EncodesTo (outSize used : ℕ) (out : Mem) (text : List UInt8) (o : HashcashTextOut) :
    Prop where
  fits : used + text.length < outSize → o = ⟨true, store out used (text ++ [0])⟩
  fails : outSize ≤ used + text.length → o.ret = false

theorem EncodesTo.next {outSize used : ℕ} {out : Mem} {group text : List UInt8}
    {o : HashcashTextOut}
    (h : EncodesTo outSize (used + group.length) (store out used group) text o) :
    EncodesTo outSize used out (group ++ text)
      (if used + group.length ≥ outSize then ⟨false, out⟩ else o) := by
  constructor
  · intro hlt
    rw [List.length_append] at hlt
    rw [if_neg (by omega), h.fits (by omega), store_append, List.append_assoc]
  · intro hle
    rw [List.length_append] at hle
    split_ifs
    · rfl
    · exact h.fails (by omega)

/-- The first characters of a group. -/
theorem group_text_take (a b c : UInt8) {n : ℕ} (hn : n ≤ 4) :
    (List.range n).map (fun k => alphabet.getD
      (((a.toUInt32 <<< 16 ||| b.toUInt32 <<< 8 ||| c.toUInt32) >>> (18 - k * 6).toUInt32) &&&
        0x3f).toNat 0) =
      ([a.toNat / 4, a.toNat % 4 * 16 + b.toNat / 16, b.toNat % 16 * 4 + c.toNat / 64,
        c.toNat % 64].map urlChar).take n := by
  rw [← group_text, ← List.map_take, List.take_range, Nat.min_eq_left hn]

/-- One turn of the loop stores the text of at most three bytes. -/
theorem encode_turn (outSize : ℕ) (a : UInt8) (rest : List UInt8) (used : ℕ) (out : Mem) :
    wmHashcashB64EncodeLoop outSize (a :: rest) used out =
      let group := urlText (a :: rest.take 2)
      if used + group.length ≥ outSize then ⟨false, out⟩
      else wmHashcashB64EncodeLoop outSize (rest.drop 2) (used + group.length)
        (store out used group) := by
  rw [wmHashcashB64EncodeLoop]
  rcases rest with _ | ⟨b, _ | ⟨c, rest⟩⟩
  · have hgroup := group_text_take a 0 0 (show 2 ≤ 4 by omega)
    rw [show (0 : UInt8).toUInt32 = 0 from rfl, UInt32.zero_shiftLeft, UInt32.or_zero,
      UInt32.or_zero] at hgroup
    simp only [List.length_nil, Nat.zero_add, gt_iff_lt, Nat.lt_irrefl, Nat.reduceLT, if_false,
      ge_iff_le, Nat.reduceLeDiff, Nat.reduceAdd, hgroup]
    rfl
  · have hgroup := group_text_take a b 0 (show 3 ≤ 4 by omega)
    rw [show (0 : UInt8).toUInt32 = 0 from rfl, UInt32.or_zero] at hgroup
    simp only [List.length_cons, List.length_nil, Nat.zero_add, gt_iff_lt, Nat.lt_irrefl,
      Nat.reduceLT, if_false, if_true, ge_iff_le, Nat.reduceLeDiff, Nat.reduceAdd,
      List.getD_cons_zero, hgroup]
    rfl
  · have hgroup := group_text_take a b c (Nat.le_refl 4)
    have hone : rest.length + 1 + 1 + 1 > 1 := by omega
    have htwo : rest.length + 1 + 1 + 1 > 2 := by omega
    have hthree : rest.length + 1 + 1 + 1 ≥ 3 := by omega
    simp only [List.length_cons, if_pos hone, if_pos htwo, if_pos hthree, List.getD_cons_zero,
      List.getD_cons_succ, hgroup]
    rfl

theorem urlText_cons (a : UInt8) (rest : List UInt8) :
    urlText (a :: rest) = urlText (a :: rest.take 2) ++ urlText (rest.drop 2) := by
  rcases rest with _ | ⟨b, _ | ⟨c, rest⟩⟩
  · rfl
  · rfl
  · rfl

/-- The loop, behind the text that is already stored. -/
theorem encode_loop (outSize : ℕ) (data : List UInt8) (used : ℕ) (out : Mem) :
    EncodesTo outSize used out (urlText data) (wmHashcashB64EncodeLoop outSize data used out) := by
  induction hlen : data.length using Nat.strong_induction_on generalizing data used out with
  | _ n ih =>
  subst hlen
  cases data with
  | nil =>
    rw [wmHashcashB64EncodeLoop]
    split_ifs with hfull
    · refine ⟨fun hlt => ?_, fun _ => rfl⟩
      exact absurd hlt (Nat.not_lt.mpr hfull)
    · refine ⟨fun _ => rfl, fun hle => ?_⟩
      exact absurd hle hfull
  | cons a rest =>
    rw [encode_turn, urlText_cons]
    apply EncodesTo.next
    apply ih _ _ _ _ _ rfl
    rw [List.length_drop, List.length_cons]
    omega

/-- The encoder writes the text and a NUL where both fit. -/
theorem hashcash_b64_encode (data : List UInt8) (out : Mem) (outSize : UInt32) :
    EncodesTo outSize.toNat 0 out (urlText data) (wmHashcashB64Encode data out outSize) :=
  encode_loop outSize.toNat data 0 out

end Encode

end BearTLS
