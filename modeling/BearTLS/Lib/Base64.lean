import BearTLS.Lib.Radix

/-! Base64: the 6-bit values of a byte string, the bytes of a sequence of 6-bit
values, the standard texts, and decoders that keep 32 bits of the input. -/

namespace Base64

open Radix

/-- The 6-bit groups of a byte string, the last one filled up with zeros. -/
def sextets : List UInt8 → List ℕ
  | a :: b :: c :: rest =>
    [a.toNat / 4, a.toNat % 4 * 16 + b.toNat / 16, b.toNat % 16 * 4 + c.toNat / 64,
      c.toNat % 64] ++ sextets rest
  | [a, b] => [a.toNat / 4, a.toNat % 4 * 16 + b.toNat / 16, b.toNat % 16 * 4]
  | [a] => [a.toNat / 4, a.toNat % 4 * 16]
  | [] => []

/-- The leading bytes of the concatenated 6-bit values. -/
def bytes (vs : List ℕ) : List UInt8 :=
  toBytes (6 * vs.length / 8) (value 64 vs / 2 ^ (6 * vs.length % 8))

/-- The characters of RFC 4648, section 4. -/
def char (v : ℕ) : UInt8 :=
  if v < 26 then (65 + v).toUInt8
  else if v < 52 then (97 + (v - 26)).toUInt8
  else if v < 62 then (48 + (v - 52)).toUInt8
  else if v = 62 then 43 else 47

def encode (bs : List UInt8) : List UInt8 :=
  (sextets bs).map char ++ List.replicate ((3 - bs.length % 3) % 3) 61

/-- The characters of RFC 4648, section 5. -/
def urlChar (v : ℕ) : UInt8 := if v = 62 then 45 else if v = 63 then 95 else char v

/-- The text of section 5, without padding. -/
def urlText (bs : List UInt8) : List UInt8 := (sextets bs).map urlChar

/-- A character of section 4 as section 5 has it. -/
def urlForm (c : UInt8) : UInt8 := if c = 43 then 45 else if c = 47 then 95 else c

/-- The value of a character of section 4. -/
def stdValue (c : UInt8) : Option ℕ := (List.range 64).find? fun v => char v = c

/-- The value of a character of either section. -/
def charValue (c : UInt8) : Option ℕ := (List.range 64).find? fun v => char v = c ∨ urlChar v = c

/-- The characters in front of the first `=`. -/
def unpadded (text : List UInt8) : List UInt8 := text.takeWhile (· ≠ 61)

/-- The values of a text up to its first `=`, where all its characters have one. -/
def textValues : List UInt8 → Option (List ℕ)
  | [] => some []
  | c :: rest =>
    if c = 61 then some []
    else
      match charValue c, textValues rest with
      | some v, some vs => some (v :: vs)
      | _, _ => none

def decode (text : List UInt8) : Option (List UInt8) := (textValues text).map bytes

@[simp] theorem length_bytes (vs : List ℕ) : (bytes vs).length = 6 * vs.length / 8 :=
  length_toBytes

theorem stdValue_lt {c : UInt8} {v : ℕ} (h : stdValue c = some v) : v < 64 :=
  List.mem_range.mp (List.mem_of_find?_eq_some h)

theorem charValue_lt {c : UInt8} {v : ℕ} (h : charValue c = some v) : v < 64 :=
  List.mem_range.mp (List.mem_of_find?_eq_some h)

theorem textValues_lt {text : List UInt8} {vs : List ℕ} (h : textValues text = some vs) :
    ∀ v ∈ vs, v < 64 := by
  induction text generalizing vs with
  | nil =>
    obtain rfl := Option.some.inj h
    exact fun v hv => absurd hv List.not_mem_nil
  | cons c rest ih =>
    rw [textValues] at h
    split_ifs at h with hend
    · obtain rfl := Option.some.inj h
      exact fun v hv => absurd hv List.not_mem_nil
    · cases hc : charValue c with
      | none =>
        rw [hc] at h
        cases h
      | some v =>
        cases hrest : textValues rest with
        | none =>
          rw [hc, hrest] at h
          cases h
        | some ws =>
          rw [hc, hrest] at h
          obtain rfl := Option.some.inj h
          intro w hw
          rcases List.mem_cons.mp hw with rfl | hw
          · exact charValue_lt hc
          · exact ih hrest w hw

theorem unpadded_cons {c : UInt8} {rest : List UInt8} (h : c ≠ 61) :
    unpadded (c :: rest) = c :: unpadded rest :=
  List.takeWhile_cons_of_pos (by simpa using h)

theorem textValues_some {text : List UInt8} (h : ∀ c ∈ unpadded text, charValue c ≠ none) :
    textValues text = some ((unpadded text).filterMap charValue) := by
  induction text with
  | nil => rfl
  | cons c rest ih =>
    rw [textValues]
    by_cases hend : c = 61
    · rw [if_pos hend, unpadded, List.takeWhile_cons_of_neg (by simpa using hend)]
      rfl
    · rw [unpadded_cons hend] at h ⊢
      obtain ⟨v, hv⟩ := Option.ne_none_iff_exists'.mp (h c List.mem_cons_self)
      rw [if_neg hend, hv, ih fun x hx => h x (List.mem_cons_of_mem _ hx),
        List.filterMap_cons_some hv]

theorem textValues_none {text : List UInt8} {c : UInt8} (hc : c ∈ unpadded text)
    (h : charValue c = none) : textValues text = none := by
  induction text with
  | nil => exact absurd hc List.not_mem_nil
  | cons b rest ih =>
    rw [textValues]
    by_cases hend : b = 61
    · rw [unpadded, List.takeWhile_cons_of_neg (by simpa using hend)] at hc
      exact absurd hc List.not_mem_nil
    · rw [unpadded_cons hend] at hc
      rw [if_neg hend]
      rcases List.mem_cons.mp hc with rfl | hrest
      · rw [h]
      · rw [ih hrest]
        cases charValue b <;> rfl

/-- Each value is written with its character of either section. -/
def Spells : List UInt8 → List ℕ → Prop :=
  List.Forall₂ fun c v => v < 64 ∧ (char v = c ∨ urlChar v = c)

theorem charValue_of {c : UInt8} {v : ℕ} (hv : v < 64) (h : char v = c ∨ urlChar v = c) :
    charValue c = some v ∧ c ≠ 61 := by
  have hall : ∀ v < 64, (charValue (char v) = some v ∧ char v ≠ 61) ∧
      charValue (urlChar v) = some v ∧ urlChar v ≠ 61 := by
    decide +kernel
  rcases h with rfl | rfl
  · exact (hall v hv).1
  · exact (hall v hv).2

/-- Padding ends the text. -/
theorem textValues_spells {chars : List UInt8} {vs : List ℕ} (h : Spells chars vs) (n : ℕ) :
    textValues (chars ++ List.replicate n 61) = some vs := by
  induction h with
  | nil =>
    cases n with
    | zero => rfl
    | succ n =>
      rw [List.nil_append, List.replicate_succ, textValues]
      exact if_pos rfl
  | cons hc _ ih =>
    obtain ⟨hvalue, hpad⟩ := charValue_of hc.1 hc.2
    rw [List.cons_append, textValues, if_neg hpad, hvalue, ih]

theorem spells_char {vs : List ℕ} (h : ∀ v ∈ vs, v < 64) : Spells (vs.map char) vs := by
  rw [Spells, List.forall₂_map_left_iff, List.forall₂_same]
  exact fun v hv => ⟨h v hv, .inl rfl⟩

theorem sextets_lt (bs : List UInt8) : ∀ v ∈ sextets bs, v < 64 := by
  fun_induction sextets bs with
  | case1 a b c rest ih =>
    have ha := a.toNat_lt
    have hb := b.toNat_lt
    have hc := c.toNat_lt
    simp only [List.mem_append, List.mem_cons, List.not_mem_nil, or_false]
    rintro v ((rfl | rfl | rfl | rfl) | hv)
    · omega
    · omega
    · omega
    · omega
    · exact ih v hv
  | case2 a b =>
    have ha := a.toNat_lt
    have hb := b.toNat_lt
    simp only [List.mem_cons, List.not_mem_nil, or_false]
    rintro v (rfl | rfl | rfl) <;> omega
  | case3 a =>
    have ha := a.toNat_lt
    simp only [List.mem_cons, List.not_mem_nil, or_false]
    rintro v (rfl | rfl) <;> omega
  | case4 =>
    intro v hv
    exact absurd hv List.not_mem_nil

/-- A text of either section, or of both mixed, spells the values of its url form. -/
theorem spells_urlForm {chars : List UInt8} {vs : List ℕ} (h : ∀ v ∈ vs, v < 64)
    (hform : chars.map urlForm = vs.map urlChar) : Spells chars vs := by
  have hdash : ∀ v < 64, urlChar v = 45 → char v = 43 := by decide
  have hline : ∀ v < 64, urlChar v = 95 → char v = 47 := by decide
  induction vs generalizing chars with
  | nil =>
    obtain rfl := List.map_eq_nil_iff.mp hform
    exact .nil
  | cons v vs ih =>
    obtain ⟨c, rest, rfl, hc, hrest⟩ := List.map_eq_cons_iff.mp hform
    have hv := h v List.mem_cons_self
    refine .cons ⟨hv, ?_⟩ (ih (fun w hw => h w (List.mem_cons_of_mem _ hw)) hrest)
    rw [urlForm] at hc
    split_ifs at hc with hplus hslash
    · exact .inl ((hdash v hv hc.symm).trans hplus.symm)
    · exact .inl ((hline v hv hc.symm).trans hslash.symm)
    · exact .inr hc.symm

theorem length_sextets (bs : List UInt8) : (sextets bs).length = (4 * bs.length + 2) / 3 := by
  fun_induction sextets bs with
  | case1 a b c rest ih =>
    simp only [List.length_append, List.length_cons, List.length_nil, ih]
    omega
  | case2 a b => simp only [List.length_cons, List.length_nil]
  | case3 a => simp only [List.length_cons, List.length_nil]
  | case4 => rfl

theorem length_urlText (bs : List UInt8) : (urlText bs).length = (4 * bs.length + 2) / 3 := by
  rw [urlText, List.length_map, length_sextets]

theorem pow_sextets {m n r : ℕ} (h : 6 * m = 8 * n + r) : 64 ^ m = 256 ^ n * 2 ^ r := by
  have h64 : (64 : ℕ) = 2 ^ 6 := rfl
  have h256 : (256 : ℕ) = 2 ^ 8 := rfl
  rw [h64, h256, ← Nat.pow_mul, ← Nat.pow_mul, ← Nat.pow_add, h]

/-- The bits of the bytes, and less than 8 zeros behind them. -/
theorem value_sextets (bs : List UInt8) : ∃ r < 8,
    6 * (sextets bs).length = 8 * bs.length + r ∧
      value 64 (sextets bs) = ofBytes bs * 2 ^ r := by
  fun_induction sextets bs with
  | case1 a b c rest ih =>
    obtain ⟨r, hr, hlen, hval⟩ := ih
    refine ⟨r, hr, ?_, ?_⟩
    · simp only [List.length_append, List.length_cons, List.length_nil] at hlen ⊢
      omega
    · have hgroup : value 64 [a.toNat / 4, a.toNat % 4 * 16 + b.toNat / 16,
          b.toNat % 16 * 4 + c.toNat / 64, c.toNat % 64] = ofBytes [a, b, c] := by
        have ha := a.toNat_lt
        have hb := b.toNat_lt
        have hc := c.toNat_lt
        simp only [ofBytes, List.map_cons, List.map_nil, value_cons, value_nil, List.length_cons,
          List.length_nil]
        omega
      have hsplit : ofBytes (a :: b :: c :: rest) =
          ofBytes [a, b, c] * 256 ^ rest.length + ofBytes rest := ofBytes_append [a, b, c] rest
      rw [value_append, hgroup, hval, hsplit, pow_sextets hlen]
      ring
  | case2 a b =>
    have ha := a.toNat_lt
    have hb := b.toNat_lt
    refine ⟨2, by omega, rfl, ?_⟩
    simp only [ofBytes, List.map_cons, List.map_nil, value_cons, value_nil, List.length_cons,
      List.length_nil]
    omega
  | case3 a =>
    have ha := a.toNat_lt
    refine ⟨4, by omega, rfl, ?_⟩
    simp only [ofBytes, List.map_cons, List.map_nil, value_cons, value_nil, List.length_cons,
      List.length_nil]
    omega
  | case4 => exact ⟨0, by omega, rfl, rfl⟩

theorem bytes_sextets (bs : List UInt8) : bytes (sextets bs) = bs := by
  obtain ⟨r, hr, hlen, hval⟩ := value_sextets bs
  have hdiv : 6 * (sextets bs).length / 8 = bs.length := by omega
  have hmod : 6 * (sextets bs).length % 8 = r := by omega
  rw [bytes, hdiv, hmod, hval, Nat.mul_div_cancel _ (Nat.two_pow_pos r), toBytes_ofBytes]

theorem length_encode_le (bs : List UInt8) : (encode bs).length ≤ 2 * bs.length + 4 := by
  obtain ⟨r, hr, hlen, -⟩ := value_sextets bs
  rw [encode, List.length_append, List.length_map, List.length_replicate]
  omega

/-- One more 6-bit value completes a byte, or it does not. -/
theorem bytes_snoc (vs : List ℕ) {v : ℕ} (hv : v < 64) :
    bytes (vs ++ [v]) = bytes vs ++
      if 6 * vs.length % 8 = 0 then []
      else [(value 64 (vs ++ [v]) / 2 ^ (6 * (vs.length + 1) % 8) % 256).toUInt8] := by
  have hlen : (vs ++ [v]).length = vs.length + 1 := List.length_append
  have hrest : (value 64 vs * 64 + v) / 64 = value 64 vs := by omega
  rw [bytes, hlen]
  split_ifs with h0
  · -- six bits are kept
    have hdiv : 6 * (vs.length + 1) / 8 = 6 * vs.length / 8 := by omega
    have hmod : 6 * (vs.length + 1) % 8 = 6 := by omega
    rw [hdiv, hmod, value_snoc, show (2 : ℕ) ^ 6 = 64 from rfl, hrest, List.append_nil, bytes, h0,
      Nat.pow_zero, Nat.div_one]
  · obtain ⟨k, hk⟩ : ∃ k, 6 * vs.length % 8 = k + 2 ∧ 6 * (vs.length + 1) % 8 = k :=
      ⟨6 * vs.length % 8 - 2, by omega, by omega⟩
    have hdiv : 6 * (vs.length + 1) / 8 = 6 * vs.length / 8 + 1 := by omega
    rw [hdiv, toBytes_succ, bytes, hk.1, hk.2, value_snoc, Nat.div_div_eq_div_mul]
    have hpow : 2 ^ k * 256 = 64 * 2 ^ (k + 2) := by rw [Nat.pow_add]; ring
    rw [hpow, ← Nat.div_div_eq_div_mul, hrest]

theorem bytes_prefix_append (vs : List ℕ) {ws : List ℕ} (h : ∀ w ∈ ws, w < 64) :
    bytes vs <+: bytes (vs ++ ws) := by
  induction ws generalizing vs with
  | nil => rw [List.append_nil]
  | cons w ws ih =>
    have hstep : bytes vs <+: bytes (vs ++ [w]) := by
      rw [bytes_snoc vs (h w List.mem_cons_self)]
      exact List.prefix_append _ _
    have hrest := ih (vs ++ [w]) fun x hx => h x (List.mem_cons_of_mem _ hx)
    rw [List.append_assoc, List.singleton_append] at hrest
    exact hstep.trans hrest

/-! The low bits of the concatenation, in a 32-bit accumulator. -/

section Accumulator

/-- The six new bits are below the shifted ones. -/
theorem acc_shift (acc : UInt32) {v : ℕ} (hv : v < 64) :
    ((acc <<< 6) ||| v.toUInt32).toNat = (acc.toNat * 64 + v) % 2 ^ 32 := by
  have hlow : v.toUInt32.toNat = v := Nat.mod_eq_of_lt (by omega)
  have hhigh : (acc <<< 6).toNat = 2 ^ 6 * (acc.toNat % 2 ^ 26) := by
    rw [UInt32.toNat_shiftLeft, Nat.shiftLeft_eq]
    change acc.toNat * 2 ^ 6 % 2 ^ 32 = _
    omega
  rw [UInt32.toNat_or, hlow, hhigh, ← Nat.two_pow_add_eq_or_of_lt (by omega)]
  omega

theorem acc_byte (acc : UInt32) {k : ℕ} (hk : k < 8) :
    ((acc >>> k.toUInt32) &&& 0xFF).toUInt8 = (acc.toNat / 2 ^ k % 256).toUInt8 := by
  have hsh : k.toUInt32.toNat % 32 = k := by
    have : k.toUInt32.toNat = k := Nat.mod_eq_of_lt (by omega)
    omega
  have hand : ((acc >>> k.toUInt32) &&& 0xFF).toNat = acc.toNat / 2 ^ k % 256 := by
    rw [UInt32.toNat_and, UInt32.toNat_shiftRight, hsh, Nat.shiftRight_eq_div_pow]
    exact Nat.and_two_pow_sub_one_eq_mod _ 8
  apply UInt8.toNat_inj.mp
  rw [UInt32.toNat_toUInt8, hand]
  rfl

/-- The low bits of the accumulator do not notice that it wraps. -/
theorem acc_bits (V : ℕ) {k : ℕ} (hk : k < 8) :
    V % 2 ^ 32 / 2 ^ k % 256 = V / 2 ^ k % 256 := by
  rw [← Nat.mod_mul_right_div_self, ← Nat.mod_mul_right_div_self, Nat.mod_mod_of_dvd]
  have hpow : 2 ^ k * 256 = 2 ^ (k + 8) := by rw [Nat.pow_add]
  rw [hpow]
  exact Nat.pow_dvd_pow 2 (by omega)

theorem acc_snoc {acc : UInt32} {vs : List ℕ} {v : ℕ} (hv : v < 64)
    (hacc : acc.toNat = value 64 vs % 2 ^ 32) :
    ((acc <<< 6) ||| v.toUInt32).toNat = value 64 (vs ++ [v]) % 2 ^ 32 := by
  rw [acc_shift acc hv, value_snoc, hacc]
  omega

/-- The byte that the loop writes. -/
theorem emitted_byte {acc : UInt32} {vs : List ℕ} {k : ℕ} (hk : k < 8)
    (hacc : acc.toNat = value 64 vs % 2 ^ 32) :
    ((acc >>> k.toUInt32) &&& 0xFF).toUInt8 = (value 64 vs / 2 ^ k % 256).toUInt8 := by
  rw [acc_byte acc hk, hacc, acc_bits _ hk]

/-- A value that completes no byte. -/
theorem step_keep {vs : List ℕ} {v : ℕ} (hv : v < 64) (hbits : 6 * vs.length % 8 + 6 < 8) :
    6 * vs.length % 8 + 6 = 6 * (vs ++ [v]).length % 8 ∧ bytes (vs ++ [v]) = bytes vs := by
  have hlen : (vs ++ [v]).length = vs.length + 1 := List.length_append
  refine ⟨by omega, ?_⟩
  rw [bytes_snoc vs hv, if_pos (by omega), List.append_nil]

/-- A value that completes a byte. -/
theorem step_emit {acc : UInt32} {vs : List ℕ} {v : ℕ} (hv : v < 64)
    (hbits : 8 ≤ 6 * vs.length % 8 + 6) (hacc : acc.toNat = value 64 (vs ++ [v]) % 2 ^ 32) :
    6 * vs.length % 8 + 6 - 8 = 6 * (vs ++ [v]).length % 8 ∧
      bytes (vs ++ [v]) = bytes vs ++
        [((acc >>> (6 * vs.length % 8 + 6 - 8).toUInt32) &&& 0xFF).toUInt8] := by
  have hlen : (vs ++ [v]).length = vs.length + 1 := List.length_append
  have hdrop : 6 * vs.length % 8 + 6 - 8 = 6 * (vs.length + 1) % 8 := by omega
  have hlt : 6 * (vs.length + 1) % 8 < 8 := Nat.mod_lt _ (by omega)
  refine ⟨by omega, ?_⟩
  rw [bytes_snoc vs hv, if_neg (by omega), hdrop, emitted_byte hlt hacc]

end Accumulator

end Base64
