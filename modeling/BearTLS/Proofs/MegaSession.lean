import BearTLS.Spec.Mega

/-! The session id that the tail of `wm_mega_rsa_decrypt_session` cuts out of what the
private operation leaves. -/

namespace BearTLS

open Memory Radix

section Stripping

/-- The bytes behind the zeros are as many as the function says. -/
theorem actual_len_spec (x : Mem) (start n : ℕ) :
    wmMegaActualLen x start n ≤ n ∧
      load x start n = List.replicate (n - wmMegaActualLen x start n) 0 ++
        load x (start + (n - wmMegaActualLen x start n)) (wmMegaActualLen x start n) ∧
      ∀ b ∈ (load x (start + (n - wmMegaActualLen x start n))
        (wmMegaActualLen x start n)).head?, b ≠ 0 := by
  induction n generalizing start with
  | zero => exact ⟨Nat.le_refl 0, rfl, by simp [wmMegaActualLen]⟩
  | succ n ih =>
    have hfirst : load x start (n + 1) = x start :: load x (start + 1) n := by
      rw [Nat.add_comm, load_add, load_one, List.singleton_append]
    rw [wmMegaActualLen]
    split_ifs with hzero
    · obtain ⟨hle, hload, hhead⟩ := ih (start + 1)
      generalize wmMegaActualLen x (start + 1) n = a at hle hload hhead ⊢
      have hpad : n + 1 - a = n - a + 1 := by omega
      have hstart : start + (n + 1 - a) = start + 1 + (n - a) := by omega
      refine ⟨by omega, ?_, hstart ▸ hhead⟩
      rw [hfirst, hload, hzero, hstart, hpad, List.replicate_succ, List.cons_append]
    · refine ⟨Nat.le_refl _, by simp, ?_⟩
      rw [Nat.sub_self, Nat.add_zero, hfirst]
      intro b hb
      obtain rfl := Option.some.inj hb
      exact hzero

/-- What the tail works on: the value of `x` without its zeros, at the front of `x`. -/
theorem actual_len_eq (x : Mem) (n : ℕ) :
    wmMegaActualLen x 0 n = significant (ofBytes (load x 0 n)) := by
  obtain ⟨-, hload, hhead⟩ := actual_len_spec x 0 n
  rw [hload, ofBytes_replicate_zero_append, significant_ofBytes hhead, length_load]

/-- The `memmove` to the front. -/
theorem moved_value (x : Mem) (n : ℕ) :
    let a := wmMegaActualLen x 0 n
    let x' := if a < n then store x 0 (load x (n - a) a) else x
    ofBytes (load x' 0 a) = ofBytes (load x 0 n) := by
  intro a x'
  obtain ⟨hle, hload, -⟩ := actual_len_spec x 0 n
  have hfront : load x' 0 a = load x (n - a) a := by
    unfold x'
    split_ifs with hlt
    · have hsame := load_store_same x 0 (load x (n - a) a)
      rwa [length_load] at hsame
    · rw [show n - a = 0 by omega]
  rw [hfront, hload, ofBytes_replicate_zero_append, Nat.zero_add]

end Stripping

section Copying

/-- The bytes are stored from the last one on. -/
theorem copy_loop_eq (x : Mem) (actualLen base sidLen i : ℕ) (sid : Mem) :
    wmMegaCopyLoop x actualLen base sidLen i sid = store sid 0 ((List.range i).map fun j =>
      if base + (sidLen - (j + 1)) ≥ actualLen then 0
      else x (actualLen - 1 - (base + (sidLen - (j + 1))))) := by
  induction i generalizing sid with
  | zero => simp [wmMegaCopyLoop]
  | succ i ih =>
    rw [wmMegaCopyLoop, ih, List.range_succ, List.map_append, ← store_append, List.length_map,
      List.length_range, Nat.zero_add]
    exact (store_comm sid 0 i _ _ (by simp)).symm

/-- Index arithmetic: the bytes that the loop stores lead the value, padded to `total`
bytes. -/
theorem leading_bytes (x : Mem) {actualLen total sidLen : ℕ} (ha : actualLen ≤ total)
    (hs : sidLen ≤ total) :
    ((List.range sidLen).map fun j =>
      if total - sidLen + (sidLen - (j + 1)) ≥ actualLen then 0
      else x (actualLen - 1 - (total - sidLen + (sidLen - (j + 1))))) =
      (List.replicate (total - actualLen) 0 ++ load x 0 actualLen).take sidLen := by
  apply List.ext_getElem
  · simp only [List.length_map, List.length_range, List.length_take, List.length_append,
      List.length_replicate, length_load]
    omega
  · intro j hj _
    rw [List.length_map, List.length_range] at hj
    rw [List.getElem_map, List.getElem_range, List.getElem_take]
    have hindex : total - sidLen + (sidLen - (j + 1)) = total - 1 - j := by omega
    rw [hindex]
    split_ifs with hpad
    · rw [List.getElem_append_left (by rw [List.length_replicate]; omega),
        List.getElem_replicate]
    · rw [List.getElem_append_right (by rw [List.length_replicate]; omega)]
      simp only [load, List.getElem_map, List.getElem_range, List.length_replicate, Nat.zero_add]
      congr 1
      omega

end Copying

/-- The session id is the front of the plaintext, as long as the modulus without two
bytes, or longer where the plaintext is. -/
theorem session_id_exact (x : Mem) (plen qlen sidLen : ℕ) (sid : Mem) :
    let m := ofBytes (load x 0 (plen + qlen))
    let total := max (plen + qlen - 2) (significant m)
    let out := wmMegaExtract x plen qlen sidLen sid
    (out.1 = true ↔ sidLen ≤ total) ∧
      (out.1 = true → out.2 = store sid 0 ((toBytes total m).take sidLen)) ∧
      (out.1 = false → out.2 = sid) := by
  intro m total out
  have hlen : wmMegaActualLen x 0 (plen + qlen) = significant m := actual_len_eq x (plen + qlen)
  have hvalue := moved_value x (plen + qlen)
  have hout : out = wmMegaExtract x plen qlen sidLen sid := rfl
  have hbase : (if significant m > plen + qlen - 2 then significant m else plen + qlen - 2) =
      total := by
    unfold total
    split_ifs <;> omega
  rw [hlen] at hvalue
  dsimp only at hvalue
  simp only [wmMegaExtract, hlen, hbase] at hout
  generalize hx : (if significant m < plen + qlen then
    store x 0 (load x (plen + qlen - significant m) (significant m)) else x) = x' at hvalue hout
  have hle : significant m ≤ total := Nat.le_max_right _ _
  rw [hout]
  split_ifs with hshort
  · exact ⟨by simpa using hshort, by simp, by simp⟩
  · have hfits : sidLen ≤ total := Nat.not_lt.mp hshort
    refine ⟨by simpa using hfits, fun _ => ?_, by simp⟩
    have hpad := toBytes_pad (total - significant m) (load x' 0 (significant m))
    rw [length_load, hvalue, Nat.sub_add_cancel hle] at hpad
    rw [hpad, ← leading_bytes x' hle hfits]
    exact copy_loop_eq x' (significant m) (total - sidLen) sidLen sidLen sid

end BearTLS
