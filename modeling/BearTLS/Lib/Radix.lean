import Mathlib.Data.Nat.Digits.Lemmas

/-! Positional numbers of a fixed length, most significant digit first. -/

namespace Radix

def value (b : ℕ) (ds : List ℕ) : ℕ := Nat.ofDigits b ds.reverse

/-- The last `n` digits of `v`. -/
def digits (b : ℕ) : ℕ → ℕ → List ℕ
  | 0, _ => []
  | n + 1, v => digits b n (v / b) ++ [v % b]

variable {b n k v : ℕ} {xs ys ds : List ℕ}

@[simp] theorem value_nil : value b [] = 0 := rfl

@[simp] theorem value_singleton {d : ℕ} : value b [d] = d := Nat.ofDigits_singleton

theorem value_append : value b (xs ++ ys) = value b xs * b ^ ys.length + value b ys := by
  rw [value, List.reverse_append, Nat.ofDigits_append, List.length_reverse, Nat.add_comm,
    Nat.mul_comm]
  rfl

theorem value_cons {d : ℕ} : value b (d :: ds) = d * b ^ ds.length + value b ds := by
  rw [← List.singleton_append, value_append, value_singleton]

theorem value_snoc {d : ℕ} : value b (ds ++ [d]) = value b ds * b + d := by
  rw [value_append, value_singleton, List.length_singleton, Nat.pow_one]

theorem value_lt (hb : 1 < b) (h : ∀ d ∈ ds, d < b) : value b ds < b ^ ds.length := by
  have := Nat.ofDigits_lt_base_pow_length hb (l := ds.reverse) fun d hd =>
    h d (List.mem_reverse.mp hd)
  rwa [List.length_reverse] at this

@[simp] theorem length_digits : (digits b n v).length = n := by
  induction n generalizing v with
  | zero => rfl
  | succ n ih => rw [digits, List.length_append, ih, List.length_singleton]

theorem digits_lt (hb : 0 < b) : ∀ d ∈ digits b n v, d < b := by
  induction n generalizing v with
  | zero =>
    intro d hd
    exact absurd hd List.not_mem_nil
  | succ n ih =>
    intro d hd
    rcases List.mem_append.mp hd with hd | hd
    · exact ih d hd
    · rw [List.mem_singleton.mp hd]
      exact Nat.mod_lt v hb

theorem value_digits : value b (digits b n v) = v % b ^ n := by
  induction n generalizing v with
  | zero => rw [digits, value_nil, Nat.pow_zero, Nat.mod_one]
  | succ n ih =>
    rw [digits, value_snoc, ih, Nat.pow_succ', Nat.mod_mul, Nat.mul_comm, Nat.add_comm]

theorem digits_value (h : ∀ d ∈ ds, d < b) : digits b ds.length (value b ds) = ds := by
  induction ds using List.reverseRecOn with
  | nil => rfl
  | append_singleton ds d ih =>
    have hd : d < b := h d (by simp)
    have hrest : ∀ x ∈ ds, x < b := fun x hx => h x (List.mem_append_left _ hx)
    rw [List.length_append, List.length_singleton, digits, value_snoc, Nat.mul_comm,
      Nat.mul_add_div (by omega), Nat.div_eq_of_lt hd, Nat.add_zero, ih hrest,
      Nat.mul_add_mod, Nat.mod_eq_of_lt hd]

section Bytes

/-- The big-endian integer in a byte string. -/
def ofBytes (bs : List UInt8) : ℕ := value 256 (bs.map UInt8.toNat)

/-- The last `n` bytes of `v`, big-endian. -/
def toBytes (n v : ℕ) : List UInt8 := (digits 256 n v).map Nat.toUInt8

@[simp] theorem length_toBytes : (toBytes n v).length = n := by
  rw [toBytes, List.length_map, length_digits]

theorem ofBytes_append (bs cs : List UInt8) :
    ofBytes (bs ++ cs) = ofBytes bs * 256 ^ cs.length + ofBytes cs := by
  rw [ofBytes, List.map_append, value_append, List.length_map]
  rfl

theorem ofBytes_snoc (bs : List UInt8) (b : UInt8) :
    ofBytes (bs ++ [b]) = ofBytes bs * 256 + b.toNat := by
  rw [ofBytes_append, List.length_singleton, Nat.pow_one]
  rfl

theorem ofBytes_replicate_zero (k : ℕ) : ofBytes (List.replicate k 0) = 0 := by
  induction k with
  | zero => rfl
  | succ k ih =>
    rw [List.replicate_succ', ofBytes_append, ih, Nat.zero_mul, Nat.zero_add]
    rfl

/-- Leading zero bytes do not count. -/
theorem ofBytes_replicate_zero_append (k : ℕ) (bs : List UInt8) :
    ofBytes (List.replicate k 0 ++ bs) = ofBytes bs := by
  rw [ofBytes_append, ofBytes_replicate_zero, Nat.zero_mul, Nat.zero_add]

theorem map_toNat_lt (bs : List UInt8) : ∀ d ∈ bs.map UInt8.toNat, d < 256 := by
  intro d hd
  obtain ⟨x, -, rfl⟩ := List.mem_map.mp hd
  exact x.toNat_lt

theorem ofBytes_lt (bs : List UInt8) : ofBytes bs < 256 ^ bs.length := by
  have := value_lt (show 1 < 256 by omega) (map_toNat_lt bs)
  rwa [List.length_map] at this

theorem ofBytes_toBytes : ofBytes (toBytes n v) = v % 256 ^ n := by
  have hmap : (digits 256 n v).map (UInt8.toNat ∘ Nat.toUInt8) = digits 256 n v := by
    rw [List.map_congr_left, List.map_id]
    intro d hd
    exact Nat.mod_eq_of_lt (digits_lt (by omega) d hd)
  rw [ofBytes, toBytes, List.map_map, hmap, value_digits]

theorem toBytes_ofBytes (bs : List UInt8) : toBytes bs.length (ofBytes bs) = bs := by
  have := digits_value (map_toNat_lt bs)
  rw [List.length_map] at this
  rw [toBytes, ofBytes, this, List.map_map]
  simp [Function.comp_def]

theorem toBytes_succ : toBytes (n + 1) v = toBytes n (v / 256) ++ [(v % 256).toUInt8] := by
  rw [toBytes, digits, List.map_append]
  rfl

/-- Digit by digit. -/
theorem toBytes_eq_map (k v : ℕ) :
    toBytes k v = (List.range k).map fun i => (v / 256 ^ (k - (i + 1)) % 256).toUInt8 := by
  induction k generalizing v with
  | zero => rfl
  | succ k ih =>
    rw [toBytes_succ, ih, List.range_succ, List.map_append]
    congr 1
    · refine List.map_congr_left fun i hi => ?_
      have hlt := List.mem_range.mp hi
      have hexp : k + 1 - (i + 1) = k - (i + 1) + 1 := by omega
      rw [hexp, Nat.pow_succ', Nat.div_div_eq_div_mul]
    · simp

theorem toBytes_mod (k v : ℕ) : toBytes k (v % 256 ^ k) = toBytes k v := by
  have hround := toBytes_ofBytes (toBytes k v)
  rwa [length_toBytes, ofBytes_toBytes] at hround

theorem toBytes_add (j k v : ℕ) : toBytes (j + k) v = toBytes j (v / 256 ^ k) ++ toBytes k v := by
  induction k generalizing v with
  | zero => simp [toBytes, digits]
  | succ k ih =>
    rw [← Nat.add_assoc, toBytes_succ, toBytes_succ, ih, Nat.div_div_eq_div_mul, ← Nat.pow_succ',
      List.append_assoc]

/-- Leading zero bytes up to any length. -/
theorem toBytes_pad (k : ℕ) (bs : List UInt8) :
    toBytes (k + bs.length) (ofBytes bs) = List.replicate k 0 ++ bs := by
  have := toBytes_ofBytes (List.replicate k 0 ++ bs)
  rwa [ofBytes_replicate_zero_append, List.length_append, List.length_replicate] at this

/-- The number of bytes of `v` without leading zeros. -/
def significant (v : ℕ) : ℕ := (Nat.digits 256 v).length

theorem significant_ofBytes {bs : List UInt8} (h : ∀ b ∈ bs.head?, b ≠ 0) :
    significant (ofBytes bs) = bs.length := by
  cases bs with
  | nil => rfl
  | cons b rest =>
    have hb : b.toNat ≠ 0 := fun h0 => h b rfl (UInt8.toNat_inj.mp h0)
    have hpow : 256 ^ rest.length ≤ ofBytes (b :: rest) := by
      have hsplit : ofBytes (b :: rest) = ofBytes [b] * 256 ^ rest.length + ofBytes rest :=
        ofBytes_append [b] rest
      have hone : ofBytes [b] = b.toNat := value_singleton
      rw [hsplit, hone]
      exact (Nat.le_mul_of_pos_left _ (Nat.pos_of_ne_zero hb)).trans (Nat.le_add_right _ _)
    apply Nat.le_antisymm
    · exact (Nat.digits_length_le_iff (by omega) _).mpr (ofBytes_lt (b :: rest))
    · exact (Nat.lt_digits_length_iff (by omega) _).mpr hpow

end Bytes

end Radix
