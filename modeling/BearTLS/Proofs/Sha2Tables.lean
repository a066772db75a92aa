import BearTLS.Lib.Fips180
import BearTLS.Model.Sha2

/-! The tables of `sha2small.c` and `sha2big.c`: each constant is the leading bits of the
fractional part of a root of the prime that the standard names. -/

namespace BearTLS

open Fips180

section Primes

theorem length_filter_range (p : ℕ → Prop) [DecidablePred p] (n : ℕ) :
    ((List.range n).filter p).length = Nat.count p n := by
  induction n with
  | zero => rfl
  | succ n ih =>
    rw [List.range_succ, List.filter_append, List.length_append, ih, Nat.count_succ]
    by_cases hp : p n <;> simp [hp]

/-- The elements of a decidable set in their order, as far as they lie below `n`. -/
theorem nth_eq_getD (p : ℕ → Prop) [DecidablePred p] {n i : ℕ}
    (h : i < ((List.range n).filter p).length) :
    Nat.nth p i = ((List.range n).filter p).getD i 0 := by
  induction n with
  | zero => exact absurd h (Nat.not_lt_zero i)
  | succ n ih =>
    rw [List.range_succ, List.filter_append] at h ⊢
    rcases Nat.lt_or_ge i ((List.range n).filter p).length with hlt | hge
    · rw [List.getD_append _ _ _ _ hlt, ih hlt]
    · by_cases hp : p n
      · have hsingle : [n].filter p = [n] := by simp [hp]
        rw [hsingle, List.length_append, List.length_singleton, length_filter_range] at h
        rw [length_filter_range] at hge
        obtain rfl : i = Nat.count p n := by omega
        rw [Nat.nth_count hp, List.getD_append_right _ _ _ _ (by rw [length_filter_range]),
          length_filter_range, hsingle, Nat.sub_self]
        rfl
      · have hnone : [n].filter p = [] := by simp [hp]
        rw [hnone, List.append_nil] at h
        exact absurd h (Nat.not_lt.mpr hge)

/-- Trial division, for what is below the square of 21. -/
def HasNoDivisor (n : ℕ) : Prop := 2 ≤ n ∧ ∀ d < 21, 2 ≤ d → d * d ≤ n → n % d ≠ 0

instance (n : ℕ) : Decidable (HasNoDivisor n) := inferInstanceAs (Decidable (_ ∧ _))

theorem prime_iff_hasNoDivisor {n : ℕ} (hn : n < 441) : Nat.Prime n ↔ HasNoDivisor n := by
  rw [Nat.prime_def_le_sqrt, HasNoDivisor]
  refine and_congr_right fun _ => ⟨fun h d _ hd hsq hmod => ?_, fun h d hd hsqrt hdvd => ?_⟩
  · exact h d hd (Nat.le_sqrt.mpr hsq) (Nat.dvd_of_mod_eq_zero hmod)
  · have hsq := Nat.le_sqrt.mp hsqrt
    have hlt : d < 21 := by
      by_contra hge
      have := Nat.mul_le_mul (Nat.not_lt.mp hge) (Nat.not_lt.mp hge)
      omega
    exact h d hlt hd hsq (Nat.mod_eq_zero_of_dvd hdvd)

/-- The first 80 primes. -/
def primes : List ℕ := [
  2, 3, 5, 7, 11, 13, 17, 19, 23, 29, 31, 37, 41, 43, 47, 53,
  59, 61, 67, 71, 73, 79, 83, 89, 97, 101, 103, 107, 109, 113, 127, 131,
  137, 139, 149, 151, 157, 163, 167, 173, 179, 181, 191, 193, 197, 199, 211, 223,
  227, 229, 233, 239, 241, 251, 257, 263, 269, 271, 277, 281, 283, 293, 307, 311,
  313, 317, 331, 337, 347, 349, 353, 359, 367, 373, 379, 383, 389, 397, 401, 409]

theorem primes_eq : (List.range 410).filter HasNoDivisor = primes := by
  decide +kernel

theorem prime_eq {i : ℕ} (hi : i < 80) : prime i = primes.getD i 0 := by
  have hfilter : (List.range 410).filter (fun n => decide (Nat.Prime n)) = primes := by
    rw [← primes_eq]
    refine List.filter_congr fun n hn => ?_
    have hlt := List.mem_range.mp hn
    exact decide_eq_decide.mpr (prime_iff_hasNoDivisor (by omega))
  have hlen : primes.length = 80 := rfl
  have hnth := nth_eq_getD Nat.Prime (n := 410) (i := i) (by rw [hfilter, hlen]; exact hi)
  rw [hfilter] at hnth
  exact hnth

end Primes

section Tables

/-- A table against what it should hold, with the primes written out. -/
theorem table_eq {w n : ℕ} (table : List (BitVec w)) (f : ℕ → BitVec w) (off : ℕ)
    (hn : n + off ≤ 80)
    (h : (List.range n).map (fun i => f (primes.getD (i + off) 0)) = table) {i : ℕ} (hi : i < n) :
    f (prime (i + off)) = table.getD i 0 := by
  subst h
  have htable : ((List.range n).map fun i => f (primes.getD (i + off) 0)).getD i 0 =
      f (primes.getD (i + off) 0) := by
    rw [List.getD_eq_getElem?_getD, List.getElem?_map, List.getElem?_range hi]
    rfl
  rw [htable, prime_eq (by omega)]

theorem sha2small_k {i : ℕ} (hi : i < 64) : cubeRootBits 32 i = sha2smallK.getD i 0 :=
  table_eq sha2smallK (fun p => BitVec.ofNat 32 (Nat.nthRoot 3 (p * 2 ^ (3 * 32)))) 0 (by decide)
    (by decide +kernel) hi

theorem sha2big_k {i : ℕ} (hi : i < 80) : cubeRootBits 64 i = sha2bigK.getD i 0 :=
  table_eq sha2bigK (fun p => BitVec.ofNat 64 (Nat.nthRoot 3 (p * 2 ^ (3 * 64)))) 0 (by decide)
    (by decide +kernel) hi

theorem sha224_iv {i : ℕ} (hi : i < 8) : squareRootBits 32 64 (i + 8) = brSha224IV.getD i 0 :=
  table_eq brSha224IV (fun p => BitVec.ofNat 32 (Nat.sqrt (p * 2 ^ (2 * 64)))) 8 (by decide)
    (by decide +kernel) hi

theorem sha256_iv {i : ℕ} (hi : i < 8) : squareRootBits 32 32 i = brSha256IV.getD i 0 :=
  table_eq brSha256IV (fun p => BitVec.ofNat 32 (Nat.sqrt (p * 2 ^ (2 * 32)))) 0 (by decide)
    (by decide +kernel) hi

theorem sha384_iv {i : ℕ} (hi : i < 8) : squareRootBits 64 64 (i + 8) = IV384.getD i 0 :=
  table_eq IV384 (fun p => BitVec.ofNat 64 (Nat.sqrt (p * 2 ^ (2 * 64)))) 8 (by decide)
    (by decide +kernel) hi

theorem sha512_iv {i : ℕ} (hi : i < 8) : squareRootBits 64 64 i = IV512.getD i 0 :=
  table_eq IV512 (fun p => BitVec.ofNat 64 (Nat.sqrt (p * 2 ^ (2 * 64)))) 0 (by decide)
    (by decide +kernel) hi

end Tables

end BearTLS
