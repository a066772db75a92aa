import Mathlib.Data.Int.ModEq
import Mathlib.Data.Nat.ChineseRemainder
import Mathlib.Tactic.Ring

/-! Recombination of a residue modulo `p * q` from its residues modulo `p` and `q`,
with the inverse of `q` modulo `p`. -/

namespace Crt

/-- `s₂ + q * (((s₁ - s₂) * iq) mod p)`. -/
def recombine (p q iq s₁ s₂ : ℕ) : ℕ :=
  s₂ + q * ((((s₁ : ℤ) - s₂) * iq) % p).toNat

variable {p q iq s₁ s₂ y : ℕ}

theorem coprime_of_inverse (hinv : iq * q ≡ 1 [MOD p]) : Nat.Coprime p q := by
  have h : Nat.gcd (iq * q) p = Nat.gcd 1 p := hinv.gcd_eq
  rw [Nat.gcd_one_left] at h
  exact (Nat.Coprime.coprime_mul_left h).symm

theorem recombine_lt (hp : 0 < p) (h₂ : s₂ < q) : recombine p q iq s₁ s₂ < p * q := by
  have hmod : ((((s₁ : ℤ) - s₂) * iq) % p).toNat < p := by
    have hpos := Int.emod_nonneg (((s₁ : ℤ) - s₂) * iq) (by omega : (p : ℤ) ≠ 0)
    have hlt := Int.emod_lt_of_pos (((s₁ : ℤ) - s₂) * iq) (by omega : (0 : ℤ) < p)
    omega
  calc recombine p q iq s₁ s₂
      < q + q * ((((s₁ : ℤ) - s₂) * iq) % p).toNat := Nat.add_lt_add_right h₂ _
    _ = q * (((((s₁ : ℤ) - s₂) * iq) % p).toNat + 1) := by rw [Nat.mul_succ, Nat.add_comm]
    _ ≤ q * p := Nat.mul_le_mul_left q hmod
    _ = p * q := Nat.mul_comm q p

theorem recombine_modEq_right : recombine p q iq s₁ s₂ ≡ s₂ [MOD q] := by
  rw [recombine, Nat.ModEq, Nat.add_mul_mod_self_left]

theorem recombine_modEq_left (hp : 0 < p) (hinv : iq * q ≡ 1 [MOD p]) :
    recombine p q iq s₁ s₂ ≡ s₁ [MOD p] := by
  rw [← Int.natCast_modEq_iff] at hinv ⊢
  have hpos := Int.emod_nonneg (((s₁ : ℤ) - s₂) * iq) (by omega : (p : ℤ) ≠ 0)
  push_cast at hinv
  rw [recombine]
  push_cast
  rw [Int.toNat_of_nonneg hpos]
  have hh : (((s₁ : ℤ) - s₂) * iq) % p ≡ ((s₁ : ℤ) - s₂) * iq [ZMOD p] := Int.mod_modEq _ _
  calc (s₂ : ℤ) + q * ((((s₁ : ℤ) - s₂) * iq) % p)
      ≡ s₂ + q * (((s₁ : ℤ) - s₂) * iq) [ZMOD p] := (hh.mul_left _).add_left _
    _ = s₂ + (s₁ - s₂) * (iq * q) := by ring
    _ ≡ s₂ + (s₁ - s₂) * 1 [ZMOD p] := (hinv.mul_left _).add_left _
    _ = s₁ := by ring

/-- Garner's formula. -/
theorem recombine_eq (hp : 0 < p) (hq : 0 < q) (hinv : iq * q ≡ 1 [MOD p]) :
    recombine p q iq (y % p) (y % q) = y % (p * q) := by
  have hleft : recombine p q iq (y % p) (y % q) ≡ y [MOD p] :=
    (recombine_modEq_left hp hinv).trans (Nat.mod_modEq y p)
  have hright : recombine p q iq (y % p) (y % q) ≡ y [MOD q] :=
    recombine_modEq_right.trans (Nat.mod_modEq y q)
  have hboth : recombine p q iq (y % p) (y % q) ≡ y [MOD p * q] :=
    (Nat.modEq_and_modEq_iff_modEq_mul (coprime_of_inverse hinv)).mp ⟨hleft, hright⟩
  have hlt : recombine p q iq (y % p) (y % q) < p * q := recombine_lt hp (Nat.mod_lt y hq)
  rw [← Nat.mod_eq_of_lt hlt]
  exact hboth

end Crt
