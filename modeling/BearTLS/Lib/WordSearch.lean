import Mathlib.Data.UInt
import Mathlib.Order.Basic

/-! A search through all 32-bit words in order, with a state beside it. An attempt may
give up, which ends the search. -/

namespace WordSearch

inductive Outcome where
  | gaveUp
  | found (n : UInt32)
  | exhausted
deriving DecidableEq

theorem succ_toNat {n : UInt32} (h : n ≠ 0xffffffff) : (n + 1).toNat = n.toNat + 1 := by
  have hlt := n.toNat_lt
  have hne : n.toNat ≠ 2 ^ 32 - 1 := fun hmax => h (UInt32.toNat_inj.mp hmax)
  rw [UInt32.toNat_add]
  exact Nat.mod_eq_of_lt (show n.toNat + 1 < 2 ^ 32 by omega)

theorem toNat_le_max (n : UInt32) : n.toNat ≤ (0xffffffff : UInt32).toNat :=
  Nat.le_of_lt_succ n.toNat_lt

theorem left_succ {n : UInt32} (h : n ≠ 0xffffffff) :
    2 ^ 32 - (n + 1).toNat < 2 ^ 32 - n.toNat := by
  have hlt := n.toNat_lt
  rw [succ_toNat h]
  omega

section Run

variable {σ β : Type} (attempt : UInt32 → σ → Option β × σ) (hit : β → Bool) (miss : UInt32 → σ → σ)

/-- The search from `n` on; `miss` is what follows an attempt that is no hit. -/
def run (n : UInt32) (s : σ) : Outcome × σ :=
  match attempt n s with
  | (none, s) => (.gaveUp, s)
  | (some b, s) =>
    if hit b then (.found n, s)
    else
      let s := miss n s
      if h : n = 0xffffffff then (.exhausted, s) else run (n + 1) s
termination_by 2 ^ 32 - n.toNat
decreasing_by exact left_succ h

variable {attempt hit miss} {value : UInt32 → β}

theorem run_gaveUp {n : UInt32} {s : σ} (h : (run attempt hit miss n s).1 = .gaveUp) :
    ∃ m s', (attempt m s').1 = none ∧ (run attempt hit miss n s).2 = (attempt m s').2 := by
  fun_induction run attempt hit miss n s with
  | case1 n s s' hnone => exact ⟨n, s, by rw [hnone], by rw [hnone]⟩
  | case2 n s b s' hb hhit => cases h
  | case3 => cases h
  | case4 n s b s' hb hhit s'' hmax ih => exact ih h

theorem below_succ {n k : UInt32} (hn : n ≠ 0xffffffff) (h : n ≤ k) : k = n ∨ n + 1 ≤ k := by
  rw [UInt32.le_iff_toNat_le] at h ⊢
  rw [succ_toNat hn]
  rcases Nat.eq_or_lt_of_le h with heq | hlt
  · exact .inl (UInt32.toNat_inj.mp heq.symm)
  · exact .inr hlt

variable (hvalue : ∀ n s b, (attempt n s).1 = some b → b = value n)

include hvalue

/-- The search finds the first hit, where the attempt at a word says the word's value. -/
theorem run_found {n m : UInt32} {s : σ} (h : (run attempt hit miss n s).1 = .found m) :
    n ≤ m ∧ hit (value m) = true ∧ ∀ k, n ≤ k → k < m → hit (value k) = false := by
  fun_induction run attempt hit miss n s with
  | case1 n s s' hnone => cases h
  | case2 n s b s' hb hhit =>
    obtain rfl : n = m := Outcome.found.inj h
    refine ⟨UInt32.le_refl n, ?_, fun k hle hlt => absurd hlt (UInt32.not_lt.mpr hle)⟩
    rw [← hvalue n s b (by rw [hb])]
    exact hhit
  | case3 => cases h
  | case4 n s b s' hb hhit s'' hmax ih =>
    obtain ⟨hle, hm, hbelow⟩ := ih h
    have hmiss : hit (value n) = false := by
      rw [← hvalue n s b (by rw [hb])]
      simpa using hhit
    refine ⟨?_, hm, fun k hk hkm => ?_⟩
    · rw [UInt32.le_iff_toNat_le] at hle ⊢
      rw [succ_toNat hmax] at hle
      omega
    · rcases below_succ hmax hk with rfl | hk
      · exact hmiss
      · exact hbelow k hk hkm

/-- It is exhausted only where there is no hit. -/
theorem run_exhausted {n : UInt32} {s : σ} (h : (run attempt hit miss n s).1 = .exhausted)
    (k : UInt32) (hk : n ≤ k) : hit (value k) = false := by
  fun_induction run attempt hit miss n s with
  | case1 n s s' hnone => cases h
  | case2 n s b s' hb hhit => cases h
  | case3 s b s' hhit hb s'' =>
    obtain rfl : k = 0xffffffff := by
      rw [UInt32.le_iff_toNat_le] at hk
      exact UInt32.toNat_inj.mp (Nat.le_antisymm (toNat_le_max k) hk)
    rw [← hvalue _ s b (by rw [hb])]
    simpa using hhit
  | case4 n s b s' hb hhit s'' hmax ih =>
    rcases below_succ hmax hk with rfl | hk
    · rw [← hvalue _ s b (by rw [hb])]
      simpa using hhit
    · exact ih h hk

/-- Two searches for the same hits that do not give up end alike, whatever the states. -/
theorem run_agree {σ' : Type} {attempt' : UInt32 → σ' → Option β × σ'} {miss' : UInt32 → σ' → σ'}
    (hvalue' : ∀ n s b, (attempt' n s).1 = some b → b = value n) (n : UInt32) (s : σ) (s' : σ')
    (h : (run attempt hit miss n s).1 ≠ .gaveUp) (h' : (run attempt' hit miss' n s').1 ≠ .gaveUp) :
    (run attempt hit miss n s).1 = (run attempt' hit miss' n s').1 := by
  cases hr : (run attempt hit miss n s).1 with
  | gaveUp => exact absurd hr h
  | found m =>
    obtain ⟨hle, hhit, hbelow⟩ := run_found hvalue hr
    cases hr' : (run attempt' hit miss' n s').1 with
    | gaveUp => exact absurd hr' h'
    | found m' =>
      obtain ⟨hle', hhit', hbelow'⟩ := run_found hvalue' hr'
      have h₁ : ¬ m' < m := fun hlt => by simp [hbelow m' hle' hlt] at hhit'
      have h₂ : ¬ m < m' := fun hlt => by simp [hbelow' m hle hlt] at hhit
      rw [UInt32.le_antisymm (UInt32.not_lt.mp h₁) (UInt32.not_lt.mp h₂)]
    | exhausted =>
      rw [run_exhausted hvalue' hr' m hle] at hhit
      cases hhit
  | exhausted =>
    cases hr' : (run attempt' hit miss' n s').1 with
    | gaveUp => exact absurd hr' h'
    | found m' =>
      obtain ⟨hle', hhit', -⟩ := run_found hvalue' hr'
      rw [run_exhausted hvalue hr m' hle'] at hhit'
      cases hhit'
    | exhausted => rfl

end Run

end WordSearch
