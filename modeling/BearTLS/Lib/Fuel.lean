import Mathlib.Order.Basic
import Mathlib.Order.Lattice
import Mathlib.Order.Lattice.Nat

/-! Computations with fuel that keep an answer once they have one. -/

namespace Fuel

variable {β : Type*}

/-- More fuel does not change an answer. -/
def Settles (done : β → Prop) (f : ℕ → β) : Prop := ∀ n, done (f n) → f (n + 1) = f n

theorem Settles.eq_of_le {done : β → Prop} {f : ℕ → β} (h : Settles done f) {n m : ℕ}
    (hd : done (f n)) (hle : n ≤ m) : f m = f n := by
  induction m, hle using Nat.le_induction with
  | base => rfl
  | succ m _ ih => exact (h m (ih ▸ hd)).trans ih

end Fuel
