import BearTLS.Lib.Memory
import Mathlib.Algebra.Group.Nat.Defs

/-! 32-bit arithmetic and array accesses that stop at the first fault, and what it
means that a computation without the checks gives the same. -/

namespace Checked

open Memory

inductive Fault where
  | wrap
  | outside
deriving DecidableEq, Repr

abbrev Run := Except Fault

section Operations

variable {α : Type}

def add (a b : UInt32) : Run UInt32 :=
  if a.toNat + b.toNat < 2 ^ 32 then .ok (a + b) else .error .wrap

end Operations

section Success

variable {α β : Type} {a b : UInt32}

theorem toNat_add (h : a.toNat + b.toNat < 2 ^ 32) : (a + b).toNat = a.toNat + b.toNat := by
  rw [UInt32.toNat_add, Nat.mod_eq_of_lt h]

end Success

section Refinement

variable {α β γ δ : Type} {R : α → β → Prop} {S : γ → δ → Prop}

/-- Where the checks find no fault, the computation without them gives a related value. -/
def Refines (R : α → β → Prop) (c : Run α) (o : Option β) : Prop :=
  ∀ a, c = .ok a → ∃ b, o = some b ∧ R a b

theorem Refines.ok {a : α} {b : β} (h : R a b) : Refines R (.ok a) (some b) := by
  rintro _ ⟨⟩
  exact ⟨b, rfl, h⟩

theorem Refines.bind {c : Run α} {o : Option β} {f : α → Run γ} {g : β → Option δ}
    (h : Refines R c o) (hf : ∀ a b, R a b → Refines S (f a) (g b)) :
    Refines S (c >>= f) (o >>= g) := by
  intro r hr
  cases c with
  | error e => cases hr
  | ok a =>
    obtain ⟨b, rfl, hab⟩ := h a rfl
    exact hf a b hab r hr

end Refinement

section Values

variable {α : Type} {a b c : UInt32}

end Values

end Checked
