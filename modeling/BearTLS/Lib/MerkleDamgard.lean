import BearTLS.Lib.Radix

/-! Iterated hash functions: a compression function on blocks of `n` bytes, chained over a
message that is padded with its length. -/

namespace MerkleDamgard

open Radix

variable {σ : Type} (n lenBytes : ℕ) (compress : σ → List UInt8 → σ)

/-- The state behind the whole blocks of a message, and the bytes behind them. -/
structure Chain (σ : Type) where
  val : σ
  tail : List UInt8

def push (c : Chain σ) (b : UInt8) : Chain σ :=
  if c.tail.length + 1 = n then ⟨compress c.val (c.tail ++ [b]), []⟩ else ⟨c.val, c.tail ++ [b]⟩

def absorb (c : Chain σ) (bytes : List UInt8) : Chain σ := bytes.foldl (push n compress) c

/-- As few zeros as it takes to fill a block that ends in the length. -/
def zeros (len : ℕ) : ℕ := (2 * n - 1 - lenBytes - len % n) % n

/-- The bit 1, the zeros, and the length in bits. -/
def padding (len : ℕ) : List UInt8 :=
  0x80 :: List.replicate (zeros n lenBytes len) 0 ++ toBytes lenBytes (8 * len)

/-- The state behind the padded message. -/
def hash (iv : σ) (m : List UInt8) : σ :=
  (absorb n compress ⟨iv, []⟩ (m ++ padding n lenBytes m.length)).val

variable {n lenBytes compress} {c : Chain σ} {bytes : List UInt8}

theorem absorb_append (c : Chain σ) (xs ys : List UInt8) :
    absorb n compress c (xs ++ ys) = absorb n compress (absorb n compress c xs) ys :=
  List.foldl_append

theorem absorb_nil (c : Chain σ) : absorb n compress c [] = c := rfl

/-- Bytes that do not fill the block. -/
theorem absorb_short (h : c.tail.length + bytes.length < n) :
    absorb n compress c bytes = ⟨c.val, c.tail ++ bytes⟩ := by
  induction bytes generalizing c with
  | nil => rw [absorb_nil, List.append_nil]
  | cons b bytes ih =>
    rw [List.length_cons] at h
    have hne : ¬ c.tail.length + 1 = n := by omega
    have hpush : push n compress c b = ⟨c.val, c.tail ++ [b]⟩ := if_neg hne
    show absorb n compress (push n compress c b) bytes = _
    rw [hpush, ih]
    · simp only [List.append_assoc, List.singleton_append]
    · simp only [List.length_append, List.length_singleton]
      omega

/-- Bytes that fill it. -/
theorem absorb_block (hne : bytes ≠ []) (h : c.tail.length + bytes.length = n) :
    absorb n compress c bytes = ⟨compress c.val (c.tail ++ bytes), []⟩ := by
  obtain ⟨init, last, rfl⟩ : ∃ init last, bytes = init ++ [last] :=
    ⟨_, _, (List.dropLast_append_getLast hne).symm⟩
  rw [List.length_append, List.length_singleton] at h
  have hshort : absorb n compress c init = ⟨c.val, c.tail ++ init⟩ := absorb_short (by omega)
  have hfull : (c.tail ++ init).length + 1 = n := by
    rw [List.length_append]
    omega
  rw [absorb_append, hshort, ← List.append_assoc]
  exact if_pos hfull

/-- How much stands behind the last whole block. -/
theorem length_tail (hn : 0 < n) (hc : c.tail.length < n) (bytes : List UInt8) :
    (absorb n compress c bytes).tail.length = (c.tail.length + bytes.length) % n := by
  induction bytes generalizing c with
  | nil => exact (Nat.mod_eq_of_lt hc).symm
  | cons b bytes ih =>
    show (absorb n compress (push n compress c b) bytes).tail.length = _
    rw [List.length_cons]
    by_cases hfull : c.tail.length + 1 = n
    · have hpush : push n compress c b = ⟨compress c.val (c.tail ++ [b]), []⟩ := if_pos hfull
      have hsum : c.tail.length + (bytes.length + 1) = n + bytes.length := by omega
      have hempty := ih (c := ⟨compress c.val (c.tail ++ [b]), []⟩) hn
      rw [hpush, hempty, hsum, Nat.add_mod_left]
      exact congrArg (· % n) (Nat.zero_add _)
    · have hpush : push n compress c b = ⟨c.val, c.tail ++ [b]⟩ := if_neg hfull
      have hlen : (c.tail ++ [b]).length = c.tail.length + 1 := by
        rw [List.length_append, List.length_singleton]
      have hsum : c.tail.length + (bytes.length + 1) = c.tail.length + 1 + bytes.length := by omega
      rw [hpush, ih (by rw [hlen]; omega), hlen, hsum]

end MerkleDamgard
