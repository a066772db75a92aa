import BearTLS.Lib.Radix
import Mathlib.Data.Vector.Zip

/-! PBKDF2 as in RFC 8018, section 5.2, over any pseudorandom function with a fixed
output length. -/

namespace Pbkdf2

open Radix

variable {n : ℕ} (prf : List UInt8 → List UInt8 → List.Vector UInt8 n) (p s : List UInt8)

/-- `U_(k+1)` of the block with index `i`. -/
def u (i : ℕ) : ℕ → List.Vector UInt8 n
  | 0 => prf p (s ++ toBytes 4 i)
  | k + 1 => prf p (u i k).toList

def xor (a b : List.Vector UInt8 n) : List.Vector UInt8 n := List.Vector.zipWith (· ^^^ ·) a b

/-- `F (P, S, c, i)`: the sum of `U_1` to `U_c`. -/
def f (c i : ℕ) : List.Vector UInt8 n :=
  (List.range c).foldl (fun t k => xor t (u prf p s i k)) (List.Vector.replicate n 0)

/-- The first `l` blocks, one behind the other. -/
def blocks (c l : ℕ) : List UInt8 := (List.range l).flatMap fun i => (f prf p s c (i + 1)).toList

/-- The derived key of `len` bytes. -/
def key (c len : ℕ) : List UInt8 := (blocks prf p s c ((len + n - 1) / n)).take len

variable {prf p s} {c i l len : ℕ}

theorem f_succ : f prf p s (c + 1) i = xor (f prf p s c i) (u prf p s i c) := by
  rw [f, List.range_succ, List.foldl_append]
  rfl

theorem xor_zero (a : List.Vector UInt8 n) : xor (List.Vector.replicate n 0) a = a := by
  apply List.Vector.ext
  intro k
  rw [xor, List.Vector.zipWith_get, List.Vector.get_replicate, UInt8.zero_xor]

theorem f_one : f prf p s 1 i = u prf p s i 0 := by
  rw [f_succ]
  exact xor_zero _

theorem blocks_succ : blocks prf p s c (l + 1) =
    blocks prf p s c l ++ (f prf p s c (l + 1)).toList := by
  rw [blocks, List.range_succ, List.flatMap_append]
  simp [blocks]

@[simp] theorem length_blocks : (blocks prf p s c l).length = n * l := by
  induction l with
  | zero => rfl
  | succ l ih => rw [blocks_succ, List.length_append, ih, List.Vector.toList_length, Nat.mul_succ]

variable (prf p s c) in
theorem blocks_prefix {l' : ℕ} (h : l ≤ l') : blocks prf p s c l <+: blocks prf p s c l' := by
  induction l', h using Nat.le_induction with
  | base => exact List.prefix_refl _
  | succ l' _ ih =>
    apply ih.trans
    rw [blocks_succ]
    exact List.prefix_append _ _

/-- As many blocks as one likes, once they are enough. -/
theorem key_eq_take (hn : 0 < n) (h : len ≤ n * l) :
    key prf p s c len = (blocks prf p s c l).take len := by
  have hle : (len + n - 1) / n ≤ l := by
    apply Nat.le_of_lt_succ
    rw [Nat.div_lt_iff_lt_mul hn, Nat.succ_mul, Nat.mul_comm l n]
    omega
  have henough : len ≤ n * ((len + n - 1) / n) := by
    have := Nat.lt_mul_div_succ (len + n - 1) hn
    rw [Nat.mul_succ] at this
    omega
  obtain ⟨rest, hrest⟩ := blocks_prefix prf p s c hle
  rw [key, ← hrest, List.take_append_of_le_length]
  rwa [length_blocks]

section Congruence

variable {prf' : List UInt8 → List UInt8 → List.Vector UInt8 n} {bound : ℕ}

theorem u_congr (h : ∀ m : List UInt8, m.length ≤ bound → prf p m = prf' p m)
    (hs : s.length + 4 ≤ bound) (hn : n ≤ bound) (i k : ℕ) : u prf p s i k = u prf' p s i k := by
  induction k with
  | zero =>
    refine h _ ?_
    rwa [List.length_append, length_toBytes]
  | succ k ih =>
    rw [u, u, ih]
    refine h _ ?_
    rwa [List.Vector.toList_length]

/-- The key depends on the function on short messages only. -/
theorem key_congr (h : ∀ m : List UInt8, m.length ≤ bound → prf p m = prf' p m)
    (hs : s.length + 4 ≤ bound) (hn : n ≤ bound) : key prf p s c len = key prf' p s c len := by
  have hu : u prf p s = u prf' p s := by
    funext i k
    exact u_congr h hs hn i k
  simp only [key, blocks, f, hu]

end Congruence

end Pbkdf2
