import Mathlib.Data.UInt

/-! HMAC as in RFC 2104 and the expansion `P_hash` of RFC 5246, section 5, over any hash
function with blocks of `n` bytes. -/

namespace Hmac

variable (n : ℕ) (H : List UInt8 → List UInt8) (k m : List UInt8)

/-- The key as a block: a key that is too long is hashed, a short one filled up. -/
def keyBlock : List UInt8 :=
  let k := if k.length > n then H k else k
  k ++ List.replicate (n - k.length) 0

def pad (c : UInt8) : List UInt8 := (keyBlock n H k).map (· ^^^ c)

def mac : List UInt8 := H (pad n H k 0x5C ++ H (pad n H k 0x36 ++ m))

/-- `A(i)`. -/
def chain (seed : List UInt8) : ℕ → List UInt8
  | 0 => seed
  | i + 1 => mac n H k (chain seed i)

/-- The parts of `P_hash` from the index `i` on, of which there are `l`. -/
def parts (seed : List UInt8) (i l : ℕ) : List UInt8 :=
  (List.range' i l).flatMap fun j => mac n H k (chain n H k seed (j + 1) ++ seed)

/-- `P_hash`, as many bytes as are asked for. -/
def expand (hlen : ℕ) (seed : List UInt8) (len : ℕ) : List UInt8 :=
  (parts n H k seed 0 ((len + hlen - 1) / hlen)).take len

/-- The output of `outLen` bytes, or the whole of it. -/
def truncated (outLen : ℕ) : List UInt8 :=
  if outLen = 0 then mac n H k m else (mac n H k m).take outLen

variable {n H k m} {hlen : ℕ}

theorem parts_succ (seed : List UInt8) (i l : ℕ) : parts n H k seed i (l + 1) =
    mac n H k (chain n H k seed (i + 1) ++ seed) ++ parts n H k seed (i + 1) l := by
  rw [parts, List.range'_succ, List.flatMap_cons]
  rfl

theorem length_parts (hH : ∀ m, (H m).length = hlen) (seed : List UInt8) (i l : ℕ) :
    (parts n H k seed i l).length = hlen * l := by
  induction l generalizing i with
  | zero => rfl
  | succ l ih => rw [parts_succ, List.length_append, ih, mac, hH, Nat.mul_succ, Nat.add_comm]

theorem enough_parts (hpos : 0 < hlen) (len : ℕ) : len ≤ hlen * ((len + hlen - 1) / hlen) := by
  have hlt := Nat.lt_mul_div_succ (len + hlen - 1) hpos
  rw [Nat.mul_succ] at hlt
  omega

theorem length_expand (hH : ∀ m, (H m).length = hlen) (hpos : 0 < hlen) (seed : List UInt8)
    (len : ℕ) : (expand n H k hlen seed len).length = len := by
  rw [expand, List.length_take_of_le]
  rw [length_parts hH]
  exact enough_parts hpos len

theorem length_keyBlock (hH : ∀ m, (H m).length ≤ n) : (keyBlock n H k).length = n := by
  simp only [keyBlock, List.length_append, List.length_replicate]
  split_ifs with hlong
  · have := hH k
    omega
  · omega

theorem length_pad (hH : ∀ m, (H m).length ≤ n) (c : UInt8) : (pad n H k c).length = n := by
  rw [pad, List.length_map, length_keyBlock hH]

end Hmac
