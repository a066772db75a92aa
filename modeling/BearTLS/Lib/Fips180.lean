import BearTLS.Lib.MerkleDamgard
import Mathlib.Data.Nat.NthRoot.Defs
import Mathlib.Data.Nat.Prime.Nth
import Mathlib.Data.Nat.Sqrt

/-! SHA-224, SHA-256, SHA-384 and SHA-512 as in FIPS 180-4, with its constants as what they
are: leading bits of the fractional parts of roots of primes. -/

namespace Fips180

open Radix

section Functions

variable {w : ℕ} (x y z : BitVec w)

def ch : BitVec w := (x &&& y) ^^^ (~~~x &&& z)

def maj : BitVec w := (x &&& y) ^^^ (x &&& z) ^^^ (y &&& z)

/-- Three rotations. -/
def bigSigma (r : ℕ × ℕ × ℕ) : BitVec w :=
  x.rotateRight r.1 ^^^ x.rotateRight r.2.1 ^^^ x.rotateRight r.2.2

/-- Two rotations and a shift. -/
def smallSigma (r : ℕ × ℕ × ℕ) : BitVec w :=
  x.rotateRight r.1 ^^^ x.rotateRight r.2.1 ^^^ (x >>> r.2.2)

end Functions

noncomputable section

/-- The primes in their order, from the index 0 on. -/
def prime (n : ℕ) : ℕ := Nat.nth Nat.Prime n

/-- The first `w` bits behind the point of the cube root of a prime. -/
def cubeRootBits (w n : ℕ) : BitVec w := BitVec.ofNat w (Nat.nthRoot 3 (prime n * 2 ^ (3 * w)))

/-- The first `k` bits behind the point of its square root, and of them the last `w`. -/
def squareRootBits (w k n : ℕ) : BitVec w := BitVec.ofNat w (Nat.sqrt (prime n * 2 ^ (2 * k)))

structure State (w : ℕ) where
  a : BitVec w
  b : BitVec w
  c : BitVec w
  d : BitVec w
  e : BitVec w
  f : BitVec w
  g : BitVec w
  h : BitVec w

/-- What SHA-224 and SHA-256 differ from SHA-384 and SHA-512 in, the width apart. -/
structure Variant where
  rounds : ℕ
  big0 : ℕ × ℕ × ℕ
  big1 : ℕ × ℕ × ℕ
  small0 : ℕ × ℕ × ℕ
  small1 : ℕ × ℕ × ℕ

variable {w : ℕ} (V : Variant)

/-- `W_t`. -/
def schedule (M : ℕ → BitVec w) (t : ℕ) : BitVec w :=
  if _h : t < 16 then M t
  else
    smallSigma (schedule M (t - 2)) V.small1 + schedule M (t - 7) +
      smallSigma (schedule M (t - 15)) V.small0 + schedule M (t - 16)

/-- One of the steps. -/
def turn (W : ℕ → BitVec w) (s : State w) (t : ℕ) : State w :=
  let T₁ := s.h + bigSigma s.e V.big1 + ch s.e s.f s.g + cubeRootBits w t + W t
  let T₂ := bigSigma s.a V.big0 + maj s.a s.b s.c
  ⟨T₁ + T₂, s.a, s.b, s.c, s.d + T₁, s.e, s.f, s.g⟩

def State.add (s u : State w) : State w :=
  ⟨s.a + u.a, s.b + u.b, s.c + u.c, s.d + u.d, s.e + u.e, s.f + u.f, s.g + u.g, s.h + u.h⟩

def State.words (s : State w) : List (BitVec w) := [s.a, s.b, s.c, s.d, s.e, s.f, s.g, s.h]

/-- The word with the index `t` of a block. -/
def word (w : ℕ) (block : List UInt8) (t : ℕ) : BitVec w :=
  BitVec.ofNat w (ofBytes ((block.drop (w / 8 * t)).take (w / 8)))

/-- The next hash value. -/
def compress (H : State w) (block : List UInt8) : State w :=
  H.add ((List.range V.rounds).foldl (turn V (schedule V (word w block))) H)

def initial (iv : ℕ → BitVec w) : State w :=
  ⟨iv 0, iv 1, iv 2, iv 3, iv 4, iv 5, iv 6, iv 7⟩

/-- The first `num` words of the last hash value. -/
def digest (iv : ℕ → BitVec w) (num : ℕ) (m : List UInt8) : List UInt8 :=
  ((MerkleDamgard.hash (2 * w) (w / 4) (compress V) (initial iv) m).words.take num).flatMap fun x =>
    toBytes (w / 8) x.toNat

def small : Variant where
  rounds := 64
  big0 := (2, 13, 22)
  big1 := (6, 11, 25)
  small0 := (7, 18, 3)
  small1 := (17, 19, 10)

def large : Variant where
  rounds := 80
  big0 := (28, 34, 39)
  big1 := (14, 18, 41)
  small0 := (1, 8, 7)
  small1 := (19, 61, 6)

def sha224 : List UInt8 → List UInt8 :=
  digest (w := 32) small (fun i => squareRootBits 32 64 (i + 8)) 7

def sha256 : List UInt8 → List UInt8 := digest (w := 32) small (fun i => squareRootBits 32 32 i) 8

def sha384 : List UInt8 → List UInt8 :=
  digest (w := 64) large (fun i => squareRootBits 64 64 (i + 8)) 6

def sha512 : List UInt8 → List UInt8 := digest (w := 64) large (fun i => squareRootBits 64 64 i) 8

end

section Laws

variable {w : ℕ} {V : Variant} {iv : ℕ → BitVec w} {num : ℕ}

theorem schedule_lt {M : ℕ → BitVec w} {t : ℕ} (h : t < 16) : schedule V M t = M t := by
  rw [schedule, dif_pos h]

theorem schedule_ge {M : ℕ → BitVec w} {t : ℕ} (h : 16 ≤ t) :
    schedule V M t = smallSigma (schedule V M (t - 2)) V.small1 + schedule V M (t - 7) +
      smallSigma (schedule V M (t - 15)) V.small0 + schedule V M (t - 16) := by
  rw [schedule, dif_neg (Nat.not_lt.mpr h)]

theorem length_digest (hnum : num ≤ 8) (m : List UInt8) :
    (digest V iv num m).length = w / 8 * num := by
  have hconst : ∀ ws : List (BitVec w),
      (ws.flatMap fun x => toBytes (w / 8) x.toNat).length = w / 8 * ws.length := by
    intro ws
    induction ws with
    | nil => rfl
    | cons x ws ih =>
      rw [List.flatMap_cons, List.length_append, ih, length_toBytes, List.length_cons, Nat.mul_succ,
        Nat.add_comm]
  rw [digest, hconst, List.length_take_of_le]
  exact hnum

end Laws

end Fips180
