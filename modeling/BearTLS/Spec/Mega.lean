import BearTLS.Lib.Crt
import BearTLS.Model.MegaChecked

/-! Multi-precision integers as MEGA writes them, the keys and ciphertexts built of
them, and what the RSA private operation is trusted to compute. -/

namespace BearTLS

open Memory

/-- A bit count and as many bytes as hold it; leading zero bytes are allowed. -/
structure Mpi where
  bits : ℕ
  bytes : List UInt8
  bits_lt : bits < 2 ^ 16
  length_bytes : bytes.length = (bits + 7) / 8

namespace Mpi

def val (m : Mpi) : ℕ := Radix.ofBytes m.bytes

def len (m : Mpi) : ℕ := m.bytes.length

def text (m : Mpi) : List UInt8 := (m.bits / 256).toUInt8 :: (m.bits % 256).toUInt8 :: m.bytes

end Mpi

structure MegaKey where
  p : Mpi
  q : Mpi
  d : Mpi
  u : Mpi
  one_lt_p : 1 < p.val
  one_lt_q : 1 < q.val
  odd_p : Odd p.val
  odd_q : Odd q.val
  inverse : u.val * p.val ≡ 1 [MOD q.val]
  len_le : p.len ≤ 512 ∧ q.len ≤ 512 ∧ (0 < d.len ∧ d.len ≤ 1024) ∧ u.len ≤ 512

namespace MegaKey

def text (key : MegaKey) : List UInt8 := key.p.text ++ key.q.text ++ key.d.text ++ key.u.text

def xlen (key : MegaKey) : ℕ := key.p.len + key.q.len

end MegaKey

structure MegaCipher (key : MegaKey) where
  c : Mpi
  val_lt : c.val < key.p.val * key.q.val
  len_le : c.len ≤ key.xlen

/-- `ceil(n_bitlen / 8)` -/
def RsaPrivateKey.xlen (sk : RsaPrivateKey) : ℕ := (sk.nBitlen.toNat + 7) / 8

/-- On a key with odd factors and lengths it accepts, and an operand below their
product, the operation succeeds and leaves the recombined powers. -/
def RsaPrivateSpec (rsaPrivate : RsaPrivate) (accepts : RsaPrivateKey → Prop) : Prop :=
  ∀ (x : Mem) (sk : RsaPrivateKey), accepts sk → Odd (Radix.ofBytes sk.p) →
    Odd (Radix.ofBytes sk.q) →
    Radix.ofBytes (load x 0 sk.xlen) < Radix.ofBytes sk.p * Radix.ofBytes sk.q →
    let y := Radix.ofBytes (load x 0 sk.xlen)
    let s₁ := y ^ Radix.ofBytes sk.dp % Radix.ofBytes sk.p
    let s₂ := y ^ Radix.ofBytes sk.dq % Radix.ofBytes sk.q
    (rsaPrivate x sk).1 = true ∧
      load (rsaPrivate x sk).2 0 sk.xlen = Radix.toBytes sk.xlen
        (Crt.recombine (Radix.ofBytes sk.p) (Radix.ofBytes sk.q) (Radix.ofBytes sk.iq) s₁ s₂)

end BearTLS
