import BearTLS.Lib.Hmac
import BearTLS.Model.Hmac

/-! What the code over the hash classes relies on, and one computation from its begin to
its end. -/

namespace BearTLS

variable {γ : Type}

/-- The class computes `H` on blocks of `n` bytes; `Holds` relates a context to the bytes it
has taken in. -/
structure BrHashClass.Computes (C : BrHashClass γ) (Holds : γ → List UInt8 → Prop) (n : ℕ)
    (H : List UInt8 → List UInt8) : Prop where
  init : ∀ c, Holds (C.init c) []
  update : ∀ {c m}, Holds c m → ∀ data, Holds (C.update c data) (m ++ data)
  out : ∀ {c m}, Holds c m → m.length < 2 ^ 61 → C.out c = H m
  /-- A state that was saved at the end of a block stands for the bytes up to there. -/
  resume : ∀ {c m}, Holds c m → m.length % n = 0 →
    ∀ c', Holds (C.setState c' (C.state c).1 m.length.toUInt64) m
  size : ∀ m, (H m).length = brDigestSize C
  fits : brDigestSize C ≤ n
  block : blockSize C = n
  small : n ≤ 128

/-- One hash computation, in a context that may hold anything. -/
def BrHashClass.hash (C : BrHashClass γ) (c : γ) (chunks : List (List UInt8)) : List UInt8 :=
  C.out (chunks.foldl C.update (C.init c))

/-- One HMAC computation; `c₁` to `c₃` are the contexts of `br_hmac_key_init`, `br_hmac_init`
and `br_hmac_out`. -/
def hmacOf (C : BrHashClass γ) (c₁ c₂ c₃ : γ) (key : List UInt8) (outLen : ℕ)
    (chunks : List (List UInt8)) : List UInt8 :=
  brHmacOut c₃ (chunks.foldl brHmacUpdate (brHmacInit c₂ (brHmacKeyInit c₁ C key) outLen))

end BearTLS
