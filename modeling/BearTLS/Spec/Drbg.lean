import BearTLS.Lib.HmacDrbg
import BearTLS.Model.Drbg

/-! What the calls to the random generator of an engine mean: one HMAC_DRBG, into which the
seed of the system goes once, at the first `br_ssl_engine_init_rand`. -/

namespace BearTLS

variable (mac : List UInt8 → List UInt8 → List UInt8) (n : ℕ)

/-- The state of the generator, and whether the system has seeded it. -/
structure SeededRng where
  drbg : HmacDrbg.State
  seeded : Bool

def SeededRng.call (s : SeededRng) : RngCall → List UInt8 × SeededRng
  | .initRand src =>
    ([], if s.seeded then s else ⟨HmacDrbg.update mac s.drbg (winceSeed src), true⟩)
  | .injectEntropy data => ([], { s with drbg := HmacDrbg.update mac s.drbg data })
  | .mkrand len =>
    let o := HmacDrbg.generate mac n s.drbg len
    (o.1, { s with drbg := o.2 })

/-- The outputs of the calls, and the state behind them. -/
def SeededRng.run (s : SeededRng) : List RngCall → List (List UInt8) × SeededRng
  | [] => ([], s)
  | call :: calls =>
    let o := s.call mac n call
    let r := o.2.run calls
    (o.1 :: r.1, r.2)

end BearTLS
