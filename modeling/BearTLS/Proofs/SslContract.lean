import BearTLS.Proofs.Contract
import BearTLS.Proofs.SslDelivery
import BearTLS.Proofs.SslHistory

/-! The engine of the program under the contract that `wm_https.c` relies on, where a
renegotiation is refused. -/

namespace BearTLS

open Memory SslEngine

section Refusing

variable {κ ι : Type} {P : Protection κ ι} {maxLen room : ℕ} {R : RecordIn ι} {W : RecordOut κ}
  {e : SslEngine κ ι} {a b : Endpoint κ ι} {data : List UInt8} {err : ℤ} {action : ℕ}
  {handshake : SslEngine κ ι → SslEngine κ ι}

end Refusing

section Sealed

variable {κ ι : Type} {P : Protection κ ι} {maxLen room : ℕ} {rel : κ → ι → Prop}
  {a b : Endpoint κ ι} {k : κ} {done todo : List Plaintext} {bytes rest : List UInt8} {gx : Stage}

end Sealed

section Sessions

variable (u : Suite) {handshake : SslEngine u.Ctx u.Ctx → SslEngine u.Ctx u.Ctx} {err : ℤ}

end Sessions

end BearTLS
