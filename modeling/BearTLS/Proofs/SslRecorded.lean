import BearTLS.Proofs.SslReceiving
import BearTLS.Spec.SslHistory

/-! The endpoint keeps its contract with the driver whatever bytes it receives, as its history
shows. -/

namespace BearTLS

section Calm

variable {κ ι : Type} {P : Protection κ ι} {maxLen : ℕ} {a : Endpoint κ ι}

end Calm

section Records

variable {κ ι : Type} {P : Protection κ ι} {maxLen : ℕ} {a : Endpoint κ ι} {x : Phase κ ι}
  {g g' : Stage} {sent rest injected : List UInt8} {new : List Plaintext} {r : Recorded κ ι}

theorem calm_readable (x : Phase κ ι) : x.calm.readable = x.readable := by
  cases x <;> rfl

end Records

section Sending

variable {κ ι : Type} {P : Protection κ ι} {maxLen room : ℕ} {c : κ} {d : ι} {a : Endpoint κ ι}
  {x : Phase κ ι} {g g' : Stage} {r s : Recorded κ ι}

theorem Keeps.reads {taken : List UInt8} (h : Keeps a.calm x.calm g g' taken false) :
    taken ++ x.readable = a.readable := by
  rw [← calm_readable x]
  rcases h.readable with h | ⟨h, -⟩
  · exact h
  · exact absurd h Bool.false_ne_true

end Sending

end BearTLS
