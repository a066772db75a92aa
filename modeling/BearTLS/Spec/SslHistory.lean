import BearTLS.Spec.SslSession

/-! What a connection has done since the start of its session, kept beside the endpoint of its
engine. An end that would go back to a handshake fails. -/

namespace BearTLS

/-- `heard` is whether the `close_notify` of the peer has come. -/
structure Recorded (κ ι : Type) where
  phase : Phase κ ι
  recs : List TlsRecord
  acked : ℕ
  fed : List UInt8
  taken : ℕ
  heard : Bool
  closing : Bool

namespace Phase

variable {κ ι : Type}

end Phase

/-- At the start of its session. -/
def Recorded.fresh {κ ι : Type} (c : κ) (d : ι) : Recorded κ ι where
  phase := .established (Endpoint.fresh c d)
  recs := []
  acked := 0
  fed := []
  taken := 0
  heard := false
  closing := false

/-- The record that stands behind `rest` in what is to be sent. -/
def recordsBehind (rest wire payload : List UInt8) : List TlsRecord :=
  if wire.drop rest.length = [] then [] else [⟨wire.drop rest.length, payload⟩]

/-- A call leads to `x`. Of the record that was being sent, `rest` is left; `injected` is put in. -/
def Recorded.next {κ ι : Type} (r : Recorded κ ι) (x : Phase κ ι) (rest injected : List UInt8) :
    Recorded κ ι :=
  { r with
    phase := x
    recs := r.recs ++ recordsBehind rest x.pending (r.phase.gathered ++ injected) }

section Recording

variable {κ ι : Type} (P : Protection κ ι) (maxLen room : ℕ) (err : ℤ)

/-- An end that takes all application data at once, given one more byte. -/
def Phase.hear (s : Phase κ ι × List UInt8) (b : UInt8) : Phase κ ι × List UInt8 :=
  let x := s.1.bind fun a => a.receive P room [b]
  (x.map fun a => a.take a.readable.length, s.2 ++ x.readable)

/-- Such an end behind `bytes`, which the contexts `c` and `d` have been set up for. -/
def heardOf (c : κ) (d : ι) (bytes : List UInt8) : Phase κ ι × List UInt8 :=
  bytes.foldl (Phase.hear P room) (.established (Endpoint.fresh c d), [])

end Recording

section Validity

variable {κ ι : Type} (P : Protection κ ι) (maxLen room : ℕ) (c : κ) (d : ι)

/-- The endpoint but for an alert of which one byte has come. -/
def Endpoint.calm (a : Endpoint κ ι) : Endpoint κ ι := { a with alert := 0 }

def Phase.calm (x : Phase κ ι) : Phase κ ι := x.map Endpoint.calm

/-- What `heardOf` has come to where `a` has received the same bytes. -/
def Endpoint.listener (a : Endpoint κ ι) : Endpoint κ ι :=
  { Endpoint.fresh c a.inCtx with
    inp := match a.inp with
      | .plain _ _ => .header []
      | i => i
    alert := a.alert }

/-- The data that the application has not taken. -/
def Recorded.unread (r : Recorded κ ι) : List UInt8 := (heardOf P room c d r.fed).2.drop r.taken

/-- The history of an end at the stage `g`. What it has received counts until it is closed. -/
structure Recorded.Live (r : Recorded κ ι) (a : Endpoint κ ι) (g : Stage) : Prop where
  stage : a.calm.At maxLen g
  gathered : a.gathered = []
  heard : r.heard = g.heard
  pending : a.pending = (wireOf r.recs).drop r.acked
  acked_le : r.acked ≤ (wireOf r.recs).length
  own : r.closing = false → g ≠ .flushing ∧ g ≠ .waiting
  taken_le : r.closing = false → r.taken ≤ (heardOf P room c d r.fed).2.length
  unread : r.closing = false → r.unread P room c d = a.readable
  listens : r.closing = false → g = .opened →
    (heardOf P room c d r.fed).1 = .established (a.listener c)

/-- And of one that is closed. -/
structure Recorded.Dead (r : Recorded κ ι) (err : ℤ) : Prop where
  heard : r.heard = true ↔ err = 0
  acked_le : r.acked ≤ (wireOf r.recs).length
  sent : err = 0 → r.acked = (wireOf r.recs).length
  unread : r.closing = false → err = 0 → r.unread P room c d = []

def Recorded.Valid (r : Recorded κ ι) : Prop :=
  match r.phase with
  | .established a => ∃ g, r.Live P maxLen room c d a g
  | .closed err => r.Dead P room c d err
  | .left => False

end Validity

end BearTLS
