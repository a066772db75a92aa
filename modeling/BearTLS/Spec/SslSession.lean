import BearTLS.Spec.Network
import BearTLS.Spec.SslEndpoint

/-! An established session: what the ends agree on, the stages of its closure, and the flow
of records from one end to the other. -/

namespace BearTLS

/-- A record before its protection. -/
abbrev Plaintext := UInt8 × List UInt8

namespace Protection

variable {κ ι : Type} (P : Protection κ ι)

/-- The wire bytes of records that are protected one after another. -/
def wires : κ → List Plaintext → List UInt8
  | _, [] => []
  | c, r :: rs => recordWire r.1 (P.encode c r.1 r.2).2 ++ wires (P.encode c r.1 r.2).1 rs

def ctxAfter (c : κ) (rs : List Plaintext) : κ := rs.foldl (fun c r => (P.encode c r.1 r.2).1) c

/-- The receiving context `d` undoes what the sending context `c` does, and the next ones are
matched again. -/
structure Matched (maxLen : ℕ) (rel : κ → ι → Prop) : Prop where
  decode : ∀ c d t pt, rel c d → pt.length ≤ maxLen →
    ∃ d', P.decode d t (P.encode c t pt).2 = (d', some pt) ∧ rel (P.encode c t pt).1 d'
  lengthOk : ∀ c d t pt, rel c d → pt.length ≤ maxLen →
    P.lengthOk d (P.encode c t pt).2.length = true

/-- A full record fits the buffer of the other end. -/
structure Suits (maxLen room : ℕ) : Prop where
  length_encode : ∀ c t pt, (P.encode c t pt).2.length = P.before + pt.length + P.after
  two_le : 2 ≤ maxLen
  fits : P.before + maxLen + P.after ≤ room
  small : P.before + maxLen + P.after < 65536

end Protection

def closeNotify : Plaintext := (BR_SSL_ALERT, [1, 0])

/-- The bytes for the application. -/
def payloads (rs : List Plaintext) : List UInt8 :=
  rs.flatMap fun r => if r.1 = BR_SSL_APPLICATION_DATA then r.2 else []

/-- Application data, as the engine closes it into records. -/
def IsData (maxLen : ℕ) (r : Plaintext) : Prop :=
  r.1 = BR_SSL_APPLICATION_DATA ∧ r.2 ≠ [] ∧ r.2.length ≤ maxLen

/-- Application data, and the `close_notify` behind it once that is sent. -/
def Ordered (maxLen : ℕ) (notified : Bool) (rs : List Plaintext) : Prop :=
  ∃ data, (∀ r ∈ data, IsData maxLen r) ∧ rs = data ++ if notified then [closeNotify] else []

/-- How far the closure of one end has gone: it waits for room for its `close_notify`, or has
sent it; it has received that of its peer, or not. -/
inductive Stage where
  | opened
  | flushing
  | waiting
  | answering
  | answered
  | finished
deriving DecidableEq, Repr

namespace Stage

def app : Stage → UInt8
  | .opened => 1
  | .flushing | .waiting => 2
  | .answering | .answered | .finished => 0

def co : Stage → CoPoint
  | .opened => .main
  | .flushing => .closeFlush false
  | .waiting => .closeWait false
  | .answering => .closeFlush true
  | .answered | .finished => .closeWait true

/-- Its `close_notify` is among the records. -/
def notified : Stage → Bool
  | .opened | .flushing | .answering => false
  | .waiting | .answered | .finished => true

/-- That of its peer has come. -/
def heard : Stage → Bool
  | .opened | .flushing | .waiting => false
  | .answering | .answered | .finished => true

/-- An end starts a closure only when it is asked to, and leaves `opened` for good. -/
def Follows (g g' : Stage) (closes : Bool) : Prop :=
  (g' = .flushing ∨ g' = .waiting → closes = true ∨ g = .flushing ∨ g = .waiting) ∧
    (g' = .opened → g = .opened ∧ closes = false)

instance (g g' : Stage) (closes : Bool) : Decidable (g.Follows g' closes) :=
  inferInstanceAs (Decidable (_ ∧ _))

end Stage

namespace Incoming

/-- The bytes of a record that is not complete. -/
def partly : Incoming → List UInt8
  | .header got => got
  | .body type len got => recordHeader type len ++ got
  | .plain _ _ => []

end Incoming

section Stages

variable {κ ι : Type} (maxLen : ℕ)

def OutFits (g : Stage) : Outgoing → Prop
  | .gathering acc => acc.length < maxLen ∧ (g = .opened ∨ g = .waiting ∧ acc = [])
  | .sending rest => rest ≠ []

def InFits (heard : Bool) : Incoming → Prop
  | .header got => got.length < 5 ∧ (heard = true → got = [])
  | .body _ len got => got.length < len ∧ len < 65536 ∧ heard = false
  | .plain type rest => type = BR_SSL_APPLICATION_DATA ∧ rest ≠ [] ∧ heard = false

structure Endpoint.Receiving (a : Endpoint κ ι) (heard : Bool) : Prop where
  alert : a.alert = 0
  shutdown : a.shutdown = heard
  inp : InFits heard a.inp

structure Endpoint.At (a : Endpoint κ ι) (g : Stage) : Prop extends a.Receiving g.heard where
  live : g ≠ .finished
  app : a.app = g.app
  co : a.co = g.co
  typeOut : a.typeOut = if g.notified then BR_SSL_ALERT else BR_SSL_APPLICATION_DATA
  out : OutFits maxLen g a.out

def Phase.At (x : Phase κ ι) (g : Stage) : Prop :=
  match x with
  | .established a => a.At maxLen g
  | .closed err => err = 0 ∧ g = .finished
  | .left => False

end Stages

section Flow

variable {κ ι : Type}

/-- An end at the start of its session. -/
def Endpoint.fresh (outCtx : κ) (inCtx : ι) : Endpoint κ ι where
  out := .gathering []
  inp := .header []
  outCtx := outCtx
  inCtx := inCtx
  typeOut := BR_SSL_APPLICATION_DATA
  app := 1
  alert := 0
  shutdown := false
  co := .main

def Endpoint.gathered (a : Endpoint κ ι) : List UInt8 :=
  match a.out with
  | .gathering acc => acc
  | .sending _ => []

/-- What a phase has gathered, is sending, has received of a record, and holds for the
application. -/
def Phase.gathered : Phase κ ι → List UInt8
  | .established a => a.gathered
  | _ => []

def Phase.pending : Phase κ ι → List UInt8
  | .established a => a.pending
  | _ => []

def Phase.partly : Phase κ ι → List UInt8
  | .established a => a.inp.partly
  | _ => []

def Phase.readable : Phase κ ι → List UInt8
  | .established a => a.readable
  | _ => []

variable (P : Protection κ ι) (maxLen : ℕ) (rel : κ → ι → Prop)

/-- The flow from `x` to `y`: of the records that `x` has closed, `y` has received those of
`done`, and the bytes of `todo` are on their way. -/
structure Flow (x y : Phase κ ι) (gx gy : Stage) (wire injected taken : List UInt8)
    (closing : Bool) (done todo : List Plaintext) (c : κ) : Prop where
  ordered : Ordered maxLen gx.notified (done ++ todo)
  done_ordered : Ordered maxLen gy.heard done
  outCtx : ∀ a, x = .established a → a.outCtx = P.ctxAfter c todo
  inCtx : ∀ b, y = .established b → rel c b.inCtx
  bytes : y.partly ++ wire ++ x.pending = P.wires c todo
  injected_eq : injected = payloads (done ++ todo) ++ x.gathered
  taken_prefix : taken ++ y.readable <+: payloads done
  taken_eq : closing = false → taken ++ y.readable = payloads done

/-- What one end emits: bytes of what it was sending, and the records that it closes. -/
structure Emits (a : Endpoint κ ι) (x : Phase κ ι) (g g' : Stage) (sent injected : List UInt8)
    (new : List Plaintext) : Prop where
  stage : x.At maxLen g'
  pending : sent ++ x.pending = a.pending ++ P.wires a.outCtx new
  outCtx : ∀ b, x = .established b → b.outCtx = P.ctxAfter a.outCtx new
  gathered : payloads new ++ x.gathered = a.gathered ++ injected
  notified : g.notified = true → new = [] ∧ g'.notified = true
  ordered : g.notified = false → Ordered maxLen g'.notified new

/-- It receives nothing, and gives up what it holds for the application only in a closure. -/
structure Keeps (a : Endpoint κ ι) (x : Phase κ ι) (g g' : Stage) (taken : List UInt8)
    (closes : Bool) : Prop where
  follows : g.Follows g' closes
  heard : g'.heard = g.heard
  partly : x.partly = a.inp.partly
  inCtx : ∀ b, x = .established b → b.inCtx = a.inCtx
  readable : taken ++ x.readable = a.readable ∨ closes = true ∧ taken = [] ∧ x.readable = []

/-- What it receives: the records of `todo` that are now complete go to `done`. -/
structure Receives (a : Endpoint κ ι) (x : Phase κ ι) (g g' : Stage) (c c' : κ)
    (done todo done' todo' : List Plaintext) (rest taken : List UInt8) : Prop where
  split : ∃ come, todo = come ++ todo' ∧ done' = done ++ come
  ordered : Ordered maxLen g'.heard done'
  ctx : P.ctxAfter c' todo' = P.ctxAfter c todo
  inCtx : ∀ b, x = .established b → rel c' b.inCtx
  bytes : x.partly ++ rest = P.wires c' todo'
  taken_prefix : (g = .opened → taken ++ a.readable = payloads done) →
    taken ++ a.readable <+: payloads done → taken ++ x.readable <+: payloads done'
  taken_eq : g = .opened → taken ++ a.readable = payloads done →
    taken ++ x.readable = payloads done'

/-- What an end still has to send, each byte at what it can cost until it is read: with its
record where it is not yet in one, and with the `close_notify` where that is still to come. -/
def outEffort (x : Phase κ ι) (g : Stage) : ℕ :=
  3 * ((6 + P.before + P.after) * x.gathered.length + x.pending.length +
    if g.notified then 0 else 7 + P.before + P.after)

/-- And what it has received but not handed over. -/
def inEffort (x : Phase κ ι) : ℕ := x.partly.length + x.readable.length

def sideEffort (m : Network (Phase κ ι)) (g : Side → Stage) (s : Side) : ℕ :=
  outEffort P (m.ends s) (g s) + inEffort (m.ends s) + 2 * (m.wire s).length

def effort (m : Network (Phase κ ι)) (g : Side → Stage) : ℕ :=
  sideEffort P m g .client + sideEffort P m g .server

/-- Both flows of a network, and the stages of its ends. -/
structure Session (m : Network (Phase κ ι)) (g : Side → Stage) : Prop where
  stage : ∀ s, (m.ends s).At maxLen (g s)
  closes : ∀ s, g s = .flushing ∨ g s = .waiting → m.closing s = true
  opened : ∀ s, m.closing s = true → g s ≠ .opened
  flow : ∀ s, ∃ done todo c, Flow P maxLen rel (m.ends s) (m.ends s.other) (g s) (g s.other)
    (m.wire s.other) (m.injected s) (m.taken s.other) (m.closing s.other) done todo c

end Flow

end BearTLS
