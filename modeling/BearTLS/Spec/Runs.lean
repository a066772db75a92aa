import BearTLS.Lib.Trace
import BearTLS.Model.Connection

/-! Runs of the streaming API: a connection from `wm_tls_open`, then calls of
`wm_tls_write` and `wm_tls_read` in any order, with any arguments and results. -/

namespace BearTLS

/-- One call that has returned. `bytesWritten`, `bytesRead` and `result` are what
the pointers of these names (NULL or not) point at then; `count` is what the
write counts, also where `bytes_written` is NULL. -/
inductive CallRecord where
  | write (data : List UInt8) (count : ℕ) (bytesWritten : Option ℕ) (ok : Bool)
  | read (bufferSize : ℕ) (data : List UInt8) (bytesRead : Option ℕ) (ok : Bool)
      (result : ResultPtr)

/-- The bytes that a call has counted as written. -/
def CallRecord.accepted : CallRecord → List UInt8
  | .write data n _ _ => data.take n
  | .read .. => []

/-- The bytes that a call has stored at `buffer`. -/
def CallRecord.delivered : CallRecord → List UInt8
  | .write .. => []
  | .read _ data _ _ _ => data

def accepted (hist : List CallRecord) : List UInt8 := hist.flatMap CallRecord.accepted

def delivered (hist : List CallRecord) : List UInt8 := hist.flatMap CallRecord.delivered

@[simp] theorem accepted_nil : accepted [] = [] := rfl

@[simp] theorem delivered_nil : delivered [] = [] := rfl

@[simp] theorem accepted_append (h k : List CallRecord) :
    accepted (h ++ k) = accepted h ++ accepted k := by
  simp [accepted]

@[simp] theorem delivered_append (h k : List CallRecord) :
    delivered (h ++ k) = delivered h ++ delivered k := by
  simp [delivered]

@[simp] theorem accepted_single (a : CallRecord) : accepted [a] = a.accepted := by
  simp [accepted]

@[simp] theorem delivered_single (a : CallRecord) : delivered [a] = a.delivered := by
  simp [delivered]

section Runs

variable {σ α : Type} (E : Engine σ) (os : Host σ)

/-- The connections that `wm_tls_open` hands out when it starts with the log `base`. -/
def Opened (reset : α → List UInt8 → Bool × σ) (base : Log σ) (c : Conn σ) : Prop :=
  ∃ (anchors : Option α) (fuel : ℕ) (host : Option (List UInt8)) (port : ℕ)
    (sniHost : Option (List UInt8)) (outConn : Option (Option (Conn σ))) (r : ResultPtr),
    (wmTlsOpen E os anchors reset fuel host port sniHost outConn base r).ret = some true ∧
    (wmTlsOpen E os anchors reset fuel host port sniHost outConn base r).outConn = some (some c)

/-- One call on the connection that has returned. -/
inductive CallStep : Conn σ → CallRecord → Conn σ → Prop
  | write {c c' : Conn σ} {fuel n : ℕ} {data : InBuf} {bw bw' : Option ℕ} {r r' : ResultPtr}
      {ok : Bool}
      (h : wmTlsWrite E os fuel (some c) data bw r = ⟨some ok, some c', bw', r'⟩)
      (hn : (wmTlsWrite E os fuel (some c) data (some 0) r).bytesWritten = some n) :
      CallStep c (.write data.bytes n bw' ok) c'
  | read {c c' : Conn σ} {fuel size : ℕ} {buffer : Bool} {br br' : Option ℕ} {r r' : ResultPtr}
      {ok : Bool} {data : List UInt8}
      (h : wmTlsRead E os fuel (some c) buffer size br r = ⟨some ok, some c', data, br', r'⟩) :
      CallStep c (.read size data br' ok r') c'

/-- Some moment of a call on the connection, whether it returns or not. -/
inductive Underway (c c' : Conn σ) : Prop
  | write (fuel : ℕ) (data : InBuf) (bw : Option ℕ) (r : ResultPtr)
      (h : (wmTlsWrite E os fuel (some c) data bw r).conn = some c')
  | read (fuel size : ℕ) (buffer : Bool) (br : Option ℕ) (r : ResultPtr)
      (h : (wmTlsRead E os fuel (some c) buffer size br r).conn = some c')

def ApiRun (reset : α → List UInt8 → Bool × σ) (base : Log σ) :
    Conn σ → List CallRecord → Prop :=
  Trace.Run (Opened E os reset base) (CallStep E os)

end Runs

end BearTLS
