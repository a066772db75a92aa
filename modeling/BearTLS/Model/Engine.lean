import Mathlib.Data.List.Basic
import Mathlib.Data.Int.Notation
import Mathlib.Order.Basic

/-! The `br_ssl_engine_*` interface as `wm_https.c` uses it. An engine is any
type of states with these operations. `Engine.Lawful` says what each operation
does to the history of the connection (the records closed so far, the plaintext
accumulated behind them, the bytes fed and the plaintext taken). `SslContract`
shows it of `ssl_engine.c`, from the end of a handshake on. -/

namespace BearTLS

/-- The bits of `br_ssl_engine_current_state`. -/
structure EngineState where
  closed : Bool
  sendrec : Bool
  recvrec : Bool
  sendapp : Bool
  recvapp : Bool
deriving DecidableEq, Repr

/-- The engine calls of `wm_https.c`. A buffer call returns the exposed bytes
(or their number, where the caller writes them); an `ack` takes the bytes that
the caller stored there or the number of bytes it consumed. -/
structure Engine (σ : Type) where
  currentState : σ → EngineState
  lastError : σ → ℤ
  sendrecBuf : σ → List UInt8
  sendrecAck : σ → ℕ → σ
  recvrecBuf : σ → ℕ
  recvrecAck : σ → List UInt8 → σ
  sendappBuf : σ → ℕ
  sendappAck : σ → List UInt8 → σ
  recvappBuf : σ → List UInt8
  recvappAck : σ → ℕ → σ
  flush : σ → σ
  close : σ → σ

/-- A closed record: its bytes on the wire and the application plaintext inside
(none for handshake messages and alerts). -/
structure TlsRecord where
  wire : List UInt8
  payload : List UInt8
deriving DecidableEq, Repr

def wireOf (rs : List TlsRecord) : List UInt8 := rs.flatMap TlsRecord.wire

def payloadOf (rs : List TlsRecord) : List UInt8 := rs.flatMap TlsRecord.payload

@[simp] theorem payloadOf_nil : payloadOf [] = [] := rfl

@[simp] theorem wireOf_append (rs ts : List TlsRecord) :
    wireOf (rs ++ ts) = wireOf rs ++ wireOf ts := by
  simp [wireOf]

@[simp] theorem payloadOf_append (rs ts : List TlsRecord) :
    payloadOf (rs ++ ts) = payloadOf rs ++ payloadOf ts := by
  simp [payloadOf]

/-- What one connection has done so far, as a function of its engine state.
`plain` is the decryption of the received byte sequence; `closing` holds once
`br_ssl_engine_close` has been called. -/
structure History (σ : Type) where
  Valid : σ → Prop
  recs : σ → List TlsRecord
  acked : σ → ℕ
  acc : σ → List UInt8
  fed : σ → List UInt8
  taken : σ → ℕ
  closeNotify : σ → Prop
  closing : σ → Prop
  plain : List UInt8 → List UInt8

namespace History

variable {σ : Type} (H : History σ)

/-- The output record stream. -/
def wire (e : σ) : List UInt8 := wireOf (H.recs e)

/-- The plaintext the application has put into the engine. -/
def injected (e : σ) : List UInt8 := payloadOf (H.recs e) ++ H.acc e

/-- The decrypted plaintext that the application has not taken. -/
def unread (e : σ) : List UInt8 := (H.plain (H.fed e)).drop (H.taken e)

/-- The history of one engine call: records are only appended, and what they
carry comes out of the accumulated plaintext. -/
structure Advance (e e' : σ) (acked : ℕ) (inj fed : List UInt8) (taken : ℕ) : Prop where
  recs : ∃ new, H.recs e' = H.recs e ++ new ∧
    payloadOf new ++ H.acc e' = H.acc e ++ inj
  acked : H.acked e' = H.acked e + acked
  fed : H.fed e' = H.fed e ++ fed
  taken : H.taken e' = H.taken e + taken

/-- `Advance` by any call but `br_ssl_engine_close`. -/
structure Step (e e' : σ) (acked : ℕ) (inj fed : List UInt8) (taken : ℕ) : Prop
    extends H.Advance e e' acked inj fed taken where
  valid : H.Valid e'
  closing : H.closing e' ↔ H.closing e

/-- The engine of an open connection. -/
structure Open (e : σ) : Prop where
  valid : H.Valid e
  not_closing : ¬ H.closing e

/-- An engine that `br_ssl_client_reset` has just set up. -/
structure Fresh (e : σ) : Prop extends H.Open e where
  payload : payloadOf (H.recs e) = []
  acked : H.acked e = 0
  acc : H.acc e = []
  fed : H.fed e = []
  taken : H.taken e = 0

end History

/-- The interface contract. The engine is in full-duplex mode: it holds at most
one closed record, it takes no plaintext while that record has unsent bytes,
and it receives nothing while decrypted plaintext is unread. -/
structure Engine.Lawful {σ : Type} (E : Engine σ) (H : History σ) : Prop where
  sendrec_iff : ∀ e, H.Valid e → (E.currentState e).closed = false →
    ((E.currentState e).sendrec = true ↔ E.sendrecBuf e ≠ [])
  sendrec_closed : ∀ e, H.Valid e → (E.currentState e).closed = true → E.sendrecBuf e = []
  sendrec_pending : ∀ e, H.Valid e → (E.currentState e).closed = false →
    E.sendrecBuf e = (H.wire e).drop (H.acked e)
  acked_le : ∀ e, H.Valid e → H.acked e ≤ (H.wire e).length
  recvrec_unread : ∀ e, H.Open e → (E.currentState e).recvrec = true → H.unread e = []
  recvapp_exposes : ∀ e, H.Open e → E.recvappBuf e <+: H.unread e
  plain_mono : ∀ xs ys, H.plain xs <+: H.plain (xs ++ ys)
  -- error 0 is a completed closure: `do-close` in `ssl_hs_common.t0` fails with
  -- ERR_OK only after a `close_notify` of the peer and with nothing left to send
  closed_ok : ∀ e, H.Valid e → (E.currentState e).closed = true →
    (E.lastError e = 0 ↔ H.closeNotify e)
  closed_drained : ∀ e, H.Valid e → (E.currentState e).closed = true → E.lastError e = 0 →
    H.acked e = (H.wire e).length ∧ H.acc e = []
  notify_pending : ∀ e, H.Valid e → H.closeNotify e → (E.currentState e).closed = false →
    (E.currentState e).sendrec = true
  notify_unread : ∀ e, H.Open e → H.closeNotify e → H.unread e = []
  sendrec_ack : ∀ e n, H.Valid e → (E.currentState e).closed = false → 0 < n →
    n ≤ (E.sendrecBuf e).length → H.Step e (E.sendrecAck e n) n [] [] 0
  recvrec_ack : ∀ e bs, H.Open e → (E.currentState e).closed = false →
    (E.currentState e).recvrec = true → bs ≠ [] → bs.length ≤ E.recvrecBuf e →
    H.Step e (E.recvrecAck e bs) 0 [] bs 0
  -- the driver flushes right behind each `br_ssl_engine_sendapp_ack`, and nowhere else
  sendapp_flush : ∀ e d, H.Open e → (E.currentState e).closed = false →
    (E.currentState e).sendapp = true → d ≠ [] → d.length ≤ E.sendappBuf e →
    H.Step e (E.flush (E.sendappAck e d)) 0 d [] 0 ∧ H.acc (E.flush (E.sendappAck e d)) = [] ∧
      (E.currentState (E.flush (E.sendappAck e d))).closed = false
  recvapp_ack : ∀ e n, H.Open e → (E.currentState e).closed = false →
    (E.currentState e).recvapp = true → 0 < n → n ≤ (E.recvappBuf e).length →
    H.Step e (E.recvappAck e n) 0 [] [] n ∧
      (E.currentState (E.recvappAck e n)).closed = false
  close : ∀ e, H.Open e → H.Valid (E.close e) ∧ H.Advance e (E.close e) 0 [] [] 0

end BearTLS
