import BearTLS.Model.Engine
import BearTLS.Model.SslRecord

/-! The handshake processor of an established connection, and the external API of
`ssl_engine.c` around it. The processor is the coroutine of `ssl_hs_common.t0`: the main loop
waits for an alert or a close, and `do-close` ends the connection. What it does with
handshake messages and renegotiations is a parameter. -/

namespace BearTLS

open Memory

namespace SslEngine

variable {κ ι : Type} (R : RecordIn ι) (W : RecordOut κ)
  (handshake : SslEngine κ ι → SslEngine κ ι) (cc : SslEngine κ ι)

/-- `br_ssl_engine_flush_record`. -/
def flushRecord : SslEngine κ ι :=
  let cc := match cc.hbufOut, cc.savedHbufOut with
    | some p, some q => if p ≠ q then cc.sendpldAck W (p - q) else cc
    | _, _ => cc
  let cc := if cc.hasPldToSend then cc.sendpldFlush W false else cc
  match cc.sendpldBuf with
  | none => { cc with savedHbufOut := none, hbufOut := none, hlenOut := 0 }
  | some (p, len) => { cc with savedHbufOut := some p, hbufOut := some p, hlenOut := len }

/-- `write8-native`, for a record that is not hashed. -/
def write8Native (x : UInt8) : SslEngine κ ι :=
  match cc.hbufOut with
  | none => cc
  | some p =>
    if cc.hlenOut > 0 then
      { cc with buf := store cc.buf p [x], hbufOut := some (p + 1), hlenOut := cc.hlenOut - 1 }
    else cc

def sendAlert (level alert : UInt8) : SslEngine κ ι :=
  let cc := { cc with recordTypeOut := BR_SSL_ALERT }
  ((cc.write8Native level).write8Native alert).flushRecord W

def sendWarning (alert : UInt8) : SslEngine κ ι := cc.sendAlert W 1 alert

/-- True for a `close_notify`; `none` where the context is terminated. -/
def processAlertByte (x : UInt8) : SslEngine κ ι × Option Bool :=
  if cc.alert = 0 then ({ cc with alert := if x ≠ 1 then 2 else x }, some false)
  else if cc.alert = 1 then
    let cc := { cc with alert := 0 }
    if x = 100 then (cc.fail (256 + x.toNat), none) else (cc, some (x = 0))
  else (cc.fail (256 + x.toNat), none)

/-- The loop of `process-alerts`, for `n` bytes of input. -/
def processAlertsLoop : ℕ → SslEngine κ ι → Bool → SslEngine κ ι × Option Bool
  | 0, cc, found => (cc, some found)
  | n + 1, cc, found =>
    let x := cc.buf cc.hbufIn
    let cc := { cc with hbufIn := cc.hbufIn + 1, hlenIn := cc.hlenIn - 1 }
    match cc.processAlertByte x with
    | (cc, none) => (cc, none)
    | (cc, some b) => processAlertsLoop n cc (b || found)

def processAlerts : SslEngine κ ι × Option Bool :=
  match processAlertsLoop cc.hlenIn cc false with
  | (cc, some true) => ({ cc with shutdownRecv := true }, some true)
  | r => r

/-- The last loop of `do-close`, up to the next yield. -/
def closeWait (cnr : Bool) : SslEngine κ ι :=
  if cnr ∧ cc.hlenOut > 0 then cc.fail 0 else { cc with co := .closeWait cnr }

/-- The wait of `do-close` for room, and what follows, up to the next yield. -/
def closeFlush (cnr : Bool) : SslEngine κ ι :=
  if cc.hlenOut > 0 then (cc.sendWarning W 0).closeWait cnr
  else { cc with co := .closeFlush cnr }

/-- `do-close`. -/
def doClose (cnr : Bool) : SslEngine κ ι :=
  let cc := { cc with applicationData := if cnr then 0 else cc.applicationData <<< 1 }
  (cc.flushRecord W).closeFlush W cnr

/-- `wait-for-close` behind its yield, then `next`. -/
def afterWait (cnr : Bool) (next : SslEngine κ ι → Bool → SslEngine κ ι) : SslEngine κ ι :=
  if cnr then next cc cnr
  else if cc.hlenIn ≠ 0 then
    if cc.recordTypeIn = BR_SSL_ALERT then
      match cc.processAlerts with
      | (cc, none) => cc
      | (cc, some cnr) => next { cc with applicationData := 0 } cnr
    else next { cc with hlenIn := 0 } cnr
  else next cc cnr

/-- `wait-co` behind its yield, and the main loop up to the next one. -/
def mainLoop : SslEngine κ ι :=
  if cc.action = 1 then cc.doClose W false
  else
    let reneg := cc.action = 2 ∧ cc.applicationData = 1
    if cc.closeReceived = false ∧ cc.hlenIn ≠ 0 then
      if cc.recordTypeIn = BR_SSL_ALERT then
        match cc.processAlerts with
        | (cc, none) => cc
        | (cc, some true) => cc.doClose W true
        | (cc, some false) => if reneg then handshake cc else cc
      else if cc.recordTypeIn = BR_SSL_HANDSHAKE then handshake cc
      else cc.fail BR_ERR_UNEXPECTED
    else if reneg then handshake cc else cc

/-- `hsrun`: the processor goes on where it has yielded. -/
def hsrun : SslEngine κ ι :=
  match cc.co with
  | .main => cc.mainLoop W handshake
  | .closeFlush cnr => cc.afterWait cnr fun cc cnr => cc.closeFlush W cnr
  | .closeWait cnr => cc.afterWait cnr fun cc cnr => cc.closeWait cnr
  | .handshake => handshake cc

/-- The buffers that `jump_handshake` offers to the processor. -/
def offer (action : ℕ) : SslEngine κ ι :=
  let (hbufIn, hlenIn) := match cc.recvpldBuf with
    | none => (0, 0)
    | some (p, len) => (p, if cc.recordTypeIn = BR_SSL_APPLICATION_DATA then 0 else len)
  let (hbufOut, hlenOut) := match cc.sendpldBuf with
    | none => (none, 0)
    | some (p, len) => (some p, if cc.hasPldToSend then 0 else len)
  { cc with
    hbufIn := hbufIn
    hlenIn := hlenIn
    hbufOut := hbufOut
    savedHbufOut := hbufOut
    hlenOut := hlenOut
    action := action }

/-- `jump_handshake`, for at most so many rounds of its loop. -/
def jumpHandshake : ℕ → ℕ → SslEngine κ ι → SslEngine κ ι
  | 0, _, cc => cc
  | rounds + 1, action, cc =>
    let cc := cc.offer action
    let hlenIn := cc.hlenIn
    let cc := cc.hsrun W handshake
    if cc.closed then cc
    else
      let cc := match cc.hbufOut, cc.savedHbufOut with
        | some p, some q => if p ≠ q then cc.sendpldAck W (p - q) else cc
        | _, _ => cc
      if hlenIn ≠ cc.hlenIn then
        let rest := cc.hlenIn
        let cc := cc.recvpldAck (hlenIn - rest)
        if rest = 0 then jumpHandshake rounds 0 cc else cc
      else cc

/-- After a round that reads all input, the next one finds none. -/
def JUMP_ROUNDS : ℕ := 2

def brSslEngineSendappBuf : Option (ℕ × ℕ) :=
  if cc.applicationData &&& 1 = 0 then none else cc.sendpldBuf

def brSslEngineSendappAck (len : ℕ) : SslEngine κ ι := cc.sendpldAck W len

def brSslEngineRecvappBuf : Option (ℕ × ℕ) :=
  if cc.applicationData &&& 1 = 0 ∨ cc.recordTypeIn ≠ BR_SSL_APPLICATION_DATA then none
  else cc.recvpldBuf

def brSslEngineRecvappAck (len : ℕ) : SslEngine κ ι := cc.recvpldAck len

def brSslEngineSendrecBuf : Option (ℕ × ℕ) := cc.sendrecBuf

def brSslEngineSendrecAck (len : ℕ) : SslEngine κ ι :=
  let cc := cc.sendrecAck W len
  if len ≠ 0 ∧ cc.hasRecTosend = false ∧
      (cc.recordTypeOut ≠ BR_SSL_APPLICATION_DATA ∨ cc.applicationData &&& 1 = 0) then
    jumpHandshake W handshake JUMP_ROUNDS 0 cc
  else cc

def brSslEngineRecvrecBuf : Option (ℕ × ℕ) := cc.recvrecBuf

def brSslEngineRecvrecAck (len : ℕ) : SslEngine κ ι :=
  let cc := cc.recvrecAck R len
  if cc.closed then cc
  else
    match cc.recvpldBuf with
    | none => cc
    | some (_, len) =>
      if cc.recordTypeIn = BR_SSL_CHANGE_CIPHER_SPEC ∨ cc.recordTypeIn = BR_SSL_ALERT ∨
          cc.recordTypeIn = BR_SSL_HANDSHAKE then
        jumpHandshake W handshake JUMP_ROUNDS 0 cc
      else if cc.recordTypeIn = BR_SSL_APPLICATION_DATA then
        if cc.applicationData = 1 then cc
        else if cc.applicationData = 2 then cc.recvpldAck len
        else cc.fail BR_ERR_UNEXPECTED
      else cc.fail BR_ERR_UNEXPECTED

def brSslEngineClose : SslEngine κ ι :=
  if cc.closed then cc else jumpHandshake W handshake JUMP_ROUNDS 1 cc

def brSslEngineCurrentState : EngineState :=
  if cc.closed then ⟨true, false, false, false, false⟩
  else
    { closed := false
      sendrec := cc.brSslEngineSendrecBuf.isSome
      recvrec := cc.brSslEngineRecvrecBuf.isSome
      sendapp := cc.brSslEngineSendappBuf.isSome
      recvapp := cc.brSslEngineRecvappBuf.isSome }

def brSslEngineFlush (force : Bool) : SslEngine κ ι :=
  if cc.closed = false ∧ cc.applicationData &&& 1 ≠ 0 then cc.sendpldFlush W force else cc

def brSslEngineLastError : ℤ := cc.err

/-- The bytes that a buffer call exposes. -/
def exposed : Option (ℕ × ℕ) → List UInt8
  | none => []
  | some (p, len) => load cc.buf p len

/-- The engine after its caller has written into the buffer that a buffer call returned. -/
def filled (data : List UInt8) : Option (ℕ × ℕ) → SslEngine κ ι
  | none => cc
  | some (p, _) => { cc with buf := store cc.buf p data }

def spaceOf : Option (ℕ × ℕ) → ℕ
  | none => 0
  | some (_, len) => len

end SslEngine

/-- `ssl_engine.c` behind the calls of `wm_https.c`, which flushes without force. -/
def sslEngine {κ ι : Type} (R : RecordIn ι) (W : RecordOut κ)
    (handshake : SslEngine κ ι → SslEngine κ ι) : Engine (SslEngine κ ι) where
  currentState cc := cc.brSslEngineCurrentState
  lastError cc := cc.brSslEngineLastError
  sendrecBuf cc := cc.exposed cc.brSslEngineSendrecBuf
  sendrecAck cc len := cc.brSslEngineSendrecAck W handshake len
  recvrecBuf cc := SslEngine.spaceOf cc.brSslEngineRecvrecBuf
  recvrecAck cc data :=
    (cc.filled data cc.brSslEngineRecvrecBuf).brSslEngineRecvrecAck R W handshake data.length
  sendappBuf cc := SslEngine.spaceOf cc.brSslEngineSendappBuf
  sendappAck cc data :=
    (cc.filled data cc.brSslEngineSendappBuf).brSslEngineSendappAck W data.length
  recvappBuf cc := cc.exposed cc.brSslEngineRecvappBuf
  recvappAck cc len := cc.brSslEngineRecvappAck len
  flush cc := cc.brSslEngineFlush W false
  close cc := cc.brSslEngineClose W handshake

end BearTLS
