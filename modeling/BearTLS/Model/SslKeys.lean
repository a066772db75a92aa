import BearTLS.Model.SslProcessor
import BearTLS.Model.SslRecordProtection
import Mathlib.Data.List.OfFn

/-! The key block of a session, the switch to the record protection that it keys, the Finished
records, and the end of the handshake. -/

namespace BearTLS

open Memory

/-- What both ends of a handshake hold: `iprf` is the PRF that `br_ssl_engine_get_PRF` chooses. -/
structure SslSecrets where
  iprf : ℕ → List UInt8 → String → List (List UInt8) → List UInt8
  masterSecret : List UInt8
  clientRandom : List UInt8
  serverRandom : List UInt8

def computeKeyBlock (s : SslSecrets) (halfLen : ℕ) : List UInt8 :=
  s.iprf (halfLen <<< 1) s.masterSecret "key expansion" [s.serverRandom, s.clientRandom]

/-- The 12 bytes at `p`. -/
def twelveAt (kb : List UInt8) (p : ℕ) : List.Vector UInt8 12 :=
  List.Vector.ofFn fun i => kb.getD (p + i) 0

namespace SslEngine

variable {κ ι : Type} (cc : SslEngine κ ι) (isClient : Bool) (s : SslSecrets)

section Gcm

variable (ctr : List UInt8 → List UInt8 → UInt32 → ℕ → UInt8)
  (gh : List UInt8 → List.Vector UInt8 16 → List UInt8 → List.Vector UInt8 16) (cipherKeyLen : ℕ)

/-- `br_ssl_engine_switch_gcm_in`. -/
def switchGcmIn : SslEngine κ GcmContext :=
  let kb := computeKeyBlock s (cipherKeyLen + 4)
  let (cipherKey, iv) := if isClient then
      (kb.drop cipherKeyLen, kb.drop ((cipherKeyLen <<< 1) + 4))
    else (kb, kb.drop (cipherKeyLen <<< 1))
  { cc with
    inCtx := genGcmInit ctr gh (cipherKey.take cipherKeyLen) (iv.take 4)
    incrypt := true }

/-- `br_ssl_engine_switch_gcm_out`. -/
def switchGcmOut : SslEngine GcmContext ι :=
  let kb := computeKeyBlock s (cipherKeyLen + 4)
  let (cipherKey, iv) := if isClient then (kb, kb.drop (cipherKeyLen <<< 1))
    else (kb.drop cipherKeyLen, kb.drop ((cipherKeyLen <<< 1) + 4))
  { cc with outCtx := genGcmInit ctr gh (cipherKey.take cipherKeyLen) (iv.take 4) }

end Gcm

section ChaPol

variable (ichacha : List UInt8 → List UInt8 → UInt32 → ℕ → UInt8)
  (ipoly : List UInt8 → List UInt8 → List UInt8 → List UInt8 → List.Vector UInt8 16)

/-- `br_ssl_engine_switch_chapol_in`. -/
def switchChapolIn : SslEngine κ ChapolContext :=
  let kb := computeKeyBlock s 44
  let (cipherKey, iv) := if isClient then (kb.drop 32, 76) else (kb, 64)
  { cc with
    inCtx := genChapolInit ichacha ipoly (cipherKey.take 32) (twelveAt kb iv)
    incrypt := true }

/-- `br_ssl_engine_switch_chapol_out`. -/
def switchChapolOut : SslEngine ChapolContext ι :=
  let kb := computeKeyBlock s 44
  let (cipherKey, iv) := if isClient then (kb, 64) else (kb.drop 32, 76)
  { cc with outCtx := genChapolInit ichacha ipoly (cipherKey.take 32) (twelveAt kb iv) }

end ChaPol

/-- The fields that `br_ssl_engine_hs_reset` clears. -/
def hsReset : SslEngine κ ι :=
  { cc with shutdownRecv := false, applicationData := 0, alert := 0 }

/-- `write-Finished` and the flush behind it: the message is put together at `data`, and sealed
there. With it, the body of the record. -/
def writeFinished (W : RecordOut κ) (msg : List UInt8) (data : ℕ) : SslEngine κ ι × List UInt8 :=
  let m := store cc.buf data msg
  let (c, m, buf, total) := W.encrypt cc.outCtx BR_SSL_HANDSHAKE BR_TLS12 m data msg.length
  ({ cc with outCtx := c, buf := m }, load m (buf + 5) (total - 5))

/-- The end of `do-handshake` in TLS 1.2, once all its records have been sent and read. -/
def endHandshake (W : RecordOut κ) : SslEngine κ ι :=
  let cc := makeReadyOut W cc.makeReadyIn
  { cc with
    versionIn := BR_TLS12
    versionOut := BR_TLS12
    closeReceived := false
    applicationData := 1
    recordTypeOut := BR_SSL_APPLICATION_DATA
    co := .main }

end SslEngine

/-- `br_ssl_client_zero` and `br_ssl_server_zero`. -/
def SslEngine.zero : SslEngine Unit Unit where
  buf _ := 0
  err := 0
  ibuf := 0
  obuf := 0
  ibufLen := 0
  obufLen := 0
  maxFragLen := 0
  ixa := 0
  ixb := 0
  ixc := 0
  oxa := 0
  oxb := 0
  oxc := 0
  iomode := .failed
  incrypt := false
  shutdownRecv := false
  recordTypeIn := 0
  recordTypeOut := 0
  versionIn := 0
  versionOut := 0
  inCtx := ()
  outCtx := ()
  applicationData := 0
  hbufIn := 0
  hbufOut := none
  savedHbufOut := none
  hlenIn := 0
  hlenOut := 0
  action := 0
  alert := 0
  closeReceived := false
  co := .handshake

/-- The AEAD suites, with the implementations that the engine holds for them. -/
inductive Suite where
  | gcm (ctr : List UInt8 → List UInt8 → UInt32 → ℕ → UInt8)
    (gh : List UInt8 → List.Vector UInt8 16 → List UInt8 → List.Vector UInt8 16)
    (cipherKeyLen : ℕ)
  | chapol (ichacha : List UInt8 → List UInt8 → UInt32 → ℕ → UInt8)
    (ipoly : List UInt8 → List UInt8 → List UInt8 → List UInt8 → List.Vector UInt8 16)

namespace Suite

def Ctx : Suite → Type
  | .gcm .. => GcmContext
  | .chapol .. => ChapolContext

def recordIn : (u : Suite) → RecordIn u.Ctx
  | .gcm .. => gcmIn
  | .chapol .. => chapolIn

def recordOut : (u : Suite) → RecordOut u.Ctx
  | .gcm .. => gcmOut
  | .chapol .. => chapolOut

section Handshake

variable {κ ι : Type} (cc : SslEngine κ ι) (isClient : Bool) (s : SslSecrets)

/-- `switch-encryption`, for the output. -/
def switchOut : (u : Suite) → SslEngine u.Ctx ι
  | .gcm ctr gh cipherKeyLen => cc.switchGcmOut isClient s ctr gh cipherKeyLen
  | .chapol ichacha ipoly => cc.switchChapolOut isClient s ichacha ipoly

end Handshake

/-- One end behind its own Finished record. -/
def finished (u : Suite) (rc : SslEngine Unit Unit) (s : SslSecrets) (isClient : Bool)
    (msg : List UInt8) (data : ℕ) : SslEngine u.Ctx Unit × List UInt8 :=
  let cc := (rc.setBuffer clearOut () BR_SSL_BUFSIZE_BIDI true).hsReset
  (u.switchOut cc isClient s).writeFinished u.recordOut msg data

/-- One end at the start of its session, under any contexts that a handshake may leave. -/
def established (u : Suite) (rc : SslEngine Unit Unit) (outCtx inCtx : u.Ctx) :
    SslEngine u.Ctx u.Ctx :=
  SslEngine.endHandshake
    { (rc.setBuffer clearOut () BR_SSL_BUFSIZE_BIDI true).hsReset with
      outCtx := outCtx
      inCtx := inCtx
      incrypt := true } u.recordOut

end Suite

end BearTLS
