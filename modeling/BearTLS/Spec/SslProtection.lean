import BearTLS.Model.SslKeys
import BearTLS.Spec.SslSession

/-! The record protections as functions on byte strings, and the network of two ends that have
finished their handshake. -/

namespace BearTLS

def gcmProtection : Protection GcmContext GcmContext where
  before := 8
  after := 16
  encode cc type pt :=
    let nonce := brEnc64be cc.seq
    let (text, mask) := doCtr cc nonce pt (List.replicate 16 0)
    let (cc, tag) := doTag cc type BR_TLS12 text
    (cc, nonce ++ text ++ List.zipWith (· ^^^ ·) tag.toList mask)
  decode cc type body :=
    let text := (body.drop 8).take (body.length - 24)
    let (cc', tag) := doTag cc type BR_TLS12 text
    let (plain, tag) := doCtr cc (body.take 8) text tag.toList
    (cc', if tag = body.drop (body.length - 16) then some plain else none)
  lengthOk _ := gcmCheckLength

/-- A body under the nonce that it carries. -/
def gcmSeal (cc : GcmContext) (nonce : List UInt8) (type : UInt8) (pt : List UInt8) :
    List UInt8 :=
  let text := (doCtr cc nonce pt []).1
  nonce ++ text ++ (doCtr cc nonce [] (doTag cc type BR_TLS12 text).2.toList).2

def chapolProtection : Protection ChapolContext ChapolContext where
  before := 0
  after := 16
  encode cc type pt :=
    let (cc, text, tag) := genChapolProcess cc type BR_TLS12 pt true
    (cc, text ++ tag.toList)
  decode cc type body :=
    let (cc, plain, tag) :=
      genChapolProcess cc type BR_TLS12 (body.take (body.length - 16)) false
    (cc, if tag.toList = body.drop (body.length - 16) then some plain else none)
  lengthOk _ := chapolCheckLength

namespace Suite

def protection : (u : Suite) → Protection u.Ctx u.Ctx
  | .gcm .. => gcmProtection
  | .chapol .. => chapolProtection

/-- What a sender with the same keys and the same sequence number makes of the payload `pt`;
under AES-GCM with the nonce of `body`, which is not compared with the sequence number. -/
def resealed (type : UInt8) (body pt : List UInt8) : (u : Suite) → u.Ctx → List UInt8
  | .gcm .., cc => gcmSeal cc (body.take 8) type pt
  | .chapol .., cc => (chapolProtection.encode cc type pt).2

/-- The endpoint that an end is once its handshake is done. -/
def start (u : Suite) (outCtx inCtx : u.Ctx) : Phase u.Ctx u.Ctx :=
  .established (Endpoint.fresh outCtx inCtx)

/-- The endpoints, with the buffers of the program. -/
def endpoints (u : Suite) : Engine (Phase u.Ctx u.Ctx) := endpointEngine u.protection 16384 16704

/-- The engine of an end. What it does with a renegotiation is a parameter. -/
def engine (u : Suite) (handshake : SslEngine u.Ctx u.Ctx → SslEngine u.Ctx u.Ctx) :
    Engine (SslEngine u.Ctx u.Ctx) :=
  sslEngine u.recordIn u.recordOut handshake

/-- The sequence number of the next record. -/
def seq : (u : Suite) → u.Ctx → UInt64
  | .gcm .., cc => cc.seq
  | .chapol .., cc => cc.seq

/-- Both ends of a session, each in the context that it was set up in. What `t` sends under
`c t`, its peer receives under the same. -/
def network (u : Suite) (rc : Side → SslEngine Unit Unit) (c : Side → u.Ctx) :
    Network (SslEngine u.Ctx u.Ctx) :=
  Network.fresh fun t => u.established (rc t) (c t) (c t.other)

section Handshake

variable (u : Suite) (rc : Side → SslEngine Unit Unit) (s : SslSecrets)
  (msg : Side → List UInt8) (data : Side → ℕ)

/-- The Finished record of `t`, and `t` behind it. -/
def finishedOf (t : Side) : SslEngine u.Ctx Unit × List UInt8 :=
  u.finished (rc t) s (t = .client) (msg t) (data t)

end Handshake

end Suite

end BearTLS
