import BearTLS.Model.SslProcessor

/-! One end of an established TLS connection without its buffers: what is gathered for the
next record, what is still to be sent of the last one, what has come of the next, and
how far the closure has gone. -/

namespace BearTLS

def recordHeader (type : UInt8) (len : ℕ) : List UInt8 :=
  [type, 3, 3, (len.toUInt16 >>> 8).toUInt8, len.toUInt16.toUInt8]

/-- A record on the wire. -/
def recordWire (type : UInt8) (body : List UInt8) : List UInt8 :=
  recordHeader type body.length ++ body

/-- Record protection as functions on byte strings: what a payload becomes, with `before` bytes
in front of it and `after` behind, and what a body is turned back into. -/
structure Protection (κ ι : Type) where
  before : ℕ
  after : ℕ
  encode : κ → UInt8 → List UInt8 → κ × List UInt8
  decode : ι → UInt8 → List UInt8 → ι × Option (List UInt8)
  lengthOk : ι → ℕ → Bool

inductive Outgoing where
  | gathering (acc : List UInt8)
  | sending (rest : List UInt8)
deriving DecidableEq

/-- The bytes of a header, of a body of `len` bytes, or of a payload that is not yet read. -/
inductive Incoming where
  | header (got : List UInt8)
  | body (type : UInt8) (len : ℕ) (got : List UInt8)
  | plain (type : UInt8) (rest : List UInt8)
deriving DecidableEq

structure Endpoint (κ ι : Type) where
  out : Outgoing
  inp : Incoming
  outCtx : κ
  inCtx : ι
  typeOut : UInt8
  app : UInt8
  alert : UInt8
  shutdown : Bool
  co : CoPoint

/-- `left` is a connection that has gone back to a handshake. -/
inductive Phase (κ ι : Type) where
  | established (a : Endpoint κ ι)
  | closed (err : ℤ)
  | left

def Phase.map {κ ι : Type} (f : Endpoint κ ι → Endpoint κ ι) : Phase κ ι → Phase κ ι
  | .established a => .established (f a)
  | x => x

def Phase.bind {κ ι : Type} (f : Endpoint κ ι → Phase κ ι) : Phase κ ι → Phase κ ι
  | .established a => f a
  | x => x

/-- What a run of alert bytes does: the level that is waiting for its description, and whether
a `close_notify` was among them. -/
def alertBytes : UInt8 → List UInt8 → Bool → Except ℤ (UInt8 × Bool)
  | level, [], found => .ok (level, found)
  | level, x :: xs, found =>
    if level = 0 then alertBytes (if x ≠ 1 then 2 else x) xs found
    else if level = 1 then
      if x = 100 then .error (256 + x.toNat) else alertBytes 0 xs (x = 0 || found)
    else .error (256 + x.toNat)

namespace Endpoint

variable {κ ι : Type} (P : Protection κ ι) (maxLen room : ℕ) (a : Endpoint κ ι)

def closeRecord (acc : List UInt8) : Endpoint κ ι :=
  { a with
    out := .sending (recordWire a.typeOut (P.encode a.outCtx a.typeOut acc).2)
    outCtx := (P.encode a.outCtx a.typeOut acc).1 }

def gather (data : List UInt8) : Endpoint κ ι :=
  match a.out with
  | .gathering acc =>
    if (acc ++ data).length ≥ maxLen then a.closeRecord P (acc ++ data)
    else { a with out := .gathering (acc ++ data) }
  | .sending _ => a

def flush : Endpoint κ ι :=
  match a.out with
  | .gathering acc => if acc = [] then a else a.closeRecord P acc
  | .sending _ => a

/-- What the processor is offered. -/
def input : List UInt8 :=
  match a.inp with
  | .plain type rest => if type = BR_SSL_APPLICATION_DATA then [] else rest
  | _ => []

def closeWait (cnr : Bool) : Phase κ ι :=
  if cnr ∧ a.out = .gathering [] then .closed 0 else .established { a with co := .closeWait cnr }

def sendNotify : Endpoint κ ι :=
  closeRecord P { a with typeOut := BR_SSL_ALERT } [1, 0]

def closeFlush (cnr : Bool) : Phase κ ι :=
  if a.out = .gathering [] then (a.sendNotify P).closeWait cnr
  else .established { a with co := .closeFlush cnr }

def doClose (cnr : Bool) : Phase κ ι :=
  (flush P { a with app := if cnr then 0 else a.app <<< 1 }).closeFlush P cnr

def readAlerts (level : UInt8) (found : Bool) : Endpoint κ ι :=
  { a with alert := level, shutdown := found || a.shutdown }

/-- All input is read, and the next record is awaited. -/
def consume : Endpoint κ ι := { a with inp := .header [] }

def afterWait (cnr : Bool) (next : Endpoint κ ι → Bool → Phase κ ι) : Phase κ ι :=
  if cnr ∨ a.input = [] then next a cnr
  else
    match a.inp with
    | .plain type rest =>
      if type = BR_SSL_ALERT then
        match alertBytes a.alert rest false with
        | .error n => .closed n
        | .ok (level, found) => (next { a.readAlerts level found with app := 0 } found).map consume
      else (next a cnr).map consume
    | _ => next a cnr

def mainLoop (action : ℕ) : Phase κ ι :=
  if action = 1 then a.doClose P false
  else if a.input = [] then .established a
  else
    match a.inp with
    | .plain type rest =>
      if type = BR_SSL_ALERT then
        match alertBytes a.alert rest false with
        | .error n => .closed n
        | .ok (level, true) => ((a.readAlerts level true).doClose P true).map consume
        | .ok (level, false) => .established (a.readAlerts level false).consume
      else if type = BR_SSL_HANDSHAKE then .left
      else .closed BR_ERR_UNEXPECTED
    | _ => .established a

/-- One round of the handshake processor. -/
def round (action : ℕ) : Phase κ ι :=
  match a.co with
  | .main => a.mainLoop P action
  | .closeFlush cnr => a.afterWait cnr fun a cnr => a.closeFlush P cnr
  | .closeWait cnr => a.afterWait cnr fun a cnr => a.closeWait cnr
  | .handshake => .left

def jump (action : ℕ) : Phase κ ι :=
  (a.round P action).bind fun b =>
    if a.input ≠ [] ∧ b.input = [] then b.round P 0 else .established b

def sent (n : ℕ) : Phase κ ι :=
  match a.out with
  | .gathering _ => .established a
  | .sending rest =>
    if n < rest.length then .established { a with out := .sending (rest.drop n) }
    else
      let b := { a with out := .gathering [] }
      if b.typeOut ≠ BR_SSL_APPLICATION_DATA ∨ b.app &&& 1 = 0 then b.jump P 0 else .established b

/-- A payload goes to the processor, to the application, or nowhere. -/
def deliver : Phase κ ι :=
  match a.inp with
  | .plain type _ =>
    if type = BR_SSL_CHANGE_CIPHER_SPEC ∨ type = BR_SSL_ALERT ∨ type = BR_SSL_HANDSHAKE then
      a.jump P 0
    else if type = BR_SSL_APPLICATION_DATA then
      if a.app = 1 then .established a
      else if a.app = 2 then .established a.consume
      else .closed BR_ERR_UNEXPECTED
    else .closed BR_ERR_UNEXPECTED
  | _ => .established a

/-- A complete header. -/
def absorbHeader (type : UInt8) (version : UInt16) (len : ℕ) : Phase κ ι :=
  if version >>> 8 ≠ 3 then .closed BR_ERR_UNSUPPORTED_VERSION
  else if version ≠ BR_TLS12 then .closed BR_ERR_BAD_VERSION
  else if P.lengthOk a.inCtx len = false then .closed BR_ERR_BAD_LENGTH
  else if len > room then .closed BR_ERR_TOO_LARGE
  else if len = 0 then .established a.consume
  else .established { a with inp := .body type len [] }

/-- A complete body. -/
def absorbBody (type : UInt8) (body : List UInt8) : Phase κ ι :=
  match P.decode a.inCtx type body with
  | (_, none) => .closed BR_ERR_BAD_MAC
  | (c, some []) => .established (consume { a with inCtx := c })
  | (c, some rest) => .established { a with inp := .plain type rest, inCtx := c }

def absorb (data : List UInt8) : Phase κ ι :=
  match a.inp with
  | .header got =>
    match got ++ data with
    | [type, v₁, v₀, l₁, l₀] =>
      a.absorbHeader P room type ((v₁.toUInt16 <<< 8) ||| v₀.toUInt16)
        ((l₁.toUInt16 <<< 8) ||| l₀.toUInt16).toNat
    | got => .established { a with inp := .header got }
  | .body type len got =>
    if (got ++ data).length < len then .established { a with inp := .body type len (got ++ data) }
    else a.absorbBody P type (got ++ data)
  | .plain _ _ => .established a

def receive (data : List UInt8) : Phase κ ι := (a.absorb P room data).bind (deliver P)

def take (n : ℕ) : Endpoint κ ι :=
  match a.inp with
  | .plain type rest =>
    if rest.length ≤ n then a.consume
    else { a with inp := .plain type (rest.drop n) }
  | _ => a

def state : EngineState where
  closed := false
  sendrec := match a.out with
    | .sending _ => true
    | .gathering _ => false
  recvrec := !a.shutdown && match a.inp with
    | .plain _ _ => false
    | _ => true
  sendapp := a.app &&& 1 ≠ 0 && match a.out with
    | .gathering _ => true
    | .sending _ => false
  recvapp := a.app &&& 1 ≠ 0 && match a.inp with
    | .plain type _ => type = BR_SSL_APPLICATION_DATA
    | _ => false

def pending : List UInt8 :=
  match a.out with
  | .sending rest => rest
  | .gathering _ => []

def wanted : ℕ :=
  if a.shutdown then 0
  else match a.inp with
    | .header got => 5 - got.length
    | .body _ len got => len - got.length
    | .plain _ _ => 0

def acceptable : ℕ :=
  if a.app &&& 1 = 0 then 0
  else match a.out with
    | .gathering acc => maxLen - acc.length
    | .sending _ => 0

def readable : List UInt8 :=
  if a.app &&& 1 = 0 then []
  else match a.inp with
    | .plain type rest => if type = BR_SSL_APPLICATION_DATA then rest else []
    | _ => []

end Endpoint

/-- The endpoint behind the calls of `wm_https.c`. -/
def endpointEngine {κ ι : Type} (P : Protection κ ι) (maxLen room : ℕ) : Engine (Phase κ ι) where
  currentState
    | .established a => a.state
    | .closed _ => ⟨true, false, false, false, false⟩
    | .left => ⟨false, false, false, false, false⟩
  lastError
    | .closed err => err
    | _ => 0
  sendrecBuf
    | .established a => a.pending
    | _ => []
  sendrecAck x n := x.bind fun a => a.sent P n
  recvrecBuf
    | .established a => a.wanted
    | _ => 0
  recvrecAck x data := x.bind fun a => a.receive P room data
  sendappBuf
    | .established a => a.acceptable maxLen
    | _ => 0
  sendappAck x data := x.map fun a => a.gather P maxLen data
  recvappBuf
    | .established a => a.readable
    | _ => []
  recvappAck x n := x.map fun a => a.take n
  flush x := x.map fun a => if a.app &&& 1 ≠ 0 then a.flush P else a
  close x := x.bind fun a => a.jump P 1

end BearTLS
