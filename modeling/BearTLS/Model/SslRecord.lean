import BearTLS.Lib.Memory
import Mathlib.Algebra.Group.Nat.Defs
import Mathlib.Data.Int.Notation
import Mathlib.Data.UInt

/-! The record management of `ssl_engine.c`. An address is an offset into the memory that
holds the I/O buffers. The record protection is a parameter, as in the source, where it
is behind a table of functions. -/

namespace BearTLS

open Memory

def BR_ERR_BAD_PARAM : ℤ := 1
def BR_ERR_UNSUPPORTED_VERSION : ℤ := 3
def BR_ERR_BAD_VERSION : ℤ := 4
def BR_ERR_BAD_LENGTH : ℤ := 5
def BR_ERR_TOO_LARGE : ℤ := 6
def BR_ERR_BAD_MAC : ℤ := 7
def BR_ERR_UNEXPECTED : ℤ := 10

def BR_TLS12 : UInt16 := 0x0303

def BR_SSL_CHANGE_CIPHER_SPEC : UInt8 := 20
def BR_SSL_ALERT : UInt8 := 21
def BR_SSL_HANDSHAKE : UInt8 := 22
def BR_SSL_APPLICATION_DATA : UInt8 := 23

def MAX_OUT_OVERHEAD : ℕ := 85
def MAX_IN_OVERHEAD : ℕ := 325

/-- `BR_SSL_BUFSIZE_BIDI`. -/
def BR_SSL_BUFSIZE_BIDI : ℕ := (16384 + 325) + (16384 + 85)

def brDec16be (m : Mem) (p : ℕ) : UInt16 := ((m p).toUInt16 <<< 8) ||| (m (p + 1)).toUInt16

def brEnc16be (m : Mem) (p : ℕ) (x : UInt16) : Mem := store m p [(x >>> 8).toUInt8, x.toUInt8]

inductive IoMode where
  | failed
  | input
  | output
  | inout
deriving DecidableEq, Repr

/-- `br_sslrec_in_class`. A decryption works in the buffer, and returns where the payload
stands and how long it is. -/
structure RecordIn (ι : Type) where
  checkLength : ι → ℕ → Bool
  decrypt : ι → UInt8 → UInt16 → Mem → (data dataLen : ℕ) → ι × Mem × Option (ℕ × ℕ)

/-- `br_sslrec_out_class`. An encryption returns where the record stands and how long it is. -/
structure RecordOut (κ : Type) where
  maxPlaintext : κ → (start stop : ℕ) → ℕ × ℕ
  encrypt : κ → UInt8 → UInt16 → Mem → (data dataLen : ℕ) → κ × Mem × ℕ × ℕ

/-- Where the handshake processor has yielded: in `wait-co` of the main loop, in the two loops
of `do-close`, or anywhere else. -/
inductive CoPoint where
  | main
  | closeFlush (cnr : Bool)
  | closeWait (cnr : Bool)
  | handshake
deriving DecidableEq, Repr

/-- `br_ssl_engine_context`: the fields of the record management, of the alerts and of the
interface to the handshake processor. -/
structure SslEngine (κ ι : Type) where
  buf : Mem
  err : ℤ
  ibuf : ℕ
  obuf : ℕ
  ibufLen : ℕ
  obufLen : ℕ
  maxFragLen : ℕ
  ixa : ℕ
  ixb : ℕ
  ixc : ℕ
  oxa : ℕ
  oxb : ℕ
  oxc : ℕ
  iomode : IoMode
  incrypt : Bool
  shutdownRecv : Bool
  recordTypeIn : UInt8
  recordTypeOut : UInt8
  versionIn : UInt16
  versionOut : UInt16
  inCtx : ι
  outCtx : κ
  applicationData : UInt8
  hbufIn : ℕ
  hbufOut : Option ℕ
  savedHbufOut : Option ℕ
  hlenIn : ℕ
  hlenOut : ℕ
  action : ℕ
  alert : UInt8
  closeReceived : Bool
  co : CoPoint

namespace SslEngine

variable {κ ι : Type} (R : RecordIn ι) (W : RecordOut κ) (rc : SslEngine κ ι)

/-- `br_ssl_engine_fail`. -/
def fail (err : ℤ) : SslEngine κ ι :=
  if rc.iomode ≠ .failed then { rc with iomode := .failed, err := err } else rc

/-- `br_ssl_engine_closed`. -/
def closed : Bool := rc.iomode = .failed

def makeReadyIn : SslEngine κ ι :=
  { rc with
    ixa := 0
    ixb := 0
    ixc := 5
    iomode := if rc.iomode = .input then .inout else rc.iomode }

def makeReadyOut : SslEngine κ ι :=
  let (a, b) := W.maxPlaintext rc.outCtx 5 (rc.obufLen - 5)
  let b := if b - a > rc.maxFragLen then a + rc.maxFragLen else b
  { rc with
    oxa := a
    oxb := b
    oxc := a
    iomode := if rc.iomode = .output then .inout else rc.iomode }

/-- A pointer and a length; `none` is NULL with the length 0. -/
def recvrecBuf : Option (ℕ × ℕ) :=
  if rc.shutdownRecv then none
  else if rc.iomode = .input ∨ rc.iomode = .inout then
    if rc.ixa = rc.ixb then
      let z := rc.ixc
      let z := if z > rc.ibufLen - rc.ixa then rc.ibufLen - rc.ixa else z
      some (rc.ibuf + rc.ixa, z)
    else none
  else none

/-- What `recvrec_ack` does with a complete header. -/
def recvHeader : SslEngine κ ι :=
  let rc := { rc with recordTypeIn := rc.buf rc.ibuf }
  let version := brDec16be rc.buf (rc.ibuf + 1)
  if version >>> 8 ≠ 3 then rc.fail BR_ERR_UNSUPPORTED_VERSION
  else if rc.versionIn ≠ 0 ∧ rc.versionIn ≠ version then rc.fail BR_ERR_BAD_VERSION
  else
    let rc := { rc with versionIn := version }
    let rlen := (brDec16be rc.buf (rc.ibuf + 3)).toNat
    if rc.incrypt ∧ R.checkLength rc.inCtx rlen = false then rc.fail BR_ERR_BAD_LENGTH
    else if rc.incrypt ∧ rlen > rc.ibufLen - 5 then rc.fail BR_ERR_TOO_LARGE
    else if rc.incrypt = false ∧ rlen > 16384 then rc.fail BR_ERR_BAD_LENGTH
    else if rlen = 0 then rc.makeReadyIn
    else { rc with ixa := 5, ixb := 5, ixc := rlen }

/-- What `recvrec_ack` does with a complete record, under encryption. -/
def recvRecord : SslEngine κ ι :=
  let (c, buf, payload) :=
    R.decrypt rc.inCtx rc.recordTypeIn rc.versionIn rc.buf (rc.ibuf + 5) (rc.ixa - 5)
  let rc := { rc with inCtx := c, buf := buf }
  match payload with
  | none => rc.fail BR_ERR_BAD_MAC
  | some (pbuf, pbufLen) =>
    let rc := { rc with ixa := pbuf - rc.ibuf, ixb := pbuf - rc.ibuf + pbufLen }
    if rc.ixa = rc.ixb then rc.makeReadyIn else rc

def recvrecAck (len : ℕ) : SslEngine κ ι :=
  let rc := if rc.iomode = .inout ∧ rc.ibuf = rc.obuf then { rc with iomode := .input } else rc
  let rc := { rc with ixa := rc.ixa + len, ixb := rc.ixa + len, ixc := rc.ixc - len }
  if rc.ixa < 5 then rc
  else if rc.ixa = 5 then rc.recvHeader R
  else if rc.incrypt = false then { rc with ixa := 5 }
  else if rc.ixc ≠ 0 then rc
  else rc.recvRecord R

def recvpldBuf : Option (ℕ × ℕ) :=
  if rc.iomode = .input ∨ rc.iomode = .inout then
    let len := rc.ixb - rc.ixa
    if len = 0 then none else some (rc.ibuf + rc.ixa, len)
  else none

def recvpldAck (len : ℕ) : SslEngine κ ι :=
  let rc := { rc with ixa := rc.ixa + len }
  if rc.ixa = rc.ixb then
    if rc.ixc = 0 then rc.makeReadyIn else { rc with ixa := 5, ixb := 5 }
  else rc

def sendpldBuf : Option (ℕ × ℕ) :=
  if rc.iomode = .output ∨ rc.iomode = .inout then
    let len := rc.oxb - rc.oxa
    if len = 0 then none else some (rc.obuf + rc.oxa, len)
  else none

def sendpldFlush (force : Bool) : SslEngine κ ι :=
  if rc.oxa = rc.oxb then rc
  else
    let xlen := rc.oxa - rc.oxc
    if xlen = 0 ∧ force = false then rc
    else
      let (c, m, buf, xlen) :=
        W.encrypt rc.outCtx rc.recordTypeOut rc.versionOut rc.buf (rc.obuf + rc.oxc) xlen
      { rc with
        outCtx := c
        buf := m
        oxa := buf - rc.obuf
        oxb := buf - rc.obuf
        oxc := buf - rc.obuf + xlen }

def sendpldAck (len : ℕ) : SslEngine κ ι :=
  let rc := if rc.iomode = .inout ∧ rc.ibuf = rc.obuf then { rc with iomode := .output } else rc
  let rc := { rc with oxa := rc.oxa + len }
  if rc.oxa ≥ rc.oxb then sendpldFlush W { rc with oxb := rc.oxa + 1 } false else rc

def sendrecBuf : Option (ℕ × ℕ) :=
  if rc.iomode = .output ∨ rc.iomode = .inout then
    if rc.oxc > rc.oxa then some (rc.obuf + rc.oxa, rc.oxc - rc.oxa) else none
  else none

def sendrecAck (len : ℕ) : SslEngine κ ι :=
  let rc := { rc with oxa := rc.oxa + len, oxb := rc.oxa + len }
  if rc.oxa = rc.oxc then rc.makeReadyOut W else rc

def hasRecTosend : Bool := rc.oxa = rc.oxb ∧ rc.oxa ≠ rc.oxc

/-- `br_ssl_engine_has_pld_to_send`. -/
def hasPldToSend : Bool := rc.oxa ≠ rc.oxb ∧ rc.oxa ≠ rc.oxc

/-- The largest of 9..14 that fits both buffers, 8 where none does. -/
def logFragLen (ibufLen obufLen : ℕ) : ℕ → ℕ
  | 0 => 8
  | k + 1 =>
    let flen := 2 ^ (k + 9)
    if obufLen ≥ flen + MAX_OUT_OVERHEAD ∧ ibufLen ≥ flen + MAX_IN_OVERHEAD then k + 9
    else logFragLen ibufLen obufLen k

/-- `br_ssl_engine_set_buffers_bidi` with both buffers; `clear` is the context of
`br_sslrec_out_clear_vtable`. -/
def setBuffersBidi (clear : κ) (ibuf ibufLen obuf obufLen : ℕ) : SslEngine κ ι :=
  let rc := { rc with
    iomode := .inout
    incrypt := false
    err := 0
    versionIn := 0
    recordTypeIn := 0
    versionOut := 0
    recordTypeOut := 0
    ibuf := ibuf
    ibufLen := ibufLen
    obuf := obuf
    obufLen := obufLen }
  let u := logFragLen ibufLen obufLen 6
  if u = 8 then rc.fail BR_ERR_BAD_PARAM
  else
    let u := if u = 13 then 12 else u
    let rc := { rc with maxFragLen := 2 ^ u, outCtx := clear }
    makeReadyOut W rc.makeReadyIn

/-- `br_ssl_engine_set_buffer` with a buffer at address 0. -/
def setBuffer (clear : κ) (bufLen : ℕ) (bidi : Bool) : SslEngine κ ι :=
  if bidi then
    if bufLen < 512 + MAX_IN_OVERHEAD + 512 + MAX_OUT_OVERHEAD then
      { rc with iomode := .failed, err := BR_ERR_BAD_PARAM }
    else
      let w := if bufLen < 16384 + MAX_IN_OVERHEAD + 512 + MAX_OUT_OVERHEAD then
          512 + MAX_OUT_OVERHEAD
        else bufLen - (16384 + MAX_IN_OVERHEAD)
      rc.setBuffersBidi W clear 0 (bufLen - w) w w
  else rc.setBuffersBidi W clear 0 bufLen 0 bufLen

end SslEngine

end BearTLS
