import BearTLS.Lib.Memory
import BearTLS.Lib.Radix

/-! `wm_mega_rsa_decrypt_session` of `wm_https.c`: a private key of four
multi-precision integers, the RSA private operation (a parameter), and the session
id cut out of its result. Lengths and positions are 32-bit; a read outside an
input is a fault (`none`). -/

namespace BearTLS

open Memory

def WM_MEGA_RSA_MAX_COMPONENT : UInt32 := 512

def WM_MEGA_RSA_MAX_MODULUS : UInt32 := 1024

/-- `br_rsa_private_key`, with the bytes that its pointers show. -/
structure RsaPrivateKey where
  nBitlen : UInt32
  p : List UInt8
  q : List UInt8
  dp : List UInt8
  dq : List UInt8
  iq : List UInt8

/-- `br_rsa_private`: the value returned and the array it has rewritten. -/
abbrev RsaPrivate := Mem → RsaPrivateKey → Bool × Mem

/-- `value` and `value_len`: a slice of the input. -/
structure MpiOut where
  ret : Bool
  pos : UInt32
  value : UInt32
  valueLen : UInt32

def wmMegaMpiRead (data : Option (List UInt8)) (dataLen pos : UInt32) : Option MpiOut :=
  match data with
  | none => some ⟨false, pos, 0, 0⟩
  | some data =>
    if pos + 2 > dataLen then some ⟨false, pos, 0, 0⟩
    else
      match data[pos.toNat]?, data[(pos + 1).toNat]? with
      | some hi, some lo =>
        let bits := (hi.toUInt32 <<< 8) ||| lo.toUInt32
        let bytes := (bits + 7) >>> 3
        let pos := pos + 2
        if pos + bytes > dataLen then some ⟨false, pos, 0, 0⟩
        else some ⟨true, pos + bytes, pos, bytes⟩
      | _, _ => none

/-- The bytes of a slice. -/
def readSlice (data : List UInt8) (value len : UInt32) : Option (List UInt8) :=
  if value.toNat + len.toNat ≤ data.length then some ((data.drop value.toNat).take len.toNat)
  else none

def wmMegaActualLen (x : Mem) (start : ℕ) : ℕ → ℕ
  | 0 => 0
  | dataLen + 1 => if x start = 0 then wmMegaActualLen x (start + 1) dataLen else dataLen + 1

/-- What stands ready for the private operation. -/
structure MegaJob where
  x : Mem
  sk : RsaPrivateKey
  plen : UInt32
  qlen : UInt32

/-- The function up to the private operation; `some none` is a `return 0`. -/
def wmMegaPrepare (megaPrivk : Option (List UInt8)) (megaPrivkLen : UInt32)
    (megaCsid : Option (List UInt8)) (megaCsidLen : UInt32) (sid : Option Mem) (sidLen : UInt32) :
    Option (Option MegaJob) :=
  match megaPrivk, megaCsid, sid with
  | some privk, some csid, some _ => do
    if sidLen = 0 then return none
    let p ← wmMegaMpiRead (some privk) megaPrivkLen 0
    if p.ret = false then return none
    let q ← wmMegaMpiRead (some privk) megaPrivkLen p.pos
    if q.ret = false then return none
    let d ← wmMegaMpiRead (some privk) megaPrivkLen q.pos
    if d.ret = false then return none
    let u ← wmMegaMpiRead (some privk) megaPrivkLen d.pos
    if u.ret = false then return none
    let cipher ← wmMegaMpiRead (some csid) megaCsidLen 0
    if cipher.ret = false then return none
    if p.valueLen = 0 ∨ q.valueLen = 0 ∨ d.valueLen = 0 ∨ u.valueLen = 0 then return none
    if p.valueLen > WM_MEGA_RSA_MAX_COMPONENT ∨ q.valueLen > WM_MEGA_RSA_MAX_COMPONENT ∨
        d.valueLen > WM_MEGA_RSA_MAX_MODULUS ∨ u.valueLen > WM_MEGA_RSA_MAX_COMPONENT then
      return none
    let xlen := p.valueLen + q.valueLen
    if xlen = 0 ∨ xlen > WM_MEGA_RSA_MAX_MODULUS ∨ cipher.valueLen > xlen then return none
    let c ← readSlice csid cipher.value cipher.valueLen
    let x := store (fun _ => 0) (xlen - cipher.valueLen).toNat c
    let mp ← readSlice privk p.value p.valueLen
    let mq ← readSlice privk q.value q.valueLen
    let md ← readSlice privk d.value d.valueLen
    let mu ← readSlice privk u.value u.valueLen
    -- the primes change places: `u` is the inverse of `p` modulo `q`
    return some ⟨x, ⟨xlen * 8, mq, mp, md, md, mu⟩, p.valueLen, q.valueLen⟩
  | _, _, _ => return none

/-- The `for` over the session id. -/
def wmMegaCopyLoop (x : Mem) (actualLen base sidLen : ℕ) : ℕ → Mem → Mem
  | 0, sid => sid
  | i + 1, sid =>
    let byteIndex := base + (sidLen - (i + 1))
    let b := if byteIndex ≥ actualLen then 0 else x (actualLen - 1 - byteIndex)
    wmMegaCopyLoop x actualLen base sidLen i (store sid i [b])

/-- The function behind the private operation. -/
def wmMegaExtract (x : Mem) (plen qlen sidLen : ℕ) (sid : Mem) : Bool × Mem :=
  let xlen := plen + qlen
  let actualLen := wmMegaActualLen x 0 xlen
  let x := if actualLen < xlen then store x 0 (load x (xlen - actualLen) actualLen) else x
  let base := plen + qlen - 2
  let base := if actualLen > base then actualLen else base
  if base < sidLen then (false, sid)
  else (true, wmMegaCopyLoop x actualLen (base - sidLen) sidLen sidLen sid)

def wmMegaRsaDecryptSession (rsaPrivate : RsaPrivate) (megaPrivk : Option (List UInt8))
    (megaPrivkLen : UInt32) (megaCsid : Option (List UInt8)) (megaCsidLen : UInt32)
    (sid : Option Mem) (sidLen : UInt32) : Option (Bool × Option Mem) := do
  let job ← wmMegaPrepare megaPrivk megaPrivkLen megaCsid megaCsidLen sid sidLen
  match job, sid with
  | some job, some sid =>
    let (ok, x) := rsaPrivate job.x job.sk
    if ok = false then return (false, some sid)
    let (ret, sid) := wmMegaExtract x job.plen.toNat job.qlen.toNat sidLen.toNat sid
    return (ret, some sid)
  | _, sid => return (false, sid)

end BearTLS
