import BearTLS.Model.SslRecord
import Mathlib.Data.Vector.Zip

/-! The record protection of `ssl_engine.c` (none), `ssl_rec_gcm.c` and
`ssl_rec_chapol.c`. The block cipher in CTR mode, GHASH, ChaCha20 and the
authentication of Poly1305 are part of the contexts. -/

namespace BearTLS

open Memory

def brEnc64be (x : UInt64) : List UInt8 :=
  [(x >>> 56).toUInt8, (x >>> 48).toUInt8, (x >>> 40).toUInt8, (x >>> 32).toUInt8,
    (x >>> 24).toUInt8, (x >>> 16).toUInt8, (x >>> 8).toUInt8, x.toUInt8]

/-- `n` as a 16-bit number, most significant byte first. -/
def word16be (n : ℕ) : List UInt8 := [(n.toUInt16 >>> 8).toUInt8, n.toUInt16.toUInt8]

/-- `data` under the key stream `ks`. -/
def underStream (ks : ℕ → UInt8) (data : List UInt8) : List UInt8 :=
  data.mapIdx fun i b => b ^^^ ks i

/-- The loop that accumulates `tag[u] ^ buf[u]` in `bad`. -/
def tagDiffers (tag buf : List UInt8) : Bool :=
  (List.zipWith (· ^^^ ·) tag buf).foldl (· ||| ·) 0 ≠ 0

section Clear

def clearMaxPlaintext (start stop : ℕ) : ℕ × ℕ :=
  let len := stop - start
  (start, if len > 16384 then start + 16384 else stop)

def clearEncrypt (recordType : UInt8) (version : UInt16) (m : Mem) (data dataLen : ℕ) :
    Mem × ℕ × ℕ :=
  let buf := data - 5
  let m := store m buf [recordType]
  let m := brEnc16be m (buf + 1) version
  let m := brEnc16be m (buf + 3) dataLen.toUInt16
  (m, buf, dataLen + 5)

/-- `br_sslrec_out_clear_vtable`. -/
def clearOut : RecordOut Unit where
  maxPlaintext _ := clearMaxPlaintext
  encrypt _ type version m data dataLen := ((), clearEncrypt type version m data dataLen)

end Clear

section Gcm

/-- `br_sslrec_gcm_context`. `keystream iv cc` is what the block cipher yields for the 12 bytes
`iv` from the counter value `cc` on; `ghash` continues a hash under the key `h`. -/
structure GcmContext where
  seq : UInt64
  keystream : List UInt8 → UInt32 → ℕ → UInt8
  ghash : List.Vector UInt8 16 → List UInt8 → List.Vector UInt8 16
  iv : List UInt8

/-- `gen_gcm_init`. `ctr` is the block cipher in CTR mode under a key. -/
def genGcmInit (ctr : List UInt8 → List UInt8 → UInt32 → ℕ → UInt8)
    (gh : List UInt8 → List.Vector UInt8 16 → List UInt8 → List.Vector UInt8 16)
    (key iv : List UInt8) : GcmContext :=
  let tmp := List.replicate 12 0
  let h := underStream (ctr key tmp 0) (List.replicate 16 0)
  { seq := 0, keystream := ctr key, ghash := gh h, iv := iv }

def gcmCheckLength (rlen : ℕ) : Bool := rlen ≥ 24 ∧ rlen ≤ 16384 + 24

def doTag (cc : GcmContext) (recordType : UInt8) (version : UInt16) (data : List UInt8) :
    GcmContext × List.Vector UInt8 16 :=
  let header := brEnc64be cc.seq ++ [recordType] ++ word16be version.toNat ++ word16be data.length
  let footer := brEnc64be ((13 : UInt64) <<< 3) ++ brEnc64be (data.length.toUInt64 <<< 3)
  let tag := List.Vector.replicate 16 0
  let tag := cc.ghash tag header
  let tag := cc.ghash tag data
  let tag := cc.ghash tag footer
  ({ cc with seq := cc.seq + 1 }, tag)

/-- The data and the block at `xortag` behind the CTR encryption. -/
def doCtr (cc : GcmContext) (nonce data xortag : List UInt8) : List UInt8 × List UInt8 :=
  let iv := cc.iv.take 4 ++ nonce
  (underStream (cc.keystream iv 2) data, underStream (cc.keystream iv 1) xortag)

def gcmDecrypt (cc : GcmContext) (recordType : UInt8) (version : UInt16) (m : Mem)
    (data dataLen : ℕ) : GcmContext × Mem × Option (ℕ × ℕ) :=
  let buf := data + 8
  let len := dataLen - 24
  let (cc', tag) := doTag cc recordType version (load m buf len)
  let (plain, tag) := doCtr cc (load m data 8) (load m buf len) tag.toList
  let m := store m buf plain
  if tagDiffers tag (load m (buf + len) 16) then (cc', m, none) else (cc', m, some (buf, len))

/-- `br_sslrec_in_gcm_vtable`. -/
def gcmIn : RecordIn GcmContext where
  checkLength _ := gcmCheckLength
  decrypt := gcmDecrypt

def gcmMaxPlaintext (start stop : ℕ) : ℕ × ℕ :=
  let start := start + 8
  let len := stop - start - 16
  let len := if len > 16384 then 16384 else len
  (start, start + len)

def gcmEncrypt (cc : GcmContext) (recordType : UInt8) (version : UInt16) (m : Mem)
    (data dataLen : ℕ) : GcmContext × Mem × ℕ × ℕ :=
  let buf := data
  let len := dataLen
  let m := store m (buf - 8) (brEnc64be cc.seq)
  let (sealed, tmp) := doCtr cc (load m (buf - 8) 8) (load m buf len) (List.replicate 16 0)
  let m := store m buf sealed
  let (cc, tag) := doTag cc recordType version (load m buf len)
  let m := store m (buf + len) tag.toList
  let m := store m (buf + len) (List.zipWith (· ^^^ ·) (load m (buf + len) 16) tmp)
  let len := len + 24
  let buf := buf - 13
  let m := store m buf [recordType]
  let m := brEnc16be m (buf + 1) version
  let m := brEnc16be m (buf + 3) len.toUInt16
  (cc, m, buf, len + 5)

/-- `br_sslrec_out_gcm_vtable`. -/
def gcmOut : RecordOut GcmContext where
  maxPlaintext _ := gcmMaxPlaintext
  encrypt := gcmEncrypt

end Gcm

section ChaPol

/-- `br_sslrec_chapol_context`. `chacha nonce cc` is the key stream of ChaCha20 from the
counter value `cc` on, `poly nonce aad data` the tag of `br_poly1305_run`. -/
structure ChapolContext where
  seq : UInt64
  chacha : List UInt8 → UInt32 → ℕ → UInt8
  poly : List UInt8 → List UInt8 → List UInt8 → List.Vector UInt8 16
  iv : List.Vector UInt8 12

/-- `gen_chapol_init`. -/
def genChapolInit (ichacha : List UInt8 → List UInt8 → UInt32 → ℕ → UInt8)
    (ipoly : List UInt8 → List UInt8 → List UInt8 → List UInt8 → List.Vector UInt8 16)
    (key : List UInt8) (iv : List.Vector UInt8 12) : ChapolContext :=
  { seq := 0, chacha := ichacha key, poly := ipoly key, iv := iv }

/-- The call of `ipoly`: the tag is over the encrypted data, in both directions. -/
def ipoly (cc : ChapolContext) (nonce data aad : List UInt8) (encrypt : Bool) :
    List UInt8 × List.Vector UInt8 16 :=
  let out := underStream (cc.chacha nonce 1) data
  (out, cc.poly nonce aad (if encrypt then out else data))

def genChapolProcess (cc : ChapolContext) (recordType : UInt8) (version : UInt16)
    (data : List UInt8) (encrypt : Bool) :
    ChapolContext × List UInt8 × List.Vector UInt8 16 :=
  let seq := cc.seq
  let header := brEnc64be seq ++ [recordType] ++ word16be version.toNat ++ word16be data.length
  let nonce := cc.iv.toList.take 4 ++
    List.zipWith (· ^^^ ·) (cc.iv.toList.drop 4) (brEnc64be seq)
  ({ cc with seq := seq + 1 }, ipoly cc nonce data header encrypt)

def chapolCheckLength (rlen : ℕ) : Bool := rlen ≥ 16 ∧ rlen ≤ 16384 + 16

def chapolDecrypt (cc : ChapolContext) (recordType : UInt8) (version : UInt16) (m : Mem)
    (data dataLen : ℕ) : ChapolContext × Mem × Option (ℕ × ℕ) :=
  let buf := data
  let len := dataLen - 16
  let (cc, plain, tag) := genChapolProcess cc recordType version (load m buf len) false
  let m := store m buf plain
  if tagDiffers tag.toList (load m (buf + len) 16) then (cc, m, none)
  else (cc, m, some (buf, len))

/-- `br_sslrec_in_chapol_vtable`. -/
def chapolIn : RecordIn ChapolContext where
  checkLength _ := chapolCheckLength
  decrypt := chapolDecrypt

def chapolMaxPlaintext (start stop : ℕ) : ℕ × ℕ :=
  let len := stop - start - 16
  let len := if len > 16384 then 16384 else len
  (start, start + len)

def chapolEncrypt (cc : ChapolContext) (recordType : UInt8) (version : UInt16) (m : Mem)
    (data dataLen : ℕ) : ChapolContext × Mem × ℕ × ℕ :=
  let buf := data
  let len := dataLen
  let (cc, sealed, tag) := genChapolProcess cc recordType version (load m buf len) true
  let m := store m buf sealed
  let m := store m (buf + len) tag.toList
  let buf := buf - 5
  let m := store m buf [recordType]
  let m := brEnc16be m (buf + 1) version
  let m := brEnc16be m (buf + 3) (len + 16).toUInt16
  (cc, m, buf, len + 21)

/-- `br_sslrec_out_chapol_vtable`. -/
def chapolOut : RecordOut ChapolContext where
  maxPlaintext _ := chapolMaxPlaintext
  encrypt := chapolEncrypt

end ChaPol

end BearTLS
