import BearTLS.Model.Hmac
import BearTLS.Model.Request

/-! `prf.c`, `prf_sha256.c` and `prf_sha384.c`. A seed is a list of chunks; `c` is what the
local hash contexts hold at first. -/

namespace BearTLS

open Memory

variable {γ : Type} (c : γ)

/-- The endless loop of `br_tls_phash`; `buf` is what of the destination is left. `none` where
it does not end. -/
def phashLoop (kc : BrHmacKeyContext γ) (label : List UInt8) (seed : List (List UInt8))
    (a buf : List UInt8) : Option (List UInt8) :=
  let hlen := brDigestSize kc.digVtable
  let tmp := hmacPieces c kc (a.take hlen :: label :: seed)
  let u := min hlen buf.length
  let done := (List.range u).map fun i => buf.getD i 0 ^^^ tmp.getD i 0
  if buf.length = u then some done
  else if _h : u = 0 then none
  else (phashLoop kc label seed (hmacPieces c kc [a.take hlen]) (buf.drop u)).map (done ++ ·)
termination_by buf.length
decreasing_by
  rw [List.length_drop]
  omega

/-- The destination afterwards. -/
def brTlsPhash (dst : List UInt8) (dig : BrHashClass γ) (secret : List UInt8) (label : CString)
    (seed : List (List UInt8)) : Option (List UInt8) :=
  if dst.length = 0 then some dst
  else
    let kc := brHmacKeyInit c dig secret
    phashLoop c kc label.bytes seed (hmacPieces c kc (label.bytes :: seed)) dst

def brTls12Sha256Prf (stack : Mem) (c : Sha2Context 32) (len : ℕ) (secret : List UInt8)
    (label : CString) (seed : List (List UInt8)) : Option (List UInt8) :=
  brTlsPhash c (List.replicate len 0) (brSha256Vtable stack) secret label seed

def brTls12Sha384Prf (stack : Mem) (c : Sha2Context 64) (len : ℕ) (secret : List UInt8)
    (label : CString) (seed : List (List UInt8)) : Option (List UInt8) :=
  brTlsPhash c (List.replicate len 0) (brSha384Vtable stack) secret label seed

end BearTLS
