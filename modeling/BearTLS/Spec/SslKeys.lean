import BearTLS.Lib.Fips180
import BearTLS.Lib.Hmac
import BearTLS.Model.Request

/-! The key calculation of TLS 1.2, as in RFC 5246, sections 5, 6.3 and 8.1. -/

namespace BearTLS

open Fips180 HeaderBlock

noncomputable section

/-- The PRF over the hash function SHA-384 or SHA-256. -/
def tlsPrf (sha384 : Bool) (secret : List UInt8) (label : String) (seed : List UInt8) (len : ℕ) :
    List UInt8 :=
  if sha384 then Hmac.expand 128 Fips180.sha384 secret 48 (ascii label ++ seed) len
  else Hmac.expand 64 sha256 secret 32 (ascii label ++ seed) len

def tlsMasterSecret (sha384 : Bool) (pms clientRandom serverRandom : List UInt8) : List UInt8 :=
  tlsPrf sha384 pms "master secret" (clientRandom ++ serverRandom) 48

def tlsKeyBlock (sha384 : Bool) (pms clientRandom serverRandom : List UInt8) (len : ℕ) :
    List UInt8 :=
  tlsPrf sha384 (tlsMasterSecret sha384 pms clientRandom serverRandom) "key expansion"
    (serverRandom ++ clientRandom) len

end

/-- The keys of the two directions, without the ones for a MAC. -/
structure WriteKeys where
  clientKey : List UInt8
  serverKey : List UInt8
  clientIv : List UInt8
  serverIv : List UInt8

/-- The partition of a key block. -/
def WriteKeys.of (keyLen ivLen : ℕ) (kb : List UInt8) : WriteKeys where
  clientKey := kb.take keyLen
  serverKey := (kb.drop keyLen).take keyLen
  clientIv := (kb.drop (2 * keyLen)).take ivLen
  serverIv := (kb.drop (2 * keyLen + ivLen)).take ivLen

end BearTLS
