import BearTLS.Model.Prf
import BearTLS.Model.SslKeys

/-! The secrets of a session from the pre-master secret on, in TLS 1.2. -/

namespace BearTLS

open HeaderBlock Memory

def br_sha384_ID : ℕ := 5

/-- A string literal of the source. -/
def literal (label : String) : CString :=
  if h : 0 ∉ ascii label ∧ (ascii label).length < 2 ^ 32 then ⟨ascii label, h.1, h.2⟩
  else ⟨[], by decide, by decide⟩

variable (stack : Mem) (c : Sha2Context 32) (d : Sha2Context 64) (prfId : ℕ)

/-- The PRF that `br_ssl_engine_get_PRF` returns, for an engine that has both of them. -/
def brSslEngineGetPRF (len : ℕ) (secret : List UInt8) (label : String) (seed : List (List UInt8)) :
    Option (List UInt8) :=
  if prfId = br_sha384_ID then brTls12Sha384Prf stack d len secret (literal label) seed
  else brTls12Sha256Prf stack c len secret (literal label) seed

/-- The bytes at `master_secret`. -/
def brSslEngineComputeMaster (pms clientRandom serverRandom : List UInt8) : Option (List UInt8) :=
  brSslEngineGetPRF stack c d prfId 48 pms "master secret" [clientRandom, serverRandom]

/-- What both ends hold. -/
def sslSecrets (pms clientRandom serverRandom : List UInt8) : SslSecrets where
  iprf len secret label seed := (brSslEngineGetPRF stack c d prfId len secret label seed).getD []
  masterSecret := (brSslEngineComputeMaster stack c d prfId pms clientRandom serverRandom).getD []
  clientRandom := clientRandom
  serverRandom := serverRandom

end BearTLS
