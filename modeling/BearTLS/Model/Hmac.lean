import BearTLS.Model.Sha2

/-! `hmac.c`, over any hash class. The local hash contexts are parameters: what they held
before is for `init` to overwrite. -/

namespace BearTLS

variable {γ : Type}

/-- `block_size`. -/
def blockSize (dig : BrHashClass γ) : ℕ := 1 <<< ((dig.desc >>> 23) &&& 0x0F).toNat

/-- `br_hmac_key_context`; of each array, what `state` has written. -/
structure BrHmacKeyContext (γ : Type) where
  digVtable : BrHashClass γ
  ksi : List UInt8
  kso : List UInt8

/-- `br_hmac_context`, the vtable of the hash context beside it. -/
structure BrHmacContext (γ : Type) where
  vtable : BrHashClass γ
  dig : γ
  kso : List UInt8
  outLen : ℕ

/-- The bytes stored at `ks`. -/
def processKey (hc : γ) (dig : BrHashClass γ) (key : List UInt8) (bb : UInt8) : List UInt8 :=
  let blen := blockSize dig
  let tmp := key.map (· ^^^ bb) ++ List.replicate (blen - key.length) bb
  (dig.state (dig.update (dig.init hc) tmp)).1

def brHmacKeyInit (hc : γ) (dig : BrHashClass γ) (key : List UInt8) : BrHmacKeyContext γ :=
  let key := if key.length > blockSize dig then
      (dig.out (dig.update (dig.init hc) key)).take (brDigestSize dig)
    else key
  ⟨dig, processKey hc dig key 0x36, processKey hc dig key 0x5C⟩

/-- `dig₀` is what the hash context held. -/
def brHmacInit (dig₀ : γ) (kc : BrHmacKeyContext γ) (outLen : ℕ) : BrHmacContext γ :=
  let dig := kc.digVtable
  let blen := blockSize dig
  let hlen := brDigestSize dig
  { vtable := dig
    dig := dig.setState (dig.init dig₀) kc.ksi blen.toUInt64
    kso := kc.kso
    outLen := if outLen > 0 ∧ outLen < hlen then outLen else hlen }

def brHmacUpdate (ctx : BrHmacContext γ) (data : List UInt8) : BrHmacContext γ :=
  { ctx with dig := ctx.vtable.update ctx.dig data }

/-- The bytes stored at `out`. -/
def brHmacOut (hc : γ) (ctx : BrHmacContext γ) : List UInt8 :=
  let dig := ctx.vtable
  let tmp := dig.out ctx.dig
  let blen := blockSize dig
  let hc := dig.setState (dig.init hc) ctx.kso blen.toUInt64
  let hlen := brDigestSize dig
  (dig.out (dig.update hc (tmp.take hlen))).take ctx.outLen

/-- The calls that stand for one HMAC computation in the source: `br_hmac_init` without a length,
`br_hmac_update` for each piece, `br_hmac_out`; `c` is what the hash contexts hold at first. -/
def hmacPieces (c : γ) (kc : BrHmacKeyContext γ) (pieces : List (List UInt8)) : List UInt8 :=
  brHmacOut c (pieces.foldl brHmacUpdate (brHmacInit c kc 0))

end BearTLS
