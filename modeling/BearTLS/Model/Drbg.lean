import BearTLS.Model.Hmac

/-! `hmac_drbg.c`, the seeder of `bearssl_wince_stub.c` and the random generator of an engine.
`c` is what the local hash contexts hold at first. -/

namespace BearTLS

open Memory

variable {γ : Type} (c : γ)

/-- `br_hmac_drbg_context`; of each array, as many bytes as the digests have. -/
structure BrHmacDrbgContext (γ : Type) where
  digestClass : BrHashClass γ
  K : List UInt8
  V : List UInt8

def brHmacDrbgUpdate (ctx : BrHmacDrbgContext γ) (seed : List UInt8) : BrHmacDrbgContext γ :=
  let dig := ctx.digestClass
  let hlen := brDigestSize dig
  let kc := brHmacKeyInit c dig (ctx.K.take hlen)
  let K := hmacPieces c kc [ctx.V.take hlen, [0x00], seed]
  let kc := brHmacKeyInit c dig (K.take hlen)
  let V := hmacPieces c kc [ctx.V.take hlen]
  if seed.length = 0 then { ctx with K := K, V := V }
  else
    let K := hmacPieces c kc [V.take hlen, [0x01], seed]
    let kc := brHmacKeyInit c dig (K.take hlen)
    let V := hmacPieces c kc [V.take hlen]
    { ctx with K := K, V := V }

def brHmacDrbgInit (digestClass : BrHashClass γ) (seed : List UInt8) : BrHmacDrbgContext γ :=
  let hlen := brDigestSize digestClass
  brHmacDrbgUpdate c ⟨digestClass, List.replicate hlen 0x00, List.replicate hlen 0x01⟩ seed

/-- The loop of `br_hmac_drbg_generate`: the bytes it puts out, and `V` behind it. `none` where
it does not end. -/
def drbgLoop (kc : BrHmacKeyContext γ) (hlen : ℕ) (V : List UInt8) (len : ℕ) :
    Option (List UInt8 × List UInt8) :=
  if _h : 0 < len then
    let V := hmacPieces c kc [V.take hlen]
    let clen := if hlen > len then len else hlen
    if _hc : clen = 0 then none
    else (drbgLoop kc hlen V (len - clen)).map fun o => (V.take clen ++ o.1, o.2)
  else some ([], V)
termination_by len
decreasing_by exact Nat.sub_lt _h (Nat.pos_of_ne_zero _hc)

def brHmacDrbgGenerate (ctx : BrHmacDrbgContext γ) (len : ℕ) :
    Option (List UInt8 × BrHmacDrbgContext γ) :=
  let dig := ctx.digestClass
  let hlen := brDigestSize dig
  let kc := brHmacKeyInit c dig (ctx.K.take hlen)
  (drbgLoop c kc hlen ctx.V len).map fun o =>
    let K := hmacPieces c kc [o.2.take hlen, [0x00]]
    let kc := brHmacKeyInit c dig (K.take hlen)
    let V := hmacPieces c kc [o.2.take hlen]
    (o.1, { ctx with K := K, V := V })

section Seeder

/-- What `wince_seed` asks the system for; `st` are the words of the `SYSTEMTIME`. -/
structure SeedSources where
  ftLow : UInt32
  ftHigh : UInt32
  tc : UInt32
  pid : UInt32
  tid : UInt32
  st : List.Vector UInt16 8

/-- A word of the memory of an ARM machine with the least byte first. -/
def le16 (x : UInt16) : List UInt8 := [x.toUInt8, (x >>> 8).toUInt8]

def le32 (x : UInt32) : List UInt8 :=
  [x.toUInt8, (x >>> 8).toUInt8, (x >>> 16).toUInt8, (x >>> 24).toUInt8]

/-- The array `seed` of `wince_seed`. -/
def winceSeed (src : SeedSources) : List UInt8 :=
  let seed : Mem := fun _ => 0
  let seed := store seed 0 (le32 src.ftLow)
  let seed := store seed 4 (le32 src.ftHigh)
  let seed := store seed 8 (le32 src.tc)
  let seed := store seed 12 (le32 src.pid)
  let seed := store seed 16 (le32 src.tid)
  let seed := store seed 20 (src.st.toList.flatMap le16)
  let seed := (List.range' 32 32).foldl (fun seed i => store seed i
    [(src.tc + (i * 37).toUInt32 + (src.ftLow >>> (i &&& 7).toUInt32)).toUInt8]) seed
  load seed 0 64

end Seeder

section Engine

def BR_ERR_BAD_STATE : ℤ := 2
def BR_ERR_NO_RANDOM : ℤ := 8

/-- The fields of an engine that its random generator has; `failed` is the first error. -/
structure EngineRng (γ : Type) where
  rng : BrHmacDrbgContext γ
  rngInitDone : ℕ
  rngOsRandDone : Bool
  failed : Option ℤ

/-- `br_ssl_engine_fail`. -/
def EngineRng.fail (cc : EngineRng γ) (err : ℤ) : EngineRng γ :=
  match cc.failed with
  | none => { cc with failed := some err }
  | some _ => cc

variable (sha256 sha384 sha1 : Option (BrHashClass γ))

/-- `rng_init`; the three classes are those that `br_multihash_getimpl` finds. -/
def rngInit (cc : EngineRng γ) : EngineRng γ × Bool :=
  if cc.rngInitDone ≠ 0 then (cc, true)
  else
    match sha256.or (sha384.or sha1) with
    | none => (cc.fail BR_ERR_BAD_STATE, false)
    | some h => ({ cc with rng := brHmacDrbgInit c h [], rngInitDone := 1 }, true)

/-- `br_ssl_engine_init_rand`, with `wince_seed` as the seeder of the system. -/
def brSslEngineInitRand (src : SeedSources) (cc : EngineRng γ) : EngineRng γ × Bool :=
  let (cc, ok) := rngInit c sha256 sha384 sha1 cc
  if !ok then (cc, false)
  else
    let cc := if !cc.rngOsRandDone then
        { cc with
          rng := brHmacDrbgUpdate c cc.rng (winceSeed src)
          rngInitDone := 2
          rngOsRandDone := true }
      else cc
    if cc.rngInitDone < 2 then (cc.fail BR_ERR_NO_RANDOM, false) else (cc, true)

def brSslEngineInjectEntropy (data : List UInt8) (cc : EngineRng γ) : EngineRng γ :=
  let (cc, ok) := rngInit c sha256 sha384 sha1 cc
  if !ok then cc
  else { cc with rng := brHmacDrbgUpdate c cc.rng data, rngInitDone := 2 }

/-- `mkrand` of the handshake. -/
def mkrand (len : ℕ) (cc : EngineRng γ) : Option (List UInt8 × EngineRng γ) :=
  (brHmacDrbgGenerate c cc.rng len).map fun o => (o.1, { cc with rng := o.2 })

/-- What is done with the generator of an engine. -/
inductive RngCall where
  | initRand (src : SeedSources)
  | injectEntropy (data : List UInt8)
  | mkrand (len : ℕ)

/-- One call: the bytes it puts out and the engine after it. -/
def rngCall (cc : EngineRng γ) : RngCall → Option (List UInt8 × EngineRng γ)
  | .initRand src => some ([], (brSslEngineInitRand c sha256 sha384 sha1 src cc).1)
  | .injectEntropy data => some ([], brSslEngineInjectEntropy c sha256 sha384 sha1 data cc)
  | .mkrand len => BearTLS.mkrand c len cc

/-- One call after another; `none` where one does not return. -/
def rngRun (cc : EngineRng γ) : List RngCall → Option (List (List UInt8) × EngineRng γ)
  | [] => some ([], cc)
  | call :: calls =>
    (rngCall c sha256 sha384 sha1 cc call).bind fun o =>
      (rngRun o.2 calls).map fun r => (o.1 :: r.1, r.2)

end Engine

end BearTLS
