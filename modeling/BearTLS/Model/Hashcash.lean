import BearTLS.Lib.WordSearch
import BearTLS.Model.Request
import Mathlib.Data.Vector.Basic

/-! The proof of work of `wm_https.c`. SHA-256, `GetTickCount` and the progress
callback are parameters; `unsigned long` has 32 bits on the target. -/

namespace BearTLS

open HeaderBlock Memory

def WM_HASHCASH_TOKEN_BYTES : ℕ := 48
def WM_HASHCASH_REPEAT : ℕ := 262144
def WM_HASHCASH_CHUNK_REPEATS : ℕ := 256
def WM_HASHCASH_FULL_CHUNKS : ℕ := 1023
def WM_HASHCASH_TAIL_REPEATS : ℕ := 254
def WM_HASHCASH_TIMEOUT_MS : UInt32 := 300000

def wmHashcashLoadBe32 (p : List UInt8) : UInt32 :=
  ((p.getD 0 0).toUInt32 <<< 24) ||| ((p.getD 1 0).toUInt32 <<< 16) |||
    ((p.getD 2 0).toUInt32 <<< 8) ||| (p.getD 3 0).toUInt32

def wmHashcashStoreBe32 (v : UInt32) : List UInt8 :=
  [((v >>> 24) &&& 0xff).toUInt8, ((v >>> 16) &&& 0xff).toUInt8, ((v >>> 8) &&& 0xff).toUInt8,
    (v &&& 0xff).toUInt8]

section Base64

/-- `none` is -1. -/
def wmHashcashFrom64 (ch : UInt8) : Option ℕ :=
  if 65 ≤ ch ∧ ch ≤ 90 then some (ch.toNat - 65)
  else if 97 ≤ ch ∧ ch ≤ 122 then some (ch.toNat - 97 + 26)
  else if 48 ≤ ch ∧ ch ≤ 57 then some (ch.toNat - 48 + 52)
  else if ch = 45 ∨ ch = 43 then some 62
  else if ch = 95 ∨ ch = 47 then some 63
  else none

/-- The bytes stored at `out`, and the return value. -/
structure HashcashB64Out where
  out : List UInt8
  ret : ℤ

def wmHashcashB64DecodeLoop (outSize : ℕ) : List UInt8 → UInt32 → ℕ → List UInt8 → HashcashB64Out
  | [], _, _, out => ⟨out, out.length⟩
  | c :: rest, bitbuf, bitcount, out =>
    if c = 61 then ⟨out, out.length⟩
    else
      match wmHashcashFrom64 c with
      | none => ⟨out, -1⟩
      | some v =>
        let bitbuf := (bitbuf <<< 6) ||| v.toUInt32
        let bitcount := bitcount + 6
        if bitcount ≥ 8 then
          let bitcount := bitcount - 8
          if out.length ≥ outSize then ⟨out, -1⟩
          else
            wmHashcashB64DecodeLoop outSize rest bitbuf bitcount
              (out ++ [((bitbuf >>> bitcount.toUInt32) &&& 0xFF).toUInt8])
        else wmHashcashB64DecodeLoop outSize rest bitbuf bitcount out

def wmHashcashB64Decode (text : CString) (outSize : ℕ) : HashcashB64Out :=
  wmHashcashB64DecodeLoop outSize text.bytes 0 0 []

def alphabet : List UInt8 :=
  ascii "ABCDEFGHIJKLMNOPQRSTUVWXYZabcdefghijklmnopqrstuvwxyz0123456789-_"

structure HashcashTextOut where
  ret : Bool
  out : Mem

/-- `data` is what `i` has not reached yet. For fewer than 2 ^ 31 - 2 bytes no counter of the
source wraps. -/
def wmHashcashB64EncodeLoop (outSize : ℕ) (data : List UInt8) (used : ℕ) (out : Mem) :
    HashcashTextOut :=
  match data with
  | [] => if used ≥ outSize then ⟨false, out⟩ else ⟨true, store out used [0]⟩
  | a :: rest =>
    let remain := rest.length + 1
    let value := a.toUInt32 <<< 16
    let value := if remain > 1 then value ||| ((rest.getD 0 0).toUInt32 <<< 8) else value
    let value := if remain > 2 then value ||| (rest.getD 1 0).toUInt32 else value
    let chars := if remain ≥ 3 then 4 else remain + 1
    if used + chars ≥ outSize then ⟨false, out⟩
    else
      let group := (List.range chars).map fun c =>
        alphabet.getD ((value >>> (18 - c * 6).toUInt32) &&& 0x3f).toNat 0
      wmHashcashB64EncodeLoop outSize (rest.drop 2) (used + chars) (store out used group)
termination_by data.length
decreasing_by
  rw [List.length_drop, List.length_cons]
  omega

def wmHashcashB64Encode (data : List UInt8) (out : Mem) (outSize : UInt32) : HashcashTextOut :=
  wmHashcashB64EncodeLoop outSize.toNat data 0 out

end Base64

def wmHashcashThreshold (e : UInt32) : UInt32 :=
  let shift := ((e >>> 6) * 7) + 3
  (((e &&& 63) <<< 1) + 1) <<< shift

section Solve

/-- The calls of `br_sha256_context`; `γ` is the context. -/
structure Sha256 (γ : Type) where
  init : γ
  update : γ → List UInt8 → γ
  out : γ → List.Vector UInt8 32

/-- What an update adds comes behind the bytes of the updates before. -/
def Sha256.Incremental {γ : Type} (H : Sha256 γ) : Prop :=
  ∀ c a b, H.update (H.update c a) b = H.update c (a ++ b)

/-- `progress`, a callback that works on the user data, or NULL. -/
abbrev Progress (ρ : Type) := Option (List UInt8 → ρ → ρ)

variable {γ ρ : Type} (H : Sha256 γ) (clock : ℕ → UInt32) (progress : Progress ρ)

def wmHashcashProgress (userData : ρ) (message : List UInt8) : ρ :=
  match progress with
  | none => userData
  | some callback => callback message userData

/-- What the polls work on; `ticks` counts the calls of `GetTickCount`. -/
structure Poll (ρ : Type) where
  userData : ρ
  ticks : ℕ
  lastTick : UInt32

/-- The body of `if ((i & 31UL) == 31UL)`; `true` is the time-out. -/
def wmHashcashPoll (nonce startTick : UInt32) (i : ℕ) (s : Poll ρ) : Bool × Poll ρ :=
  let nowTick := clock s.ticks
  let s := { s with ticks := s.ticks + 1 }
  let s := if nowTick - s.lastTick ≥ 5000 then
      { s with
        userData := wmHashcashProgress progress s.userData
          (snprintf 128 (ascii "BearSSL hashcash nonce " ++ decimal nonce.toNat ++ ascii ": " ++
            decimal (i + 1) ++ ascii "/1023 chunks in " ++
            decimal ((nowTick - startTick) / 1000).toNat ++ ascii " seconds..."))
        lastTick := nowTick }
    else s
  if nowTick - startTick ≥ WM_HASHCASH_TIMEOUT_MS then
    (true, { s with
      userData := wmHashcashProgress progress s.userData (ascii "BearSSL hashcash timed out.") })
  else (false, s)

/-- The loop over the full chunks from `i` on; `none` is the time-out. -/
def wmHashcashChunks (chunk : List UInt8) (nonce startTick : UInt32) (i : ℕ) (ctx : γ)
    (s : Poll ρ) : Option γ × Poll ρ :=
  if i < WM_HASHCASH_FULL_CHUNKS then
    let ctx := H.update ctx chunk
    if i % 32 = 31 then
      let (timedOut, s) := wmHashcashPoll clock progress nonce startTick i s
      if timedOut then (none, s)
      else wmHashcashChunks chunk nonce startTick (i + 1) ctx s
    else wmHashcashChunks chunk nonce startTick (i + 1) ctx s
  else (some ctx, s)
termination_by WM_HASHCASH_FULL_CHUNKS - i

/-- The buffers that `wm_hashcash_solve` has filled when its search starts. -/
structure HashcashBufs where
  tokenBin : List UInt8
  first : Mem
  chunk : Mem
  tail : Mem

/-- Copies of the token, one behind the other. -/
def wmHashcashFill (tokenBin : List UInt8) (repeats : ℕ) (m : Mem) : Mem :=
  (List.range repeats).foldl (fun m i => store m (i * WM_HASHCASH_TOKEN_BYTES) tokenBin) m

/-- `stack` is what the arrays held before. -/
def wmHashcashBufs (tokenBin : List UInt8) (stack : Mem) : HashcashBufs where
  tokenBin := tokenBin
  first := store (store (store stack 0 (List.replicate 64 0)) 4 tokenBin)
    (4 + WM_HASHCASH_TOKEN_BYTES) (tokenBin.take 12)
  chunk := wmHashcashFill tokenBin WM_HASHCASH_CHUNK_REPEATS stack
  tail := wmHashcashFill tokenBin WM_HASHCASH_TAIL_REPEATS stack

/-- The hash of one nonce: the context that `br_sha256_out` is called on, `none` where
the time-out comes first. -/
def wmHashcashAttempt (b : HashcashBufs) (startTick nonce : UInt32) (s : Poll ρ) :
    Option γ × Poll ρ :=
  let first := store b.first 0 (wmHashcashStoreBe32 nonce)
  let ctx := H.update H.init (load first 0 64)
  let ctx := H.update ctx ((b.tokenBin.drop 12).take 36)
  let chunk := load b.chunk 0 (WM_HASHCASH_TOKEN_BYTES * WM_HASHCASH_CHUNK_REPEATS)
  match wmHashcashChunks H clock progress chunk nonce startTick 0 ctx s with
  | (none, s) => (none, s)
  | (some ctx, s) =>
    (some (H.update ctx (load b.tail 0 (WM_HASHCASH_TOKEN_BYTES * WM_HASHCASH_TAIL_REPEATS))), s)

/-- The body of `if ((nonce & 7UL) == 7UL)`. -/
def wmHashcashTried (nonce startTick : UInt32) (s : Poll ρ) : Poll ρ :=
  { s with
    userData := wmHashcashProgress progress s.userData
      (snprintf 96 (ascii "BearSSL hashcash tried " ++ decimal (nonce + 1).toNat ++
        ascii " nonces in " ++ decimal ((clock s.ticks - startTick) / 1000).toNat ++
        ascii " seconds..."))
    ticks := s.ticks + 1 }

/-- The loop over the nonces. It gives up at the time-out. -/
def wmHashcashSearch (b : HashcashBufs) (threshold startTick : UInt32) :
    UInt32 → Poll ρ → WordSearch.Outcome × Poll ρ :=
  WordSearch.run (wmHashcashAttempt H clock progress b startTick)
    (fun ctx => wmHashcashLoadBe32 (H.out ctx).toList ≤ threshold)
    fun nonce s => if nonce &&& 7 = 7 then wmHashcashTried clock progress nonce startTick s else s

structure HashcashOut (ρ : Type) where
  ret : Bool
  prefixB64 : Option Mem
  userData : ρ

/-- The search of `wm_hashcash_solve` for a token, from the first call of `GetTickCount`. -/
def wmHashcashRun (tokenBin : List UInt8) (easiness : UInt32) (stack : Mem) (userData : ρ) :
    WordSearch.Outcome × Poll ρ :=
  let startTick := clock 0
  wmHashcashSearch H clock progress (wmHashcashBufs tokenBin stack) (wmHashcashThreshold easiness)
    startTick 0 ⟨userData, 1, startTick⟩

def wmHashcashSolve (token : Option CString) (easiness : UInt32) (prefixB64 : Option Mem)
    (prefixB64Size : UInt32) (stack : Mem) (userData : ρ) : HashcashOut ρ :=
  match token, prefixB64 with
  | some token, some out =>
    if prefixB64Size = 0 ∨ easiness > 255 then ⟨false, some out, userData⟩
    else
      let decoded := wmHashcashB64Decode token WM_HASHCASH_TOKEN_BYTES
      if decoded.ret ≠ WM_HASHCASH_TOKEN_BYTES then ⟨false, some out, userData⟩
      else
        match wmHashcashRun H clock progress decoded.out easiness stack userData with
        | (.found nonce, s) =>
          let e := wmHashcashB64Encode (wmHashcashStoreBe32 nonce) out prefixB64Size
          ⟨e.ret, some e.out, s.userData⟩
        | (_, s) => ⟨false, some out, s.userData⟩
  | _, out => ⟨false, out, userData⟩

end Solve

end BearTLS
