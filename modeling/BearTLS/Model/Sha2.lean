import BearTLS.Lib.Memory
import BearTLS.Model.SslRecordProtection

/-! SHA-2: `sha2small.c` on words of 32 bits and `sha2big.c` on words of 64. -/

namespace BearTLS

open Memory

/-- `br_dec32be` and `br_dec64be`. -/
def brDecBe (w : ℕ) (bs : List UInt8) : BitVec w :=
  bs.foldl (fun x b => (x <<< 8) ||| b.toBitVec.setWidth w) 0

/-- `br_enc32be` and `br_enc64be`. -/
def brEncBe {w : ℕ} (x : BitVec w) : List UInt8 :=
  (List.range (w / 8)).map fun i => UInt8.ofBitVec ((x >>> (w - 8 * (i + 1))).setWidth 8)

def brRangeDecBe (w num : ℕ) (bs : List UInt8) : List (BitVec w) :=
  (List.range num).map fun i => brDecBe w ((bs.drop (w / 8 * i)).take (w / 8))

def brRangeEncBe {w : ℕ} (v : List (BitVec w)) : List UInt8 := v.flatMap brEncBe

section Words

variable {w : ℕ}

def CH (x y z : BitVec w) : BitVec w := ((y ^^^ z) &&& x) ^^^ z
def MAJ (x y z : BitVec w) : BitVec w := (y &&& z) ||| ((y ||| z) &&& x)
def ROTR (x : BitVec w) (n : ℕ) : BitVec w := (x <<< (w - n)) ||| (x >>> n)

end Words

/-- The local variables `a` to `h`, or the array `val`. -/
structure Sha2Words (w : ℕ) where
  a : BitVec w
  b : BitVec w
  c : BitVec w
  d : BitVec w
  e : BitVec w
  f : BitVec w
  g : BitVec w
  h : BitVec w
deriving DecidableEq

namespace Sha2Words

variable {w : ℕ}

def toList (v : Sha2Words w) : List (BitVec w) := [v.a, v.b, v.c, v.d, v.e, v.f, v.g, v.h]

def ofList (l : List (BitVec w)) : Sha2Words w where
  a := l.getD 0 0
  b := l.getD 1 0
  c := l.getD 2 0
  d := l.getD 3 0
  e := l.getD 4 0
  f := l.getD 5 0
  g := l.getD 6 0
  h := l.getD 7 0

def add (v u : Sha2Words w) : Sha2Words w :=
  ⟨v.a + u.a, v.b + u.b, v.c + u.c, v.d + u.d, v.e + u.e, v.f + u.f, v.g + u.g, v.h + u.h⟩

end Sha2Words

/-- What the two files differ in. `lenAt` is where the length stands in the last block. -/
structure Sha2 (w : ℕ) where
  rounds : ℕ
  k : List (BitVec w)
  bsg0 : BitVec w → BitVec w
  bsg1 : BitVec w → BitVec w
  ssg0 : BitVec w → BitVec w
  ssg1 : BitVec w → BitVec w
  blen : ℕ
  lenAt : ℕ
  encLen : UInt64 → List UInt8

/-- `br_sha224_context` and `br_sha384_context`. -/
structure Sha2Context (w : ℕ) where
  buf : Mem
  count : UInt64
  val : Sha2Words w

namespace Sha2

variable {w : ℕ} (P : Sha2 w)

/-- One more word behind the `i` first ones. -/
def expandStep (ws : List (BitVec w)) (i : ℕ) : List (BitVec w) :=
  ws ++ [P.ssg1 (ws.getD (i - 2) 0) + ws.getD (i - 7) 0 + P.ssg0 (ws.getD (i - 15) 0) +
    ws.getD (i - 16) 0]

/-- The loop that fills `w[16]` and what follows. -/
def expand (ws : List (BitVec w)) : List (BitVec w) :=
  (List.range' 16 (P.rounds - 16)).foldl P.expandStep ws

/-- `SHA2_STEP`: what becomes of `D` and of `H`. -/
def step (ws : List (BitVec w)) (A B C D E F G H : BitVec w) (j : ℕ) : BitVec w × BitVec w :=
  let T1 := H + P.bsg1 E + CH E F G + P.k.getD j 0 + ws.getD j 0
  let T2 := P.bsg0 A + MAJ A B C
  (D + T1, T1 + T2)

/-- The body of the loop over the rounds. -/
def eightSteps (ws : List (BitVec w)) (v : Sha2Words w) (i : ℕ) : Sha2Words w :=
  let ⟨a, b, c, d, e, f, g, h⟩ := v
  let (d, h) := P.step ws a b c d e f g h (i + 0)
  let (c, g) := P.step ws h a b c d e f g (i + 1)
  let (b, f) := P.step ws g h a b c d e f (i + 2)
  let (a, e) := P.step ws f g h a b c d e (i + 3)
  let (h, d) := P.step ws e f g h a b c d (i + 4)
  let (g, c) := P.step ws d e f g h a b c (i + 5)
  let (f, b) := P.step ws c d e f g h a b (i + 6)
  let (e, a) := P.step ws b c d e f g h a (i + 7)
  ⟨a, b, c, d, e, f, g, h⟩

def round (buf : List UInt8) (val : Sha2Words w) : Sha2Words w :=
  let ws := P.expand (brRangeDecBe w 16 buf)
  val.add ((List.range (P.rounds / 8)).foldl (fun v i => P.eightSteps ws v (8 * i)) val)

/-- The loop of `update`, from `ptr` on. -/
def updateLoop (buf : Mem) (val : Sha2Words w) (ptr : ℕ) (data : List UInt8) :
    Mem × Sha2Words w :=
  if _h : data ≠ [] ∧ ptr < P.blen then
    let clen := P.blen - ptr
    let clen := if clen > data.length then data.length else clen
    let buf := store buf ptr (data.take clen)
    let ptr := ptr + clen
    if ptr = P.blen then updateLoop buf (P.round (load buf 0 P.blen) val) 0 (data.drop clen)
    else updateLoop buf val ptr (data.drop clen)
  else (buf, val)
termination_by data.length
decreasing_by
  all_goals
    have hpos := List.length_pos_of_ne_nil _h.1
    rw [List.length_drop]
    split_ifs <;> omega

def update (cc : Sha2Context w) (data : List UInt8) : Sha2Context w :=
  let ptr := cc.count.toNat % P.blen
  let count := cc.count + data.length.toUInt64
  let (buf, val) := P.updateLoop cc.buf cc.val ptr data
  ⟨buf, count, val⟩

/-- `num` is how many words are put out; `stack` is what the local array held. -/
def out (stack : Mem) (cc : Sha2Context w) (num : ℕ) : List UInt8 :=
  let ptr := cc.count.toNat % P.blen
  let buf := store stack 0 (load cc.buf 0 ptr)
  let val := cc.val
  let buf := store buf ptr [0x80]
  let ptr := ptr + 1
  let (buf, val) := if ptr > P.lenAt then
      let buf := store buf ptr (List.replicate (P.blen - ptr) 0)
      let val := P.round (load buf 0 P.blen) val
      (store buf 0 (List.replicate P.lenAt 0), val)
    else (store buf ptr (List.replicate (P.lenAt - ptr) 0), val)
  let buf := store buf P.lenAt (P.encLen cc.count)
  let val := P.round (load buf 0 P.blen) val
  brRangeEncBe (val.toList.take num)

def init (iv : List (BitVec w)) (cc : Sha2Context w) : Sha2Context w :=
  { cc with val := .ofList iv, count := 0 }

def state (cc : Sha2Context w) : List UInt8 × UInt64 := (brRangeEncBe cc.val.toList, cc.count)

def setState (cc : Sha2Context w) (stb : List UInt8) (count : UInt64) : Sha2Context w :=
  { cc with val := .ofList (brRangeDecBe w 8 stb), count := count }

end Sha2

section Small

def brSha224IV : List (BitVec 32) := [
  0xC1059ED8, 0x367CD507, 0x3070DD17, 0xF70E5939,
  0xFFC00B31, 0x68581511, 0x64F98FA7, 0xBEFA4FA4]

def brSha256IV : List (BitVec 32) := [
  0x6A09E667, 0xBB67AE85, 0x3C6EF372, 0xA54FF53A,
  0x510E527F, 0x9B05688C, 0x1F83D9AB, 0x5BE0CD19]

/-- The table `K` of `sha2small.c`. -/
def sha2smallK : List (BitVec 32) := [
  0x428A2F98, 0x71374491, 0xB5C0FBCF, 0xE9B5DBA5,
  0x3956C25B, 0x59F111F1, 0x923F82A4, 0xAB1C5ED5,
  0xD807AA98, 0x12835B01, 0x243185BE, 0x550C7DC3,
  0x72BE5D74, 0x80DEB1FE, 0x9BDC06A7, 0xC19BF174,
  0xE49B69C1, 0xEFBE4786, 0x0FC19DC6, 0x240CA1CC,
  0x2DE92C6F, 0x4A7484AA, 0x5CB0A9DC, 0x76F988DA,
  0x983E5152, 0xA831C66D, 0xB00327C8, 0xBF597FC7,
  0xC6E00BF3, 0xD5A79147, 0x06CA6351, 0x14292967,
  0x27B70A85, 0x2E1B2138, 0x4D2C6DFC, 0x53380D13,
  0x650A7354, 0x766A0ABB, 0x81C2C92E, 0x92722C85,
  0xA2BFE8A1, 0xA81A664B, 0xC24B8B70, 0xC76C51A3,
  0xD192E819, 0xD6990624, 0xF40E3585, 0x106AA070,
  0x19A4C116, 0x1E376C08, 0x2748774C, 0x34B0BCB5,
  0x391C0CB3, 0x4ED8AA4A, 0x5B9CCA4F, 0x682E6FF3,
  0x748F82EE, 0x78A5636F, 0x84C87814, 0x8CC70208,
  0x90BEFFFA, 0xA4506CEB, 0xBEF9A3F7, 0xC67178F2]

def sha2small : Sha2 32 where
  rounds := 64
  k := sha2smallK
  bsg0 x := ROTR x 2 ^^^ ROTR x 13 ^^^ ROTR x 22
  bsg1 x := ROTR x 6 ^^^ ROTR x 11 ^^^ ROTR x 25
  ssg0 x := ROTR x 7 ^^^ ROTR x 18 ^^^ (x >>> 3)
  ssg1 x := ROTR x 17 ^^^ ROTR x 19 ^^^ (x >>> 10)
  blen := 64
  lenAt := 56
  encLen count := brEnc64be (count <<< 3)

def brSha2smallRound := sha2small.round
def sha2smallUpdate := sha2small.update
def sha2smallOut := sha2small.out

def brSha224Init := Sha2.init brSha224IV
def brSha224Update := sha2smallUpdate
def brSha224Out (stack : Mem) (cc : Sha2Context 32) : List UInt8 := sha2smallOut stack cc 7
def brSha224State : Sha2Context 32 → List UInt8 × UInt64 := Sha2.state
def brSha224SetState : Sha2Context 32 → List UInt8 → UInt64 → Sha2Context 32 := Sha2.setState
def brSha256Init := Sha2.init brSha256IV
def brSha256Out (stack : Mem) (cc : Sha2Context 32) : List UInt8 := sha2smallOut stack cc 8

end Small

section Big

def IV384 : List (BitVec 64) := [
  0xCBBB9D5DC1059ED8, 0x629A292A367CD507,
  0x9159015A3070DD17, 0x152FECD8F70E5939,
  0x67332667FFC00B31, 0x8EB44A8768581511,
  0xDB0C2E0D64F98FA7, 0x47B5481DBEFA4FA4]

def IV512 : List (BitVec 64) := [
  0x6A09E667F3BCC908, 0xBB67AE8584CAA73B,
  0x3C6EF372FE94F82B, 0xA54FF53A5F1D36F1,
  0x510E527FADE682D1, 0x9B05688C2B3E6C1F,
  0x1F83D9ABFB41BD6B, 0x5BE0CD19137E2179]

/-- The table `K` of `sha2big.c`. -/
def sha2bigK : List (BitVec 64) := [
  0x428A2F98D728AE22, 0x7137449123EF65CD,
  0xB5C0FBCFEC4D3B2F, 0xE9B5DBA58189DBBC,
  0x3956C25BF348B538, 0x59F111F1B605D019,
  0x923F82A4AF194F9B, 0xAB1C5ED5DA6D8118,
  0xD807AA98A3030242, 0x12835B0145706FBE,
  0x243185BE4EE4B28C, 0x550C7DC3D5FFB4E2,
  0x72BE5D74F27B896F, 0x80DEB1FE3B1696B1,
  0x9BDC06A725C71235, 0xC19BF174CF692694,
  0xE49B69C19EF14AD2, 0xEFBE4786384F25E3,
  0x0FC19DC68B8CD5B5, 0x240CA1CC77AC9C65,
  0x2DE92C6F592B0275, 0x4A7484AA6EA6E483,
  0x5CB0A9DCBD41FBD4, 0x76F988DA831153B5,
  0x983E5152EE66DFAB, 0xA831C66D2DB43210,
  0xB00327C898FB213F, 0xBF597FC7BEEF0EE4,
  0xC6E00BF33DA88FC2, 0xD5A79147930AA725,
  0x06CA6351E003826F, 0x142929670A0E6E70,
  0x27B70A8546D22FFC, 0x2E1B21385C26C926,
  0x4D2C6DFC5AC42AED, 0x53380D139D95B3DF,
  0x650A73548BAF63DE, 0x766A0ABB3C77B2A8,
  0x81C2C92E47EDAEE6, 0x92722C851482353B,
  0xA2BFE8A14CF10364, 0xA81A664BBC423001,
  0xC24B8B70D0F89791, 0xC76C51A30654BE30,
  0xD192E819D6EF5218, 0xD69906245565A910,
  0xF40E35855771202A, 0x106AA07032BBD1B8,
  0x19A4C116B8D2D0C8, 0x1E376C085141AB53,
  0x2748774CDF8EEB99, 0x34B0BCB5E19B48A8,
  0x391C0CB3C5C95A63, 0x4ED8AA4AE3418ACB,
  0x5B9CCA4F7763E373, 0x682E6FF3D6B2B8A3,
  0x748F82EE5DEFB2FC, 0x78A5636F43172F60,
  0x84C87814A1F0AB72, 0x8CC702081A6439EC,
  0x90BEFFFA23631E28, 0xA4506CEBDE82BDE9,
  0xBEF9A3F7B2C67915, 0xC67178F2E372532B,
  0xCA273ECEEA26619C, 0xD186B8C721C0C207,
  0xEADA7DD6CDE0EB1E, 0xF57D4F7FEE6ED178,
  0x06F067AA72176FBA, 0x0A637DC5A2C898A6,
  0x113F9804BEF90DAE, 0x1B710B35131C471B,
  0x28DB77F523047D84, 0x32CAAB7B40C72493,
  0x3C9EBE0A15C9BEBC, 0x431D67C49C100D4C,
  0x4CC5D4BECB3E42B6, 0x597F299CFC657E2A,
  0x5FCB6FAB3AD6FAEC, 0x6C44198C4A475817]

def sha2big : Sha2 64 where
  rounds := 80
  k := sha2bigK
  bsg0 x := ROTR x 28 ^^^ ROTR x 34 ^^^ ROTR x 39
  bsg1 x := ROTR x 14 ^^^ ROTR x 18 ^^^ ROTR x 41
  ssg0 x := ROTR x 1 ^^^ ROTR x 8 ^^^ (x >>> 7)
  ssg1 x := ROTR x 19 ^^^ ROTR x 61 ^^^ (x >>> 6)
  blen := 128
  lenAt := 112
  encLen count := brEnc64be (count >>> 61) ++ brEnc64be (count <<< 3)

def sha2bigRound := sha2big.round
def sha2bigUpdate := sha2big.update
def sha2bigOut := sha2big.out

def brSha384Init := Sha2.init IV384
def brSha384Update := sha2bigUpdate
def brSha384Out (stack : Mem) (cc : Sha2Context 64) : List UInt8 := sha2bigOut stack cc 6
def brSha384State : Sha2Context 64 → List UInt8 × UInt64 := Sha2.state
def brSha384SetState : Sha2Context 64 → List UInt8 → UInt64 → Sha2Context 64 := Sha2.setState
def brSha512Init := Sha2.init IV512
def brSha512Out (stack : Mem) (cc : Sha2Context 64) : List UInt8 := sha2bigOut stack cc 8

end Big

section Classes

def BR_HASHDESC_ID (id : UInt32) : UInt32 := id
def BR_HASHDESC_OUT (size : UInt32) : UInt32 := size <<< 8
def BR_HASHDESC_STATE (size : UInt32) : UInt32 := size <<< 15
def BR_HASHDESC_LBLEN (ls : UInt32) : UInt32 := ls <<< 23
def BR_HASHDESC_MD_PADDING : UInt32 := (1 : UInt32) <<< 28
def BR_HASHDESC_MD_PADDING_128 : UInt32 := (1 : UInt32) <<< 29
def BR_HASHDESC_MD_PADDING_BE : UInt32 := (1 : UInt32) <<< 30

/-- `br_hash_class`; `init` and `set_state` leave the buffer of the context as it is. -/
structure BrHashClass (γ : Type) where
  desc : UInt32
  init : γ → γ
  update : γ → List UInt8 → γ
  out : γ → List UInt8
  state : γ → List UInt8 × UInt64
  setState : γ → List UInt8 → UInt64 → γ

def brDigestSize {γ : Type} (dig : BrHashClass γ) : ℕ := ((dig.desc >>> 8) &&& 0x7F).toNat

def brSha224Vtable (stack : Mem) : BrHashClass (Sha2Context 32) where
  desc := BR_HASHDESC_ID 3 ||| BR_HASHDESC_OUT 28 ||| BR_HASHDESC_STATE 32 |||
    BR_HASHDESC_LBLEN 6 ||| BR_HASHDESC_MD_PADDING ||| BR_HASHDESC_MD_PADDING_BE
  init := brSha224Init
  update := brSha224Update
  out := brSha224Out stack
  state := brSha224State
  setState := brSha224SetState

def brSha256Vtable (stack : Mem) : BrHashClass (Sha2Context 32) where
  desc := BR_HASHDESC_ID 4 ||| BR_HASHDESC_OUT 32 ||| BR_HASHDESC_STATE 32 |||
    BR_HASHDESC_LBLEN 6 ||| BR_HASHDESC_MD_PADDING ||| BR_HASHDESC_MD_PADDING_BE
  init := brSha256Init
  update := brSha224Update
  out := brSha256Out stack
  state := brSha224State
  setState := brSha224SetState

def brSha384Vtable (stack : Mem) : BrHashClass (Sha2Context 64) where
  desc := BR_HASHDESC_ID 5 ||| BR_HASHDESC_OUT 48 ||| BR_HASHDESC_STATE 64 |||
    BR_HASHDESC_LBLEN 7 ||| BR_HASHDESC_MD_PADDING ||| BR_HASHDESC_MD_PADDING_BE |||
    BR_HASHDESC_MD_PADDING_128
  init := brSha384Init
  update := brSha384Update
  out := brSha384Out stack
  state := brSha384State
  setState := brSha384SetState

def brSha512Vtable (stack : Mem) : BrHashClass (Sha2Context 64) where
  desc := BR_HASHDESC_ID 6 ||| BR_HASHDESC_OUT 64 ||| BR_HASHDESC_STATE 64 |||
    BR_HASHDESC_LBLEN 7 ||| BR_HASHDESC_MD_PADDING ||| BR_HASHDESC_MD_PADDING_BE |||
    BR_HASHDESC_MD_PADDING_128
  init := brSha512Init
  update := brSha384Update
  out := brSha512Out stack
  state := brSha384State
  setState := brSha384SetState

end Classes

end BearTLS
