import BearTLS.Model.Hashcash
import Mathlib.Data.Vector.Zip

/-! The key derivation of `wm_https.c`. HMAC-SHA-512 is a parameter, from the key and
the message to 64 bytes. The clearing of the local arrays at the end is left out. -/

namespace BearTLS

open HeaderBlock Memory

variable {ρ : Type} (hmac : List UInt8 → List UInt8 → List.Vector UInt8 64)
  (progress : Progress ρ)

/-- `none` is the return value 0. -/
def wmPbkdf2HmacSha512Once (password : Option CString) (data : Option (List UInt8)) :
    Option (List.Vector UInt8 64) :=
  match password, data with
  | some password, some data => some (hmac password.bytes data)
  | _, _ => none

/-- The arrays `u` and `t`, and the user data of the callback. -/
structure Pbkdf2State (ρ : Type) where
  u : List.Vector UInt8 64
  t : List.Vector UInt8 64
  userData : ρ

/-- The message after the i-th iteration of the first block. -/
def wmPbkdf2Message (i iterations : UInt32) : List UInt8 :=
  snprintf 96 (ascii "PBKDF2-SHA512 " ++ decimal i.toNat ++ ascii "/" ++
    decimal iterations.toNat ++ ascii " iterations...")

theorem iteration_succ {i n : UInt32} (h : i < n) : (i + 1).toNat = i.toNat + 1 := by
  have hlt : i.toNat < n.toNat := UInt32.lt_iff_toNat_lt.mp h
  have hn := n.toNat_lt
  rw [UInt32.toNat_add]
  exact Nat.mod_eq_of_lt (show i.toNat + 1 < 2 ^ 32 by omega)

/-- The loop over the iterations from `i` on; `none` for the first component is its
`return 0`. -/
def wmPbkdf2Iterate (password : Option CString) (iterations blockIndex i : UInt32)
    (s : Pbkdf2State ρ) : Option (Pbkdf2State ρ) × ρ :=
  if _h : i < iterations then
    match wmPbkdf2HmacSha512Once hmac password (some s.u.toList) with
    | none => (none, s.userData)
    | some u =>
      let t := List.Vector.zipWith (· ^^^ ·) s.t u
      let userData := if i % 10000 = 0 ∧ blockIndex = 1 then
          wmHashcashProgress progress s.userData (wmPbkdf2Message i iterations)
        else s.userData
      wmPbkdf2Iterate password iterations blockIndex (i + 1) ⟨u, t, userData⟩
  else (some s, s.userData)
termination_by iterations.toNat - i.toNat
decreasing_by
  have hlt : i.toNat < iterations.toNat := UInt32.lt_iff_toNat_lt.mp _h
  rw [iteration_succ _h]
  omega

structure Pbkdf2Out (ρ : Type) where
  ret : Bool
  out : Mem
  userData : ρ

/-- `if (copy_len > sizeof(t)) copy_len = sizeof(t);` -/
def wmPbkdf2CopyLen (outLen produced : UInt32) : UInt32 :=
  if outLen - produced > 64 then 64 else outLen - produced

theorem copyLen_toNat {outLen produced : UInt32} (h : produced < outLen) :
    (wmPbkdf2CopyLen outLen produced).toNat = min 64 (outLen.toNat - produced.toNat) ∧
      (produced + wmPbkdf2CopyLen outLen produced).toNat =
        min (produced.toNat + 64) outLen.toNat := by
  have hlt : produced.toNat < outLen.toNat := UInt32.lt_iff_toNat_lt.mp h
  have hmax := outLen.toNat_lt
  have hsub : (outLen - produced).toNat = outLen.toNat - produced.toNat :=
    UInt32.toNat_sub_of_le _ _ (UInt32.le_iff_toNat_le.mpr (Nat.le_of_lt hlt))
  have h64 : (64 : UInt32).toNat = 64 := rfl
  unfold wmPbkdf2CopyLen
  split_ifs with hbig
  · have hbig' : 64 < (outLen - produced).toNat := UInt32.lt_iff_toNat_lt.mp hbig
    rw [UInt32.toNat_add, Nat.mod_eq_of_lt (by omega)]
    omega
  · have hsmall : ¬ 64 < (outLen - produced).toNat := fun h => hbig (UInt32.lt_iff_toNat_lt.mpr h)
    rw [UInt32.toNat_add, Nat.mod_eq_of_lt (by omega)]
    omega

/-- The loop over the blocks. -/
def wmPbkdf2Blocks (password : Option CString) (salt : List UInt8) (iterations outLen : UInt32)
    (produced blockIndex : UInt32) (out : Mem) (userData : ρ) : Pbkdf2Out ρ :=
  if _h : produced < outLen then
    if salt.length + 4 > 68 then ⟨false, out, userData⟩
    else
      let firstInput := salt ++ wmHashcashStoreBe32 blockIndex
      match wmPbkdf2HmacSha512Once hmac password (some firstInput) with
      | none => ⟨false, out, userData⟩
      | some u =>
        match wmPbkdf2Iterate hmac progress password iterations blockIndex 1 ⟨u, u, userData⟩ with
        | (none, userData) => ⟨false, out, userData⟩
        | (some s, userData) =>
          let copyLen := wmPbkdf2CopyLen outLen produced
          wmPbkdf2Blocks password salt iterations outLen (produced + copyLen) (blockIndex + 1)
            (store out produced.toNat (s.t.toList.take copyLen.toNat)) userData
  else ⟨true, out, userData⟩
termination_by outLen.toNat - produced.toNat
decreasing_by
  have hlt : produced.toNat < outLen.toNat := UInt32.lt_iff_toNat_lt.mp _h
  rw [(copyLen_toNat _h).2]
  omega

structure DerivedKey (ρ : Type) where
  ret : Bool
  out : Option Mem
  userData : ρ

def wmPbkdf2Sha512B64salt (password saltB64 : Option CString) (iterations : UInt32)
    (out : Option Mem) (outLen : UInt32) (userData : ρ) : DerivedKey ρ :=
  match password, saltB64, out with
  | some password, some saltB64, some out =>
    if outLen = 0 ∨ iterations = 0 then ⟨false, some out, userData⟩
    else
      let decoded := wmHashcashB64Decode saltB64 64
      if decoded.ret ≤ 0 then ⟨false, some out, userData⟩
      else
        let o := wmPbkdf2Blocks hmac progress (some password) decoded.out iterations outLen 0 1 out
          userData
        ⟨o.ret, some o.out, o.userData⟩
  | _, _, out => ⟨false, out, userData⟩

end BearTLS
