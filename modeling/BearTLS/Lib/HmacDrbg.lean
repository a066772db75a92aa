import Mathlib.Data.UInt

/-! HMAC_DRBG as in NIST SP 800-90A, section 10.1.2, over any function for HMAC with `n`
bytes of output. -/

namespace HmacDrbg

variable (mac : List UInt8 → List UInt8 → List UInt8) (n : ℕ)

structure State where
  key : List UInt8
  v : List UInt8

/-- `HMAC_DRBG_Update`. -/
def update (s : State) (provided : List UInt8) : State :=
  let key := mac s.key (s.v ++ 0x00 :: provided)
  let v := mac key s.v
  if provided = [] then ⟨key, v⟩
  else
    let key := mac key (v ++ 0x01 :: provided)
    ⟨key, mac key v⟩

def instantiate (seed : List UInt8) : State :=
  update mac ⟨List.replicate n 0, List.replicate n 1⟩ seed

/-- The value `V` after so many blocks of output. -/
def value (s : State) : ℕ → List UInt8
  | 0 => s.v
  | i + 1 => mac s.key (value s i)

/-- The blocks from the index `i` on, of which there are `l`. -/
def blocks (s : State) (i l : ℕ) : List UInt8 :=
  (List.range' i l).flatMap fun j => value mac s (j + 1)

/-- `HMAC_DRBG_Generate` without additional input. -/
def generate (s : State) (len : ℕ) : List UInt8 × State :=
  let l := (len + n - 1) / n
  ((blocks mac s 0 l).take len, update mac ⟨s.key, value mac s l⟩ [])

variable {mac n} {s : State}

theorem blocks_succ (i l : ℕ) :
    blocks mac s i (l + 1) = value mac s (i + 1) ++ blocks mac s (i + 1) l := by
  rw [blocks, List.range'_succ, List.flatMap_cons]
  rfl

/-- A state whose two parts are outputs of `mac`. -/
structure State.Sized (s : State) (n : ℕ) : Prop where
  key : s.key.length = n
  v : s.v.length = n

theorem update_sized (hmac : ∀ k m, (mac k m).length = n) (provided : List UInt8) :
    (update mac s provided).Sized n := by
  rw [update]
  dsimp only
  split_ifs
  · exact ⟨hmac _ _, hmac _ _⟩
  · exact ⟨hmac _ _, hmac _ _⟩

theorem value_length (hmac : ∀ k m, (mac k m).length = n) (hs : s.Sized n) (i : ℕ) :
    (value mac s i).length = n := by
  cases i with
  | zero => exact hs.v
  | succ i => exact hmac _ _

end HmacDrbg
