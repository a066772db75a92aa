import BearTLS.Proofs.HashUpdates
import BearTLS.Proofs.HashcashText

/-! `wm_hashcash_solve` finds the least nonce whose hash is easy enough. -/

namespace BearTLS

open Base64 Memory Radix WordSearch

variable {γ ρ : Type} {H : Sha256 γ} {clock : ℕ → UInt32} {progress : Progress ρ}

section Message

/-- `n` copies of the token. -/
def copies (n : ℕ) (token : List UInt8) : List UInt8 := (List.replicate n token).flatten

theorem copies_add (m n : ℕ) (token : List UInt8) :
    copies (m + n) token = copies m token ++ copies n token := by
  rw [copies, List.replicate_add, List.flatten_append]
  rfl

theorem copies_copies (m n : ℕ) (token : List UInt8) :
    copies m (copies n token) = copies (m * n) token := by
  induction m with
  | zero => simp [copies]
  | succ m ih =>
    have hone : ∀ t, copies 1 t = t := fun t => by simp [copies]
    rw [copies_add, ih, hone, Nat.succ_mul, copies_add]

/-- The text that is hashed for a nonce. -/
def hashcashMessage (token : List UInt8) (nonce : UInt32) : List UInt8 :=
  toBytes 4 nonce.toNat ++ copies WM_HASHCASH_REPEAT token

variable {token : List UInt8} (hlen : token.length = WM_HASHCASH_TOKEN_BYTES)

include hlen

theorem fill_copies (n : ℕ) (m : Mem) :
    load (wmHashcashFill token n m) 0 (WM_HASHCASH_TOKEN_BYTES * n) = copies n token := by
  induction n with
  | zero => rfl
  | succ n ih =>
    have hone : copies 1 token = token := by simp [copies]
    rw [wmHashcashFill, List.range_succ, List.foldl_append, List.foldl_cons, List.foldl_nil,
      Nat.mul_comm n, Nat.mul_succ, copies_add, hone, ← ih]
    have happend := load_store_append (wmHashcashFill token n m) (WM_HASHCASH_TOKEN_BYTES * n) token
    rw [hlen] at happend
    exact happend

theorem first_block (nonce : UInt32) (stack : Mem) :
    load (store (wmHashcashBufs token stack).first 0 (wmHashcashStoreBe32 nonce)) 0 64 =
      toBytes 4 nonce.toNat ++ token ++ token.take 12 := by
  have h48 : token.length = 48 := hlen
  have hbe : (toBytes 4 nonce.toNat).length = 4 := length_toBytes
  have htake : (token.take 12).length = 12 := by rw [List.length_take, h48]; rfl
  have hsplit : (64 : ℕ) = 4 + 48 + 12 := rfl
  rw [store_be32_eq, hsplit, load_add, load_add]
  simp only [wmHashcashBufs, WM_HASHCASH_TOKEN_BYTES, Nat.zero_add, Nat.reduceAdd]
  set zeros := store stack 0 (List.replicate 64 0)
  have hnonce := load_store_same (store (store zeros 4 token) 52 (token.take 12)) 0
    (toBytes 4 nonce.toNat)
  have hcopy := load_store_same zeros 4 token
  have hrest := load_store_same (store zeros 4 token) 52 (token.take 12)
  rw [hbe] at hnonce
  rw [h48] at hcopy
  rw [htake] at hrest
  rw [hnonce, load_store_disjoint _ _ _ _ _ (.inr (by omega)),
    load_store_disjoint _ _ _ _ _ (.inl (by omega)), hcopy,
    load_store_disjoint _ _ _ _ _ (.inr (by omega)), hrest]

end Message

section Attempt

/-- The time-out: some tick was read too late. -/
def TimedOut (clock : ℕ → UInt32) (startTick : UInt32) (ticks : ℕ) : Prop :=
  ∃ k < ticks, WM_HASHCASH_TIMEOUT_MS ≤ clock k - startTick

theorem poll_timed_out {nonce startTick : UInt32} {i : ℕ} {s : Poll ρ}
    (h : (wmHashcashPoll clock progress nonce startTick i s).1 = true) :
    TimedOut clock startTick (wmHashcashPoll clock progress nonce startTick i s).2.ticks := by
  simp only [wmHashcashPoll] at h ⊢
  by_cases hlate : clock s.ticks - startTick ≥ WM_HASHCASH_TIMEOUT_MS
  · simp only [if_pos hlate]
    refine ⟨s.ticks, ?_, hlate⟩
    split_ifs
    · exact Nat.lt_succ_self _
    · exact Nat.lt_succ_self _
  · simp only [if_neg hlate] at h
    cases h

variable (H clock progress) in
/-- The loop over the chunks hashes those that are left, or it times out. -/
theorem chunks_spec (chunk : List UInt8) (nonce startTick : UInt32) (i : ℕ) (ctx : γ) (s : Poll ρ) :
    let o := wmHashcashChunks H clock progress chunk nonce startTick i ctx s
    (∀ ctx', o.1 = some ctx' →
      ctx' = (List.replicate (WM_HASHCASH_FULL_CHUNKS - i) chunk).foldl H.update ctx) ∧
    (o.1 = none → TimedOut clock startTick o.2.ticks) := by
  induction hleft : WM_HASHCASH_FULL_CHUNKS - i generalizing i ctx s with
  | zero =>
    rw [wmHashcashChunks, if_neg (by omega)]
    refine ⟨fun ctx' h => ?_, fun h => ?_⟩
    · exact (Option.some.inj h).symm
    · cases h
  | succ left ih =>
    have hnext := ih (i + 1)
    rw [wmHashcashChunks, if_pos (by omega)]
    dsimp only
    by_cases hpoll : i % 32 = 31
    · rw [if_pos hpoll]
      cases hp : (wmHashcashPoll clock progress nonce startTick i s).1 with
      | true =>
        rw [if_pos rfl]
        refine ⟨fun ctx' h => ?_, fun _ => poll_timed_out hp⟩
        cases h
      | false =>
        rw [if_neg Bool.false_ne_true]
        exact hnext _ _ (by omega)
    · rw [if_neg hpoll]
      exact hnext _ _ (by omega)

theorem foldl_update (updates : List (List UInt8)) (hinc : H.Incremental) (c : γ) (a : List UInt8) :
    (a :: updates).foldl H.update c = H.update c (a :: updates).flatten := by
  induction updates generalizing a with
  | nil => simp
  | cons b updates ih =>
    have hstep := ih (a ++ b)
    rw [List.foldl_cons] at hstep
    rw [List.foldl_cons, List.foldl_cons, hinc, hstep]
    simp

variable {token : List UInt8} (hlen : token.length = WM_HASHCASH_TOKEN_BYTES)

include hlen in
/-- Two copies in the first block and the 36 bytes behind it, 1023 chunks of 256
copies, and a tail of 254. -/
theorem copies_layout : token ++ token.take 12 ++ (token.drop 12).take 36 ++
    copies WM_HASHCASH_FULL_CHUNKS (copies WM_HASHCASH_CHUNK_REPEATS token) ++
      copies WM_HASHCASH_TAIL_REPEATS token = copies WM_HASHCASH_REPEAT token := by
  have hone : copies 1 token = token := by simp [copies]
  have hrest : (token.drop 12).take 36 = token.drop 12 := by
    apply List.take_of_length_le
    rw [List.length_drop, hlen]
    decide
  have htwo : token ++ token.take 12 ++ token.drop 12 = copies 2 token := by
    rw [List.append_assoc, List.take_append_drop, show 2 = 1 + 1 from rfl, copies_add, hone]
  have hcount : WM_HASHCASH_REPEAT = 2 + WM_HASHCASH_FULL_CHUNKS * WM_HASHCASH_CHUNK_REPEATS +
      WM_HASHCASH_TAIL_REPEATS := by decide
  rw [hrest, htwo, copies_copies, ← copies_add, ← copies_add, ← hcount]

variable (H progress) in
include hlen in
/-- The updates of one attempt add up to the message, or it times out. -/
theorem attempt_spec (stack : Mem) (startTick nonce : UInt32) (s : Poll ρ) :
    let o := wmHashcashAttempt H clock progress (wmHashcashBufs token stack) startTick nonce s
    (∀ ctx, o.1 = some ctx → ∃ updates : List (List UInt8), updates ≠ [] ∧
      ctx = updates.foldl H.update H.init ∧ updates.flatten = hashcashMessage token nonce) ∧
    (o.1 = none → TimedOut clock startTick o.2.ticks) := by
  have hchunk : load (wmHashcashBufs token stack).chunk 0
      (WM_HASHCASH_TOKEN_BYTES * WM_HASHCASH_CHUNK_REPEATS) =
        copies WM_HASHCASH_CHUNK_REPEATS token := by
    simp only [wmHashcashBufs]
    exact fill_copies hlen WM_HASHCASH_CHUNK_REPEATS stack
  have htail : load (wmHashcashBufs token stack).tail 0
      (WM_HASHCASH_TOKEN_BYTES * WM_HASHCASH_TAIL_REPEATS) =
        copies WM_HASHCASH_TAIL_REPEATS token := by
    simp only [wmHashcashBufs]
    exact fill_copies hlen WM_HASHCASH_TAIL_REPEATS stack
  have htoken : (wmHashcashBufs token stack).tokenBin = token := rfl
  have hfirst := first_block hlen nonce stack
  set first := load (store (wmHashcashBufs token stack).first 0 (wmHashcashStoreBe32 nonce)) 0 64
  set chunk := copies WM_HASHCASH_CHUNK_REPEATS token
  set tail := copies WM_HASHCASH_TAIL_REPEATS token
  set start := H.update (H.update H.init first) ((token.drop 12).take 36) with hstart
  have hloop := chunks_spec H clock progress chunk nonce startTick 0 start s
  have hattempt : wmHashcashAttempt H clock progress (wmHashcashBufs token stack) startTick
      nonce s =
      ((wmHashcashChunks H clock progress chunk nonce startTick 0 start s).1.map (H.update · tail),
      (wmHashcashChunks H clock progress chunk nonce startTick 0 start s).2) := by
    rw [wmHashcashAttempt, hchunk, htail, htoken]
    cases hrun : wmHashcashChunks H clock progress chunk nonce startTick 0 start s with
    | mk ctx s' =>
      cases ctx with
      | none => rfl
      | some ctx => rfl
  rw [hattempt]
  generalize wmHashcashChunks H clock progress chunk nonce startTick 0 start s = o at hloop ⊢
  refine ⟨fun ctx h => ?_, fun h => hloop.2 (Option.map_eq_none_iff.mp h)⟩
  obtain ⟨ctx', hctx', rfl⟩ := Option.map_eq_some_iff.mp h
  refine ⟨[first, (token.drop 12).take 36] ++ List.replicate WM_HASHCASH_FULL_CHUNKS chunk ++
    [tail], by simp, ?_, ?_⟩
  · rw [hloop.1 ctx' hctx', List.foldl_append, List.foldl_append, Nat.sub_zero]
    rfl
  · rw [List.flatten_append, List.flatten_append, hfirst, hashcashMessage, ← copies_layout hlen]
    simp only [List.flatten_cons, List.flatten_nil, List.append_nil, List.append_assoc]
    rfl

end Attempt

section Solve

/-- The context that is hashed for a nonce. -/
def Sha256.ofNonce (H : Sha256 γ) (token : List UInt8) (nonce : UInt32) : γ :=
  H.update H.init (hashcashMessage token nonce)

/-- The first 32 bits of the digest are at most the threshold of the easiness `e`. -/
def EasyEnough (H : Sha256 γ) (token : List UInt8) (e nonce : UInt32) : Prop :=
  ofBytes ((H.out (H.ofNonce token nonce)).toList.take 4) ≤
    (2 * (e.toNat % 64) + 1) * 2 ^ (7 * (e.toNat / 64) + 3)

theorem threshold_eq {e : UInt32} (h : e.toNat ≤ 255) :
    (wmHashcashThreshold e).toNat = (2 * (e.toNat % 64) + 1) * 2 ^ (7 * (e.toNat / 64) + 3) := by
  have hall : ∀ n < 256, (wmHashcashThreshold n.toUInt32).toNat =
      (2 * (n % 64) + 1) * 2 ^ (7 * (n / 64) + 3) := by decide +kernel
  have he := hall e.toNat (by omega)
  have hback : e.toNat.toUInt32 = e := UInt32.ofNat_toNat
  rwa [hback] at he

theorem easyEnough_iff {e : UInt32} (h : e.toNat ≤ 255) (token : List UInt8) (nonce : UInt32) :
    decide (wmHashcashLoadBe32 (H.out (H.ofNonce token nonce)).toList ≤ wmHashcashThreshold e) =
      true ↔ EasyEnough H token e nonce := by
  rw [decide_eq_true_iff, UInt32.le_iff_toNat_le, load_be32_eq _ (by simp), threshold_eq h]
  rfl

variable {token : List UInt8} (hlen : token.length = WM_HASHCASH_TOKEN_BYTES)

include hlen in
theorem attempt_value (hinc : H.Incremental) (stack : Mem) (startTick nonce : UInt32) (s : Poll ρ)
    (ctx : γ) (h : (wmHashcashAttempt H clock progress (wmHashcashBufs token stack) startTick
      nonce s).1 = some ctx) : ctx = H.ofNonce token nonce := by
  obtain ⟨updates, hne, rfl, hflat⟩ :=
    (attempt_spec H progress hlen stack startTick nonce s).1 ctx h
  obtain ⟨a, updates, rfl⟩ := List.exists_cons_of_ne_nil hne
  rw [foldl_update updates hinc, hflat]
  rfl

include hlen in
theorem run_timed_out {e : UInt32} {stack : Mem} {userData : ρ}
    (h : (wmHashcashRun H clock progress token e stack userData).1 = .gaveUp) :
    TimedOut clock (clock 0) (wmHashcashRun H clock progress token e stack userData).2.ticks := by
  obtain ⟨m, s', hnone, hend⟩ := run_gaveUp h
  have hlate := (attempt_spec H progress hlen stack (clock 0) m s').2 hnone
  rw [← hend] at hlate
  exact hlate

variable {e : UInt32} (he : e.toNat ≤ 255) (hinc : H.Incremental)

include hlen he hinc

theorem run_found_easy {stack : Mem} {userData : ρ} {nonce : UInt32}
    (h : (wmHashcashRun H clock progress token e stack userData).1 = .found nonce) :
    EasyEnough H token e nonce ∧ ∀ m < nonce, ¬ EasyEnough H token e m := by
  obtain ⟨-, hhit, hbelow⟩ := run_found (attempt_value hlen hinc stack (clock 0)) h
  refine ⟨(easyEnough_iff he token nonce).mp hhit, fun m hm hgood => ?_⟩
  have hmiss := hbelow m (UInt32.le_iff_toNat_le.mpr (Nat.zero_le _)) hm
  rw [(easyEnough_iff he token m).mpr hgood] at hmiss
  cases hmiss

theorem run_exhausted_hard {stack : Mem} {userData : ρ}
    (h : (wmHashcashRun H clock progress token e stack userData).1 = .exhausted) (nonce : UInt32) :
    ¬ EasyEnough H token e nonce := by
  intro hgood
  have hmiss := run_exhausted (attempt_value hlen hinc stack (clock 0)) h nonce
    (UInt32.le_iff_toNat_le.mpr (Nat.zero_le _))
  rw [(easyEnough_iff he token nonce).mpr hgood] at hmiss
  cases hmiss

omit hinc

variable {text : CString} (hdecode : decode text.bytes = some token)

include hdecode

variable (H clock progress) in
/-- With room for a byte `wm_hashcash_solve` is its search, and the text of what it finds. -/
theorem solve_run {size : UInt32} (hsize : size ≠ 0) (out stack : Mem) (userData : ρ) :
    let run := wmHashcashRun H clock progress token e stack userData
    let o := wmHashcashSolve H clock progress (some text) e (some out) size stack userData
    (∀ nonce, run.1 = .found nonce →
      o.ret = (wmHashcashB64Encode (toBytes 4 nonce.toNat) out size).ret ∧
      o.prefixB64 = some (wmHashcashB64Encode (toBytes 4 nonce.toNat) out size).out) ∧
    ((∀ nonce, run.1 ≠ .found nonce) → o.ret = false ∧ o.prefixB64 = some out) := by
  have hgate : ¬ (size = 0 ∨ e > 255) := by
    rintro (h | h)
    · exact hsize h
    · have : 255 < e.toNat := UInt32.lt_iff_toNat_lt.mp h
      omega
  have hdecoded := hashcash_decode_fits hdecode (Nat.le_of_eq hlen)
  have hfull : ¬ ((token.length : ℤ) ≠ WM_HASHCASH_TOKEN_BYTES) := by
    rw [hlen]
    exact fun h => h rfl
  simp only [wmHashcashSolve, if_neg hgate]
  rw [hdecoded, if_neg hfull]
  cases hrun : wmHashcashRun H clock progress token e stack userData with
  | mk found s =>
    cases found with
    | gaveUp =>
      refine ⟨fun nonce h => ?_, fun _ => ⟨rfl, rfl⟩⟩
      cases h
    | exhausted =>
      refine ⟨fun nonce h => ?_, fun _ => ⟨rfl, rfl⟩⟩
      cases h
    | found nonce =>
      refine ⟨fun m h => ?_, fun h => absurd rfl (h nonce)⟩
      obtain rfl := Outcome.found.inj h
      rw [← store_be32_eq]
      exact ⟨rfl, rfl⟩

variable (H clock progress) in
/-- Where the search finds a nonce, its text is written if the buffer takes 7 bytes. -/
theorem solve_found (size : UInt32) (out stack : Mem) (userData : ρ) :
    let run := wmHashcashRun H clock progress token e stack userData
    let o := wmHashcashSolve H clock progress (some text) e (some out) size stack userData
    (o.ret = true → ∃ nonce, run.1 = .found nonce ∧
      o.prefixB64 = some (store out 0 (urlText (toBytes 4 nonce.toNat) ++ [0]))) ∧
    (o.ret = false → (∀ nonce, run.1 ≠ .found nonce) ∨ size.toNat < 7) := by
  have htext : ∀ nonce : UInt32, (urlText (toBytes 4 nonce.toNat)).length = 6 := by
    intro nonce
    obtain ⟨r, hr, hlen, -⟩ := value_sextets (toBytes 4 nonce.toNat)
    rw [length_toBytes] at hlen
    rw [urlText, List.length_map]
    omega
  by_cases hsize : size = 0
  · refine ⟨fun h => ?_, fun _ => .inr (by rw [hsize]; decide)⟩
    simp only [wmHashcashSolve, hsize, true_or, if_true] at h
    cases h
  obtain ⟨hfound, hlost⟩ := solve_run H clock progress hlen he hdecode hsize out stack userData
  by_cases hends : ∃ nonce, (wmHashcashRun H clock progress token e stack userData).1 = .found nonce
  · obtain ⟨nonce, hn⟩ := hends
    obtain ⟨hret, hstored⟩ := hfound nonce hn
    obtain ⟨hfits, hfails⟩ := hashcash_b64_encode (toBytes 4 nonce.toNat) out size
    rw [htext, Nat.zero_add] at hfits hfails
    refine ⟨fun h => ⟨nonce, hn, ?_⟩, fun h => .inr ?_⟩
    · rw [hstored, hfits]
      by_contra hshort
      rw [hret, hfails (by omega)] at h
      cases h
    · by_contra hlong
      rw [hret, hfits (by omega)] at h
      cases h
  · rw [not_exists] at hends
    refine ⟨fun h => ?_, fun _ => .inl hends⟩
    rw [(hlost hends).1] at h
    cases h

include hinc

/-- Two searches that do not time out end alike, whatever the clock and the callback. -/
theorem solve_agree {ρ' : Type} {clock' : ℕ → UInt32} {progress' : Progress ρ'} (size : UInt32)
    (out stack stack' : Mem) (userData : ρ) (userData' : ρ')
    (h : (wmHashcashRun H clock progress token e stack userData).1 ≠ .gaveUp)
    (h' : (wmHashcashRun H clock' progress' token e stack' userData').1 ≠ .gaveUp) :
    let o := wmHashcashSolve H clock progress (some text) e (some out) size stack userData
    let o' := wmHashcashSolve H clock' progress' (some text) e (some out) size stack' userData'
    o.ret = o'.ret ∧ o.prefixB64 = o'.prefixB64 := by
  by_cases hsize : size = 0
  · simp only [wmHashcashSolve, hsize, true_or, if_true, and_self]
  have hagree : (wmHashcashRun H clock progress token e stack userData).1 =
      (wmHashcashRun H clock' progress' token e stack' userData').1 :=
    run_agree (attempt_value hlen hinc stack (clock 0)) (attempt_value hlen hinc stack' (clock' 0))
      0 _ _ h h'
  obtain ⟨hfound, hlost⟩ := solve_run H clock progress hlen he hdecode hsize out stack userData
  obtain ⟨hfound', hlost'⟩ :=
    solve_run H clock' progress' hlen he hdecode hsize out stack' userData'
  rw [← hagree] at hfound' hlost'
  by_cases hends : ∃ nonce, (wmHashcashRun H clock progress token e stack userData).1 = .found nonce
  · obtain ⟨nonce, hn⟩ := hends
    obtain ⟨hret, hstored⟩ := hfound nonce hn
    obtain ⟨hret', hstored'⟩ := hfound' nonce hn
    exact ⟨hret.trans hret'.symm, hstored.trans hstored'.symm⟩
  · rw [not_exists] at hends
    obtain ⟨hret, hstored⟩ := hlost hends
    obtain ⟨hret', hstored'⟩ := hlost' hends
    exact ⟨hret.trans hret'.symm, hstored.trans hstored'.symm⟩

omit hlen he hdecode hinc

/-- `wm_hashcash_solve` hashes each nonce in front of 262144 copies of the token, and
finds the least one whose digest is easy enough; only a time-out or a short buffer can
keep it from that. -/
theorem hashcash_exact (hinc : H.Incremental) (hdecode : decode text.bytes = some token)
    (hlen : token.length = WM_HASHCASH_TOKEN_BYTES) (he : e.toNat ≤ 255) (clock : ℕ → UInt32)
    (progress : Progress ρ) (out : Mem) (size : UInt32) (stack : Mem) (userData : ρ) :
    let run := wmHashcashRun H clock progress token e stack userData
    let o := wmHashcashSolve H clock progress (some text) e (some out) size stack userData
    (∀ nonce s ctx, (wmHashcashAttempt H clock progress (wmHashcashBufs token stack) (clock 0)
        nonce s).1 = some ctx →
      ∃ updates : List (List UInt8), ctx = updates.foldl H.update H.init ∧
        updates.flatten = toBytes 4 nonce.toNat ++ (List.replicate 262144 token).flatten) ∧
    (o.ret = true → ∃ nonce, EasyEnough H token e nonce ∧ (∀ m < nonce, ¬ EasyEnough H token e m) ∧
      o.prefixB64 = some (store out 0 (urlText (toBytes 4 nonce.toNat) ++ [0]))) ∧
    (o.ret = false → run.1 = .gaveUp ∨ (∀ nonce, ¬ EasyEnough H token e nonce) ∨ size.toNat < 7) ∧
    (run.1 = .gaveUp → TimedOut clock (clock 0) run.2.ticks) ∧
    ∀ (ρ' : Type) clock' (progress' : Progress ρ') stack' userData',
      let run' := wmHashcashRun H clock' progress' token e stack' userData'
      let o' := wmHashcashSolve H clock' progress' (some text) e (some out) size stack' userData'
      run.1 ≠ .gaveUp → run'.1 ≠ .gaveUp → o.ret = o'.ret ∧ o.prefixB64 = o'.prefixB64 := by
  intro run o
  obtain ⟨hone, hzero⟩ := solve_found H clock progress hlen he hdecode size out stack userData
  refine ⟨fun nonce s ctx h => ?_, fun hret => ?_, fun hret => ?_, run_timed_out hlen, ?_⟩
  · obtain ⟨updates, -, hctx, hflat⟩ :=
      (attempt_spec H progress hlen stack (clock 0) nonce s).1 ctx h
    exact ⟨updates, hctx, hflat⟩
  · obtain ⟨nonce, hn, hstored⟩ := hone hret
    obtain ⟨heasy, hleast⟩ := run_found_easy hlen he hinc hn
    exact ⟨nonce, heasy, hleast, hstored⟩
  · rcases hzero hret with hends | hshort
    · cases hr : run.1 with
      | gaveUp => exact .inl rfl
      | found nonce => exact absurd hr (hends nonce)
      | exhausted => exact .inr (.inl (run_exhausted_hard hlen he hinc hr))
    · exact .inr (.inr hshort)
  · intro ρ' clock' progress' stack' userData' run' o' hrun hrun'
    exact solve_agree hlen he hinc hdecode size out stack stack' userData userData' hrun hrun'

/-- A token of zero bytes. -/
def zeroToken : CString := ⟨List.replicate 64 65, by decide, by decide⟩

/-- With a clock that stands still the search for it succeeds if it can. -/
theorem hashcash_exact_zeros :
    let H := bearSha256 (fun _ => 7) ⟨fun _ => 9, 5, .ofList brSha224IV⟩
    (wmHashcashSolve H (fun _ => 0) (none : Progress Unit) (some zeroToken) 255 (some fun _ => 0) 7
      (fun _ => 0) ()).ret = true ↔ ∃ nonce, EasyEnough H (List.replicate 48 0) 255 nonce := by
  intro H
  have hinc : H.Incremental := bearSha256_incremental _ _
  have hdecode : decode zeroToken.bytes = some (List.replicate 48 0) := by decide +kernel
  obtain ⟨-, hfound, hlost, htime, -⟩ := hashcash_exact (e := 255) hinc hdecode rfl (by decide)
    (fun _ => 0) (none : Progress Unit) (fun _ => 0) 7 (fun _ => 0) ()
  constructor
  · intro hret
    obtain ⟨nonce, heasy, -⟩ := hfound hret
    exact ⟨nonce, heasy⟩
  · rintro ⟨nonce, heasy⟩
    by_contra hret
    rw [Bool.not_eq_true] at hret
    rcases hlost hret with hgave | hnone | hshort
    · obtain ⟨k, -, hlate⟩ := htime hgave
      have hstill : WM_HASHCASH_TIMEOUT_MS ≤ 0 - 0 := hlate
      exact absurd hstill (by decide)
    · exact hnone nonce heasy
    · exact absurd hshort (by decide)

end Solve

end BearTLS
