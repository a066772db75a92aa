import BearTLS.Proofs.Sha2Tables
import BearTLS.Spec.Hash
import Mathlib.Tactic.Ring

/-! The hash functions of `sha2small.c` and `sha2big.c` compute SHA-2, however a message
is split into updates. -/

namespace BearTLS

open Fips180 MerkleDamgard Memory Radix

section Encoding

variable {w : ℕ}

theorem shift_or_byte (hw : 8 ≤ w) (x : BitVec w) (b : UInt8) :
    ((x <<< 8) ||| b.toBitVec.setWidth w).toNat = (x.toNat * 256 + b.toNat) % 2 ^ w := by
  have hb := b.toNat_lt
  have hpow : 2 ^ w = 2 ^ (w - 8) * 256 := by
    rw [show (256 : ℕ) = 2 ^ 8 from rfl, ← Nat.pow_add, Nat.sub_add_cancel hw]
  have hpos : 0 < 2 ^ (w - 8) := Nat.pow_pos (by decide)
  have hbyte : (b.toBitVec.setWidth w).toNat = b.toNat := by
    rw [BitVec.toNat_setWidth, hpow]
    refine Nat.mod_eq_of_lt ?_
    show b.toNat < _
    omega
  have hhigh : (x.toNat * 2 ^ 8) % 2 ^ w = (x.toNat % 2 ^ (w - 8)) * 2 ^ 8 := by
    rw [hpow]
    exact Nat.mul_mod_mul_right _ _ _
  rw [BitVec.toNat_or, hbyte, BitVec.toNat_shiftLeft, Nat.shiftLeft_eq, hhigh, ← Nat.shiftLeft_eq,
    ← Nat.shiftLeft_add_eq_or_of_lt hb, Nat.shiftLeft_eq]
  have hdiv := Nat.div_add_mod x.toNat (2 ^ (w - 8))
  have hmod := Nat.mod_lt x.toNat hpos
  generalize x.toNat / 2 ^ (w - 8) = q at hdiv
  generalize x.toNat % 2 ^ (w - 8) = r at hdiv hmod
  have hsum : x.toNat * 256 + b.toNat = r * 256 + b.toNat + 2 ^ w * q := by
    rw [hpow, ← hdiv]
    ring
  rw [hsum, Nat.add_mul_mod_self_left, Nat.mod_eq_of_lt]
  rw [hpow]
  omega

theorem dec_be_eq (hw : 8 ≤ w) (bs : List UInt8) :
    brDecBe w bs = BitVec.ofNat w (ofBytes bs) := by
  induction bs using List.reverseRecOn with
  | nil => rfl
  | append_singleton bs b ih =>
    apply BitVec.eq_of_toNat_eq
    have hstep : brDecBe w (bs ++ [b]) = (brDecBe w bs <<< 8) ||| b.toBitVec.setWidth w := by
      rw [brDecBe, List.foldl_append]
      rfl
    rw [hstep, shift_or_byte hw, ih, ofBytes_snoc, BitVec.toNat_ofNat, BitVec.toNat_ofNat,
      Nat.add_mod, Nat.mul_mod, Nat.mod_mod, ← Nat.mul_mod, ← Nat.add_mod]

theorem enc_be_eq {k : ℕ} (hw : w = 8 * k) (x : BitVec w) : brEncBe x = toBytes k x.toNat := by
  subst hw
  rw [toBytes_eq_map, brEncBe, Nat.mul_div_cancel_left k (by decide)]
  refine List.map_congr_left fun i hi => ?_
  have hexp : 8 * k - 8 * (i + 1) = 8 * (k - (i + 1)) := by omega
  rw [hexp]
  apply UInt8.toNat_inj.mp
  show ((x >>> (8 * (k - (i + 1)))).setWidth 8).toNat = _ % 256 % 256
  rw [BitVec.toNat_setWidth, BitVec.toNat_ushiftRight, Nat.shiftRight_eq_div_pow, Nat.pow_mul,
    Nat.mod_mod]

theorem length_enc_be (x : BitVec w) : (brEncBe x).length = w / 8 := by
  rw [brEncBe, List.length_map, List.length_range]

theorem dec_enc_be {k : ℕ} (hk : 0 < k) (hw : w = 8 * k) (x : BitVec w) :
    brDecBe w (brEncBe x) = x := by
  apply BitVec.eq_of_toNat_eq
  have hpow : 256 ^ k = 2 ^ w := by rw [hw, Nat.pow_mul]
  rw [dec_be_eq (by omega), enc_be_eq hw, BitVec.toNat_ofNat, ofBytes_toBytes, hpow, Nat.mod_mod,
    Nat.mod_eq_of_lt x.isLt]

theorem take_drop_flatMap {α β : Type} {f : α → List β} {k : ℕ} (hf : ∀ x, (f x).length = k)
    (l : List α) {i : ℕ} (hi : i < l.length) : ((l.flatMap f).drop (k * i)).take k = f l[i] := by
  induction l generalizing i with
  | nil => exact absurd hi (Nat.not_lt_zero i)
  | cons x l ih =>
    rw [List.flatMap_cons]
    cases i with
    | zero => rw [Nat.mul_zero, List.drop_zero, List.take_left' (hf x), List.getElem_cons_zero]
    | succ i =>
      rw [Nat.mul_succ, Nat.add_comm, ← List.drop_drop, List.drop_left' (hf x),
        List.getElem_cons_succ]
      exact ih (Nat.lt_of_succ_lt_succ hi)

/-- An array of words comes back from its bytes. -/
theorem range_dec_enc {k : ℕ} (hk : 0 < k) (hw : w = 8 * k) (l : List (BitVec w)) :
    brRangeDecBe w l.length (brRangeEncBe l) = l := by
  apply List.ext_getElem
  · rw [brRangeDecBe, List.length_map, List.length_range]
  · intro i h₁ h₂
    simp only [brRangeDecBe, List.getElem_map, List.getElem_range, brRangeEncBe,
      take_drop_flatMap length_enc_be l h₂, dec_enc_be hk hw]

end Encoding

section Rounds

variable {w : ℕ}

theorem ch_eq (x y z : BitVec w) : CH x y z = ch x y z := by
  ext i hi
  simp only [CH, ch, BitVec.getElem_xor, BitVec.getElem_and, BitVec.getElem_not]
  cases x[i] <;> cases y[i] <;> cases z[i] <;> rfl

theorem maj_eq (x y z : BitVec w) : MAJ x y z = maj x y z := by
  ext i hi
  simp only [MAJ, maj, BitVec.getElem_xor, BitVec.getElem_and, BitVec.getElem_or]
  cases x[i] <;> cases y[i] <;> cases z[i] <;> rfl

theorem rotr_eq (x : BitVec w) {n : ℕ} (hn : n < w) : ROTR x n = x.rotateRight n := by
  rw [ROTR, BitVec.rotateRight_def, Nat.mod_eq_of_lt hn, BitVec.or_comm]

/-- The words as a hash value of the standard. -/
def Sha2Words.state (v : Sha2Words w) : State w := ⟨v.a, v.b, v.c, v.d, v.e, v.f, v.g, v.h⟩

/-- The parameters of a file are those that the standard gives. -/
structure Sha2.Follows (P : Sha2 w) (V : Variant) : Prop where
  wide : 8 ≤ w
  bytes : w = 8 * (w / 8)
  enough : 16 ≤ V.rounds
  eights : V.rounds = 8 * (V.rounds / 8)
  rounds : P.rounds = V.rounds
  k : ∀ i < V.rounds, P.k.getD i 0 = cubeRootBits w i
  bsg0 : ∀ x, P.bsg0 x = bigSigma x V.big0
  bsg1 : ∀ x, P.bsg1 x = bigSigma x V.big1
  ssg0 : ∀ x, P.ssg0 x = smallSigma x V.small0
  ssg1 : ∀ x, P.ssg1 x = smallSigma x V.small1
  blen : P.blen = 2 * w
  counts : P.blen ∣ 2 ^ 64
  lenAt : P.lenAt = 2 * w - w / 4

variable {P : Sha2 w} {V : Variant}

theorem range_dec_getD (hw : 8 ≤ w) (buf : List UInt8) {t : ℕ} (ht : t < 16) :
    (brRangeDecBe w 16 buf).getD t 0 = word w buf t := by
  rw [brRangeDecBe, List.getD_eq_getElem?_getD, List.getElem?_map, List.getElem?_range ht]
  exact dec_be_eq hw _

/-- What the loop that fills the array appends. -/
theorem expand_spec (hP : P.Follows V) (buf : List UInt8) (n : ℕ) :
    let ws := (List.range' 16 n).foldl P.expandStep (brRangeDecBe w 16 buf)
    ws.length = 16 + n ∧ ∀ t < 16 + n, ws.getD t 0 = schedule V (word w buf) t := by
  induction n with
  | zero =>
    refine ⟨by simp [brRangeDecBe], fun t ht => ?_⟩
    rw [schedule_lt ht]
    exact range_dec_getD hP.wide buf ht
  | succ n ih =>
    obtain ⟨hlen, hvals⟩ := ih
    rw [List.range'_1_concat, List.foldl_append]
    generalize (List.range' 16 n).foldl P.expandStep (brRangeDecBe w 16 buf) = ws at hlen hvals ⊢
    rw [List.foldl_cons, List.foldl_nil, Sha2.expandStep]
    refine ⟨by rw [List.length_append, hlen, List.length_singleton, Nat.add_assoc], fun t ht => ?_⟩
    rcases Nat.lt_or_ge t (16 + n) with hlt | hge
    · rw [List.getD_append _ _ _ _ (by omega)]
      exact hvals t hlt
    · obtain rfl : t = 16 + n := by omega
      rw [List.getD_append_right _ _ _ _ (by omega), hlen, Nat.sub_self, List.getD_cons_zero,
        schedule_ge (by omega), hP.ssg0, hP.ssg1, hvals _ (by omega), hvals _ (by omega),
        hvals _ (by omega), hvals _ (by omega)]

theorem expand_getD (hP : P.Follows V) (buf : List UInt8) {t : ℕ} (ht : t < V.rounds) :
    (P.expand (brRangeDecBe w 16 buf)).getD t 0 = schedule V (word w buf) t := by
  have henough := hP.enough
  rw [Sha2.expand, hP.rounds]
  exact (expand_spec hP buf (V.rounds - 16)).2 t (by omega)

theorem step_turn (hP : P.Follows V) (buf : List UInt8) (a b c d e f g h : BitVec w) {j : ℕ}
    (hj : j < V.rounds) :
    turn V (schedule V (word w buf)) ⟨a, b, c, d, e, f, g, h⟩ j =
      ⟨(P.step (P.expand (brRangeDecBe w 16 buf)) a b c d e f g h j).2, a, b, c,
        (P.step (P.expand (brRangeDecBe w 16 buf)) a b c d e f g h j).1, e, f, g⟩ := by
  simp only [turn, Sha2.step, expand_getD hP buf hj, hP.k j hj, hP.bsg0, hP.bsg1, ch_eq, maj_eq]

theorem eightSteps_turns (hP : P.Follows V) (buf : List UInt8) (v : Sha2Words w) {i : ℕ}
    (hi : i + 8 ≤ V.rounds) :
    (P.eightSteps (P.expand (brRangeDecBe w 16 buf)) v i).state =
      (List.range' i 8).foldl (turn V (schedule V (word w buf))) v.state := by
  have hturn : ∀ k < 8, ∀ (a b c d e f g h : BitVec w) (js : List ℕ),
      ((i + k) :: js).foldl (turn V (schedule V (word w buf))) ⟨a, b, c, d, e, f, g, h⟩ =
        js.foldl (turn V (schedule V (word w buf)))
          ⟨(P.step (P.expand (brRangeDecBe w 16 buf)) a b c d e f g h (i + k)).2, a, b, c,
            (P.step (P.expand (brRangeDecBe w 16 buf)) a b c d e f g h (i + k)).1, e, f, g⟩ := by
    intro k hk a b c d e f g h js
    rw [List.foldl_cons, step_turn hP buf a b c d e f g h (by omega)]
  have hrange : List.range' i 8 = [i + 0, i + 1, i + 2, i + 3, i + 4, i + 5, i + 6, i + 7] := rfl
  obtain ⟨a, b, c, d, e, f, g, h⟩ := v
  unfold Sha2.eightSteps
  generalize P.expand (brRangeDecBe w 16 buf) = ws at hturn ⊢
  generalize P.step ws = F at hturn ⊢
  rw [hrange, Sha2Words.state, hturn 0 (by decide)]
  rcases F a b c d e f g h (i + 0) with ⟨d, h⟩
  rw [hturn 1 (by decide)]
  rcases F h a b c d e f g (i + 1) with ⟨c, g⟩
  rw [hturn 2 (by decide)]
  rcases F g h a b c d e f (i + 2) with ⟨b, f⟩
  rw [hturn 3 (by decide)]
  rcases F f g h a b c d e (i + 3) with ⟨a, e⟩
  rw [hturn 4 (by decide)]
  rcases F e f g h a b c d (i + 4) with ⟨h, d⟩
  rw [hturn 5 (by decide)]
  rcases F d e f g h a b c (i + 5) with ⟨g, c⟩
  rw [hturn 6 (by decide)]
  rcases F c d e f g h a b (i + 6) with ⟨f, b⟩
  rw [hturn 7 (by decide)]
  rfl

/-- Eight steps at a time, all of the steps. -/
theorem foldl_range_eights {σ : Type} (f : σ → ℕ → σ) (s : σ) (n : ℕ) :
    (List.range (8 * n)).foldl f s =
      (List.range n).foldl (fun s i => (List.range' (8 * i) 8).foldl f s) s := by
  induction n with
  | zero => rfl
  | succ n ih =>
    have hsplit : List.range (8 * (n + 1)) = List.range (8 * n) ++ List.range' (8 * n) 8 := by
      rw [List.range_eq_range', List.range_eq_range', Nat.mul_succ, ← List.range'_append_1,
        Nat.zero_add]
    rw [hsplit, List.foldl_append, ih, List.range_succ, List.foldl_append]
    rfl

theorem rounds_turns (hP : P.Follows V) (buf : List UInt8) (v : Sha2Words w) (n : ℕ)
    (hn : 8 * n ≤ V.rounds) :
    ((List.range n).foldl
        (fun v i => P.eightSteps (P.expand (brRangeDecBe w 16 buf)) v (8 * i)) v).state =
      (List.range n).foldl
        (fun s i => (List.range' (8 * i) 8).foldl (turn V (schedule V (word w buf))) s) v.state := by
  induction n with
  | zero => rfl
  | succ n ih =>
    rw [List.range_succ, List.foldl_append, List.foldl_append, ← ih (by omega), List.foldl_cons,
      List.foldl_nil, List.foldl_cons, List.foldl_nil, eightSteps_turns hP buf _ (by omega)]

/-- `br_sha2small_round` and `sha2big_round` are the compression function. -/
theorem round_eq (hP : P.Follows V) (buf : List UInt8) (v : Sha2Words w) :
    (P.round buf v).state = compress V v.state buf := by
  have hsteps := rounds_turns hP buf v (V.rounds / 8) (Nat.le_of_eq hP.eights.symm)
  rw [← foldl_range_eights, ← hP.eights] at hsteps
  rw [compress, ← hsteps, Sha2.round, hP.rounds]
  rfl

end Rounds

section Blocks

variable {w : ℕ} {P : Sha2 w} {V : Variant} {buf : Mem} {val : Sha2Words w} {c : Chain (State w)}

theorem Sha2.Follows.wide_block (hP : P.Follows V) : 16 ≤ P.blen := by
  have := hP.wide
  rw [hP.blen]
  omega

/-- The buffer and the words stand for a chain. -/
structure Buffered (P : Sha2 w) (buf : Mem) (val : Sha2Words w) (c : Chain (State w)) :
    Prop where
  val : val.state = c.val
  tail : load buf 0 c.tail.length = c.tail
  room : c.tail.length < P.blen

/-- Bytes behind the ones in the buffer. -/
theorem Buffered.stored (h : Buffered P buf val c) (bs : List UInt8) :
    load (store buf c.tail.length bs) 0 (c.tail.length + bs.length) = c.tail ++ bs := by
  rw [load_store_append, h.tail]

theorem Buffered.append (h : Buffered P buf val c) {bs : List UInt8}
    (hroom : c.tail.length + bs.length < P.blen) :
    Buffered P (store buf c.tail.length bs) val (absorb P.blen (compress V) c bs) := by
  rw [absorb_short hroom]
  refine ⟨h.val, ?_, ?_⟩
  · show load _ 0 (c.tail ++ bs).length = _
    rw [List.length_append]
    exact h.stored bs
  · show (c.tail ++ bs).length < _
    rwa [List.length_append]

/-- Bytes that fill the buffer, which is then empty again. -/
theorem Buffered.fill (hP : P.Follows V) (h : Buffered P buf val c) {bs : List UInt8}
    (hne : bs ≠ []) (hfull : c.tail.length + bs.length = P.blen) (buf' : Mem) :
    Buffered P buf' (P.round (load (store buf c.tail.length bs) 0 P.blen) val)
      (absorb P.blen (compress V) c bs) := by
  have hwide := hP.wide_block
  rw [absorb_block hne hfull, ← hfull, h.stored bs]
  refine ⟨?_, rfl, ?_⟩
  · rw [round_eq hP, h.val]
  · show 0 < P.blen
    omega

theorem updateLoop_buffered (hP : P.Follows V) (data : List UInt8) (h : Buffered P buf val c) :
    Buffered P (P.updateLoop buf val c.tail.length data).1
      (P.updateLoop buf val c.tail.length data).2 (absorb P.blen (compress V) c data) := by
  induction hlen : data.length using Nat.strong_induction_on generalizing buf val c data with
  | _ len ih =>
  have hroom := h.room
  by_cases hne : data = []
  · subst hne
    rw [Sha2.updateLoop, dif_neg (fun hc => hc.1 rfl)]
    exact h
  have hpos := List.length_pos_of_ne_nil hne
  rw [Sha2.updateLoop, dif_pos ⟨hne, hroom⟩]
  rcases Nat.lt_or_ge data.length (P.blen - c.tail.length) with hshort | hlong
  · have happ : Buffered P (store buf c.tail.length data) val (absorb P.blen (compress V) c data) :=
      h.append (by omega)
    simp only [if_pos hshort, List.take_length, List.drop_length,
      if_neg (show ¬ c.tail.length + data.length = P.blen by omega)]
    rw [Sha2.updateLoop, dif_neg (fun hc => hc.1 rfl)]
    exact happ
  · have htake : (data.take (P.blen - c.tail.length)).length = P.blen - c.tail.length :=
      List.length_take_of_le hlong
    have hfill := h.fill hP (List.ne_nil_of_length_pos (by omega))
      (show c.tail.length + (data.take (P.blen - c.tail.length)).length = P.blen by omega)
      (store buf c.tail.length (data.take (P.blen - c.tail.length)))
    have hempty : (absorb P.blen (compress V) c
        (data.take (P.blen - c.tail.length))).tail.length = 0 := by
      rw [absorb_block (List.ne_nil_of_length_pos (by omega)) (by omega)]
      rfl
    have hrest := ih _ (by rw [List.length_drop]; omega)
      (data.drop (P.blen - c.tail.length)) hfill rfl
    rw [hempty, ← absorb_append, List.take_append_drop] at hrest
    simpa only [if_neg (show ¬ P.blen - c.tail.length > data.length by omega),
      if_pos (show c.tail.length + (P.blen - c.tail.length) = P.blen by omega)] using hrest

end Blocks

section Streams

variable {w : ℕ} {P : Sha2 w} {V : Variant} {iv : State w} {cc : Sha2Context w} {m : List UInt8}

/-- The context behind the bytes `m`. -/
structure Sha2.Holds (P : Sha2 w) (V : Variant) (iv : State w) (cc : Sha2Context w)
    (m : List UInt8) : Prop where
  count : cc.count = m.length.toUInt64
  buffered : Buffered P cc.buf cc.val (absorb P.blen (compress V) ⟨iv, []⟩ m)

theorem tail_length (hP : P.Follows V) (iv : State w) (m : List UInt8) :
    (absorb P.blen (compress V) ⟨iv, []⟩ m).tail.length = m.length % P.blen := by
  have hwide := hP.wide_block
  have hlen : (absorb P.blen (compress V) ⟨iv, []⟩ m).tail.length = (0 + m.length) % P.blen :=
    length_tail (by omega) (show 0 < P.blen by omega) m
  rwa [Nat.zero_add] at hlen

/-- Where the code takes the buffer to end. -/
theorem Sha2.Holds.ptr (hP : P.Follows V) (h : P.Holds V iv cc m) :
    cc.count.toNat % P.blen = (absorb P.blen (compress V) ⟨iv, []⟩ m).tail.length := by
  rw [tail_length hP, h.count]
  exact Nat.mod_mod_of_dvd _ hP.counts

theorem init_holds (hP : P.Follows V) (l : List (BitVec w)) (cc : Sha2Context w) :
    P.Holds V (initial fun i => l.getD i 0) (Sha2.init l cc) [] := by
  have hwide := hP.wide_block
  exact ⟨rfl, rfl, rfl, show 0 < P.blen by omega⟩

theorem update_holds (hP : P.Follows V) (h : P.Holds V iv cc m) (data : List UInt8) :
    P.Holds V iv (P.update cc data) (m ++ data) := by
  refine ⟨?_, ?_⟩
  · show cc.count + data.length.toUInt64 = _
    rw [h.count, List.length_append]
    exact (UInt64.ofNat_add _ _).symm
  · rw [absorb_append]
    have hloop := updateLoop_buffered hP data h.buffered
    rwa [← h.ptr hP] at hloop

/-- A context put together from the state of another one, at the end of a block. -/
theorem setState_holds (hP : P.Follows V) (h : P.Holds V iv cc m) (hwhole : m.length % P.blen = 0)
    (cc' : Sha2Context w) :
    P.Holds V iv (Sha2.setState cc' (Sha2.state cc).1 (Sha2.state cc).2) m := by
  have hwide := hP.wide
  have htail := tail_length hP iv m
  rw [hwhole] at htail
  have hwords : Sha2Words.ofList (brRangeDecBe w 8 (Sha2.state cc).1) = cc.val := by
    have hround := range_dec_enc (by omega) hP.bytes cc.val.toList
    exact congrArg Sha2Words.ofList hround
  refine ⟨h.count, ?_, ?_, h.buffered.room⟩
  · exact (congrArg Sha2Words.state hwords).trans h.buffered.val
  · rw [htail]
    exact (List.eq_nil_of_length_eq_zero htail).symm

section Padding

variable {n lenBytes len : ℕ}

/-- The length stands in the same block. -/
theorem padding_one (h : len % n + 1 + lenBytes ≤ n) : padding n lenBytes len =
    0x80 :: List.replicate (n - lenBytes - (len % n + 1)) 0 ++ toBytes lenBytes (8 * len) := by
  have hz : zeros n lenBytes len = n - lenBytes - (len % n + 1) := by
    rw [zeros, show 2 * n - 1 - lenBytes - len % n = n - lenBytes - (len % n + 1) + n by omega,
      Nat.add_mod_right, Nat.mod_eq_of_lt (by omega)]
  rw [padding, hz]

/-- It stands in the next one. -/
theorem padding_two (hlt : len % n < n) (hL : lenBytes ≤ n) (h : n < len % n + 1 + lenBytes) :
    padding n lenBytes len = 0x80 :: List.replicate (n - (len % n + 1)) 0 ++
      (List.replicate (n - lenBytes) 0 ++ toBytes lenBytes (8 * len)) := by
  have hz : zeros n lenBytes len = (n - (len % n + 1)) + (n - lenBytes) := by
    rw [zeros, Nat.mod_eq_of_lt (by omega)]
    omega
  rw [padding, hz, List.replicate_add]
  simp only [List.append_assoc, List.cons_append]

end Padding

theorem absorb_full {n : ℕ} (V : Variant) {c : Chain (State w)} {bs : List UInt8} (hne : bs ≠ [])
    (h : c.tail.length + bs.length = n) : (absorb n (compress V) c bs).tail.length = 0 := by
  rw [absorb_block hne h]
  rfl

/-- The last block with the length in it. -/
theorem last_block (hP : P.Follows V) {buf : Mem} {val : Sha2Words w} {c : Chain (State w)}
    (h : Buffered P buf val c) (bs enc : List UInt8) (hbs : c.tail.length + bs.length = P.lenAt)
    (henc : enc.length = w / 4) :
    (P.round (load (store (store buf c.tail.length bs) P.lenAt enc) 0 P.blen) val).state =
      (absorb P.blen (compress V) c (bs ++ enc)).val := by
  have hwide := hP.wide
  have hblen := hP.blen
  have hlenAt := hP.lenAt
  have hne : bs ++ enc ≠ [] := by
    apply List.ne_nil_of_length_pos
    rw [List.length_append]
    omega
  have hfull : c.tail.length + (bs ++ enc).length = P.blen := by
    rw [List.length_append]
    omega
  rw [← hbs, store_append]
  exact (h.fill hP hne hfull buf).val

/-- What `out` puts out is the end of the padded message, whatever the local array held. -/
theorem out_words (hP : P.Follows V) {c : Chain (State w)} (h : Buffered P cc.buf cc.val c)
    {len : ℕ} (hptr : cc.count.toNat % P.blen = c.tail.length)
    (htail : c.tail.length = len % P.blen)
    (hlen : P.encLen cc.count = toBytes (w / 4) (8 * len)) (stack : Mem) (num : ℕ) :
    P.out stack cc num = brRangeEncBe
      ((absorb P.blen (compress V) c (padding P.blen (w / 4) len)).val.words.take num) := by
  have hwide := hP.wide_block
  have hblen := hP.blen
  have hlenAt := hP.lenAt
  have hroom := h.room
  have hcopy : Buffered P (store stack 0 (load cc.buf 0 c.tail.length)) cc.val c := by
    refine ⟨h.val, ?_, h.room⟩
    have hload := load_store_same stack 0 (load cc.buf 0 c.tail.length)
    rw [length_load, h.tail] at hload
    rwa [h.tail]
  have hbit : ∀ (buf : Mem) (bs : List UInt8),
      store (store buf c.tail.length [0x80]) (c.tail.length + 1) bs =
        store buf c.tail.length (0x80 :: bs) := fun buf bs => store_append buf _ [0x80] bs
  have hlast : ∀ val : Sha2Words w,
      val.state = (absorb P.blen (compress V) c (padding P.blen (w / 4) len)).val →
      brRangeEncBe (val.toList.take num) = brRangeEncBe
        ((absorb P.blen (compress V) c (padding P.blen (w / 4) len)).val.words.take num) :=
    fun val hval => congrArg (fun s => brRangeEncBe (s.words.take num)) hval
  unfold Sha2.out
  rw [hptr, hlen]
  dsimp only
  generalize store stack 0 (load cc.buf 0 c.tail.length) = buf at hcopy ⊢
  by_cases hnext : c.tail.length + 1 > P.lenAt
  · -- The length needs one more block.
    rw [if_pos hnext, hbit]
    refine hlast _ ?_
    rw [padding_two (by omega) (by omega) (by omega), absorb_append, ← htail]
    have hfirst : c.tail.length +
        (0x80 :: List.replicate (P.blen - (c.tail.length + 1)) (0 : UInt8)).length = P.blen := by
      rw [List.length_cons, List.length_replicate]
      omega
    have hfill := hcopy.fill hP (List.cons_ne_nil _ _) hfirst
      (store buf c.tail.length (0x80 :: List.replicate (P.blen - (c.tail.length + 1)) 0))
    have hempty := absorb_full V (List.cons_ne_nil _ _) hfirst
    have hend := last_block hP hfill (List.replicate P.lenAt 0) (toBytes (w / 4) (8 * len))
      (by rw [hempty, List.length_replicate, Nat.zero_add]) length_toBytes
    rw [hempty] at hend
    rwa [show P.blen - w / 4 = P.lenAt by omega]
  · rw [if_neg hnext, hbit]
    refine hlast _ ?_
    rw [padding_one (by omega), ← htail, show P.blen - w / 4 = P.lenAt by omega]
    refine last_block hP hcopy _ _ ?_ length_toBytes
    rw [List.length_cons, List.length_replicate]
    omega

/-- A context that holds a message puts out its digest. -/
theorem out_digest (hP : P.Follows V) {l : ℕ → BitVec w} (h : P.Holds V (initial l) cc m)
    (hlen : P.encLen cc.count = toBytes (w / 4) (8 * m.length)) (stack : Mem) (num : ℕ) :
    P.out stack cc num = digest V l num m := by
  have hwords := out_words hP h.buffered (h.ptr hP) (tail_length hP _ m) hlen stack num
  have henc : ∀ x : BitVec w, brEncBe x = toBytes (w / 8) x.toNat := enc_be_eq hP.bytes
  rw [hwords, ← absorb_append, digest, MerkleDamgard.hash, hP.blen, brRangeEncBe]
  exact List.flatMap_congr fun x _ => henc x

end Streams

section Files

theorem enc64be_eq (x : UInt64) : brEnc64be x = toBytes 8 x.toNat := by
  rw [toBytes_eq_map]
  have hbyte : ∀ (y : UInt64) (n : ℕ), y.toNat = x.toNat / n →
      y.toUInt8 = (x.toNat / n % 256).toUInt8 := by
    intro y n hy
    apply UInt8.toNat_inj.mp
    show y.toNat % 256 = _ % 256 % 256
    rw [hy, Nat.mod_mod]
  have hshift : ∀ k : ℕ, k < 8 → (x >>> (8 * k).toUInt64).toNat = x.toNat / 256 ^ k := by
    intro k hk
    have hmod : (8 * k).toUInt64.toNat % 64 = 8 * k := by
      show 8 * k % 2 ^ 64 % 64 = 8 * k
      omega
    rw [UInt64.toNat_shiftRight, hmod, Nat.shiftRight_eq_div_pow, Nat.pow_mul]
  have h7 := hbyte _ _ (hshift 7 (by decide))
  have h6 := hbyte _ _ (hshift 6 (by decide))
  have h5 := hbyte _ _ (hshift 5 (by decide))
  have h4 := hbyte _ _ (hshift 4 (by decide))
  have h3 := hbyte _ _ (hshift 3 (by decide))
  have h2 := hbyte _ _ (hshift 2 (by decide))
  have h1 := hbyte _ _ (hshift 1 (by decide))
  have h0 := hbyte x (256 ^ 0) (by rw [Nat.pow_zero, Nat.div_one])
  have hbytes : brEnc64be x = [(x >>> (8 * 7).toUInt64).toUInt8, (x >>> (8 * 6).toUInt64).toUInt8,
      (x >>> (8 * 5).toUInt64).toUInt8, (x >>> (8 * 4).toUInt64).toUInt8,
      (x >>> (8 * 3).toUInt64).toUInt8, (x >>> (8 * 2).toUInt64).toUInt8,
      (x >>> (8 * 1).toUInt64).toUInt8, x.toUInt8] := rfl
  rw [hbytes, h7, h6, h5, h4, h3, h2, h1, h0]
  rfl

theorem small_follows : sha2small.Follows small where
  wide := by decide
  bytes := by decide
  enough := by decide
  eights := by decide
  rounds := rfl
  k i hi := (sha2small_k hi).symm
  bsg0 x := by simp only [sha2small, bigSigma, small, rotr_eq x (show 2 < 32 by decide),
    rotr_eq x (show 13 < 32 by decide), rotr_eq x (show 22 < 32 by decide)]
  bsg1 x := by simp only [sha2small, bigSigma, small, rotr_eq x (show 6 < 32 by decide),
    rotr_eq x (show 11 < 32 by decide), rotr_eq x (show 25 < 32 by decide)]
  ssg0 x := by simp only [sha2small, smallSigma, small, rotr_eq x (show 7 < 32 by decide),
    rotr_eq x (show 18 < 32 by decide)]
  ssg1 x := by simp only [sha2small, smallSigma, small, rotr_eq x (show 17 < 32 by decide),
    rotr_eq x (show 19 < 32 by decide)]
  blen := rfl
  counts := by decide
  lenAt := rfl

theorem big_follows : sha2big.Follows large where
  wide := by decide
  bytes := by decide
  enough := by decide
  eights := by decide
  rounds := rfl
  k i hi := (sha2big_k hi).symm
  bsg0 x := by simp only [sha2big, bigSigma, large, rotr_eq x (show 28 < 64 by decide),
    rotr_eq x (show 34 < 64 by decide), rotr_eq x (show 39 < 64 by decide)]
  bsg1 x := by simp only [sha2big, bigSigma, large, rotr_eq x (show 14 < 64 by decide),
    rotr_eq x (show 18 < 64 by decide), rotr_eq x (show 41 < 64 by decide)]
  ssg0 x := by simp only [sha2big, smallSigma, large, rotr_eq x (show 1 < 64 by decide),
    rotr_eq x (show 8 < 64 by decide)]
  ssg1 x := by simp only [sha2big, smallSigma, large, rotr_eq x (show 19 < 64 by decide),
    rotr_eq x (show 61 < 64 by decide)]
  blen := rfl
  counts := by decide
  lenAt := rfl

theorem length_toNat {len : ℕ} (h : len < 2 ^ 64) : len.toUInt64.toNat = len := Nat.mod_eq_of_lt h

theorem shift_three (len : ℕ) : (len.toUInt64 <<< 3).toNat = 8 * len % 256 ^ 8 := by
  have hthree : (3 : UInt64).toNat % 64 = 3 := rfl
  rw [UInt64.toNat_shiftLeft, hthree, Nat.shiftLeft_eq]
  show len % 2 ^ 64 * 2 ^ 3 % 2 ^ 64 = _
  omega

theorem small_length (len : ℕ) : sha2small.encLen len.toUInt64 = toBytes 8 (8 * len) := by
  show brEnc64be (len.toUInt64 <<< 3) = _
  rw [enc64be_eq, shift_three, toBytes_mod]

theorem big_length {len : ℕ} (h : len < 2 ^ 64) :
    sha2big.encLen len.toUInt64 = toBytes 16 (8 * len) := by
  have hhigh : (len.toUInt64 >>> 61).toNat = 8 * len / 256 ^ 8 := by
    have hmod : (61 : UInt64).toNat % 64 = 61 := rfl
    rw [UInt64.toNat_shiftRight, hmod, Nat.shiftRight_eq_div_pow, length_toNat h]
    omega
  show brEnc64be (len.toUInt64 >>> 61) ++ brEnc64be (len.toUInt64 <<< 3) = _
  rw [enc64be_eq, enc64be_eq, hhigh, shift_three, toBytes_mod, ← toBytes_add]

theorem initial_eq {w : ℕ} {iv : ℕ → BitVec w} {l : List (BitVec w)}
    (h : ∀ i < 8, iv i = l.getD i 0) : initial iv = initial fun i => l.getD i 0 := by
  simp only [initial, h 0 (by decide), h 1 (by decide), h 2 (by decide), h 3 (by decide),
    h 4 (by decide), h 5 (by decide), h 6 (by decide), h 7 (by decide)]

/-- A class over one of the two files. -/
theorem computes_of {w : ℕ} {P : Sha2 w} {V : Variant} (hP : P.Follows V) {iv : ℕ → BitVec w}
    {l : List (BitVec w)} (hiv : ∀ i < 8, iv i = l.getD i 0) (num : ℕ) (hnum : num ≤ 8)
    (hlen : ∀ len < 2 ^ 61, P.encLen len.toUInt64 = toBytes (w / 4) (8 * len)) (stack : Mem)
    {C : BrHashClass (Sha2Context w)} (hinit : C.init = Sha2.init l) (hupdate : C.update = P.update)
    (hout : ∀ c, C.out c = P.out stack c num) (hstate : C.state = Sha2.state)
    (hsetState : C.setState = Sha2.setState) (hsize : brDigestSize C = w / 8 * num)
    (hblock : blockSize C = P.blen) (hsmall : P.blen ≤ 128) :
    C.Computes (P.Holds V (initial fun i => l.getD i 0)) P.blen (digest V iv num) := by
  have hbytes := hP.bytes
  have hblen := hP.blen
  refine ⟨?_, ?_, ?_, ?_, ?_, ?_, hblock, hsmall⟩
  · intro c
    rw [hinit]
    exact init_holds hP l c
  · intro c m h data
    rw [hupdate]
    exact update_holds hP h data
  · intro c m h hm
    rw [hout, out_digest hP h (by rw [h.count, hlen _ hm])]
    simp only [digest, initial_eq hiv]
  · intro c m h hwhole c'
    have hres := setState_holds hP h hwhole c'
    have hcount : (Sha2.state c).2 = m.length.toUInt64 := h.count
    rwa [hstate, hsetState, ← hcount]
  · intro m
    rw [length_digest hnum, hsize]
  · have hle : w / 8 * num ≤ w / 8 * 8 := Nat.mul_le_mul_left _ hnum
    omega

theorem sha224_computes (stack : Mem) : (brSha224Vtable stack).Computes
    (sha2small.Holds small (initial fun i => brSha224IV.getD i 0)) 64 sha224 := by
  have hsize : brDigestSize (brSha224Vtable stack) = 28 := by
    simp only [brDigestSize, brSha224Vtable]
    decide
  have hblock : blockSize (brSha224Vtable stack) = 64 := by
    simp only [blockSize, brSha224Vtable]
    decide
  exact computes_of small_follows (fun _ hi => sha224_iv hi) 7 (by decide)
    (fun len _ => small_length len) stack rfl rfl (fun _ => rfl) rfl rfl hsize hblock (by decide)

theorem sha256_computes (stack : Mem) : (brSha256Vtable stack).Computes
    (sha2small.Holds small (initial fun i => brSha256IV.getD i 0)) 64 sha256 := by
  have hsize : brDigestSize (brSha256Vtable stack) = 32 := by
    simp only [brDigestSize, brSha256Vtable]
    decide
  have hblock : blockSize (brSha256Vtable stack) = 64 := by
    simp only [blockSize, brSha256Vtable]
    decide
  exact computes_of small_follows (fun _ hi => sha256_iv hi) 8 (by decide)
    (fun len _ => small_length len) stack rfl rfl (fun _ => rfl) rfl rfl hsize hblock (by decide)

theorem sha384_computes (stack : Mem) : (brSha384Vtable stack).Computes
    (sha2big.Holds large (initial fun i => IV384.getD i 0)) 128 sha384 := by
  have hsize : brDigestSize (brSha384Vtable stack) = 48 := by
    simp only [brDigestSize, brSha384Vtable]
    decide
  have hblock : blockSize (brSha384Vtable stack) = 128 := by
    simp only [blockSize, brSha384Vtable]
    decide
  exact computes_of big_follows (fun _ hi => sha384_iv hi) 6 (by decide)
    (fun _ hlen => big_length (Nat.lt_trans hlen (by decide))) stack rfl rfl (fun _ => rfl) rfl rfl hsize hblock (by decide)

theorem sha512_computes (stack : Mem) : (brSha512Vtable stack).Computes
    (sha2big.Holds large (initial fun i => IV512.getD i 0)) 128 sha512 := by
  have hsize : brDigestSize (brSha512Vtable stack) = 64 := by
    simp only [brDigestSize, brSha512Vtable]
    decide
  have hblock : blockSize (brSha512Vtable stack) = 128 := by
    simp only [blockSize, brSha512Vtable]
    decide
  exact computes_of big_follows (fun _ hi => sha512_iv hi) 8 (by decide)
    (fun _ hlen => big_length (Nat.lt_trans hlen (by decide))) stack rfl rfl (fun _ => rfl) rfl rfl hsize hblock (by decide)

theorem BrHashClass.Computes.updates {γ : Type} {C : BrHashClass γ}
    {Holds : γ → List UInt8 → Prop} {n : ℕ} {H : List UInt8 → List UInt8}
    (hC : C.Computes Holds n H) {c : γ} {m : List UInt8} (h : Holds c m)
    (chunks : List (List UInt8)) : Holds (chunks.foldl C.update c) (m ++ chunks.flatten) := by
  induction chunks generalizing c m with
  | nil => rwa [List.flatten_nil, List.append_nil]
  | cons chunk chunks ih =>
    rw [List.foldl_cons, List.flatten_cons, ← List.append_assoc]
    exact ih (hC.update h chunk)

theorem hash_of_computes {γ : Type} {C : BrHashClass γ} {Holds : γ → List UInt8 → Prop} {n : ℕ}
    {H : List UInt8 → List UInt8} (hC : C.Computes Holds n H) (c : γ)
    (chunks : List (List UInt8)) (h : chunks.flatten.length < 2 ^ 61) :
    C.hash c chunks = H chunks.flatten :=
  hC.out (hC.updates (hC.init c) chunks) h

end Files

/-- The four functions, however the message comes in pieces, from any context and with anything
on the stack. -/
theorem sha2_digests (stack : Mem) (c : Sha2Context 32) (d : Sha2Context 64)
    (chunks : List (List UInt8)) (h : chunks.flatten.length < 2 ^ 61) :
    (brSha224Vtable stack).hash c chunks = sha224 chunks.flatten ∧
      (brSha256Vtable stack).hash c chunks = sha256 chunks.flatten ∧
      (brSha384Vtable stack).hash d chunks = sha384 chunks.flatten ∧
      (brSha512Vtable stack).hash d chunks = sha512 chunks.flatten :=
  ⟨hash_of_computes (sha224_computes stack) c chunks h,
    hash_of_computes (sha256_computes stack) c chunks h,
    hash_of_computes (sha384_computes stack) d chunks h,
    hash_of_computes (sha512_computes stack) d chunks h⟩

theorem sha2_digests_abc :
    ([[97], [], [98, 99]] : List (List UInt8)).flatten.length < 2 ^ 61 ∧
      (brSha256Vtable fun _ => 7).hash ⟨fun _ => 9, 5, .ofList brSha224IV⟩ [[97], [], [98, 99]] =
        sha256 [97, 98, 99] :=
  ⟨by decide, (sha2_digests (fun _ => 7) ⟨fun _ => 9, 5, .ofList brSha224IV⟩
    ⟨fun _ => 0, 0, .ofList IV512⟩ [[97], [], [98, 99]] (by decide)).2.1⟩

end BearTLS
