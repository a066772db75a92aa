import BearTLS.Model.SslKeys
import BearTLS.Proofs.SslNetwork
import BearTLS.Proofs.SslProtection

/-! The start of a session: the buffers of the program, the keys of both ends, and the first
state of the network. -/

namespace BearTLS

open Memory SslEngine

section Buffers

variable {κ ι : Type} {P : Protection κ ι} {maxLen room : ℕ} {R : RecordIn ι} {W : RecordOut κ}
  {cc : SslEngine κ ι}

/-- The end of the handshake leaves a fresh end. -/
theorem end_handshake_shows (hP : P.Implements R W) (hplaced : cc.Placed P maxLen room)
    (hio : cc.iomode = .inout) (hcrypt : cc.incrypt = true) (herr : cc.err = 0)
    (halert : cc.alert = 0) (hshut : cc.shutdownRecv = false) :
    Shows P maxLen room (cc.endHandshake W) (Endpoint.fresh cc.outCtx cc.inCtx) := by
  have hio' : cc.makeReadyIn.iomode = .inout := by
    simp only [makeReadyIn, hio]
    rfl
  have htwo := hplaced.two_le
  have hpos : 0 < maxLen := by omega
  rw [endHandshake, make_ready_out_eq (e := cc.makeReadyIn) hP hplaced hio']
  exact
    { placed := hplaced
      iomode := hio'
      incrypt := hcrypt
      versionIn := rfl
      versionOut := rfl
      closeReceived := rfl
      err := herr
      outCtx := rfl
      inCtx := rfl
      typeOut := rfl
      app := rfl
      alert := halert
      shutdown := hshut
      co := rfl
      inp := ⟨rfl, rfl, rfl, by decide, rfl⟩
      out := ⟨rfl, rfl, rfl, hpos, rfl⟩ }

/-- A fragment length with its overheads. -/
def FragFits (ibufLen obufLen u : ℕ) : Prop :=
  2 ^ u + MAX_OUT_OVERHEAD ≤ obufLen ∧ 2 ^ u + MAX_IN_OVERHEAD ≤ ibufLen

/-- The search for the fragment length finds the largest one that fits. -/
theorem log_frag_len_spec (ibufLen obufLen k : ℕ) :
    (logFragLen ibufLen obufLen k = 8 ∧ ∀ u, 9 ≤ u → u < k + 9 → ¬ FragFits ibufLen obufLen u) ∨
      9 ≤ logFragLen ibufLen obufLen k ∧ logFragLen ibufLen obufLen k < k + 9 ∧
        FragFits ibufLen obufLen (logFragLen ibufLen obufLen k) := by
  induction k with
  | zero => exact .inl ⟨rfl, fun u h₁ h₂ => by omega⟩
  | succ k ih =>
    simp only [logFragLen]
    split_ifs with hfits
    · exact .inr ⟨by omega, by omega, hfits⟩
    · rcases ih with ⟨heq, hnone⟩ | ⟨hle, hlt, hfit⟩
      · refine .inl ⟨heq, fun u h₁ h₂ => ?_⟩
        rcases Nat.lt_or_ge u (k + 9) with hu | hu
        · exact hnone u h₁ hu
        · obtain rfl : u = k + 9 := by omega
          exact hfits
      · exact .inr ⟨hle, by omega, hfit⟩

/-- Where `br_ssl_engine_set_buffer` splits a buffer of `n` bytes. -/
def bidiSplit (n : ℕ) : ℕ := if n < 17306 then 597 else n - 16709

/-- The buffers of a full-duplex engine. -/
theorem set_buffer_bidi (rc : SslEngine κ ι) (clear : κ) {n : ℕ} (hn : 1434 ≤ n)
    {e : SslEngine κ ι} (he : rc.setBuffer W clear n true = e) :
    e.ibuf = 0 ∧ e.ibufLen = n - bidiSplit n ∧ e.obuf = bidiSplit n ∧ e.obufLen = bidiSplit n ∧
      e.iomode = .inout ∧ e.err = 0 ∧ e.maxFragLen + MAX_OUT_OVERHEAD ≤ e.obufLen ∧
      e.maxFragLen + MAX_IN_OVERHEAD ≤ e.ibufLen ∧ 512 ≤ e.maxFragLen ∧ e.maxFragLen ≤ 16384 := by
  have hsplit : 597 ≤ bidiSplit n ∧ 837 ≤ n - bidiSplit n := by
    unfold bidiSplit
    split_ifs <;> omega
  have hfit : FragFits (n - bidiSplit n) (bidiSplit n) 9 := by
    simp only [FragFits, MAX_OUT_OVERHEAD, MAX_IN_OVERHEAD]
    omega
  rcases log_frag_len_spec (n - bidiSplit n) (bidiSplit n) 6 with ⟨-, hnone⟩ | ⟨hle, hlt, hfits⟩
  · exact absurd hfit (hnone 9 (Nat.le_refl _) (by decide))
  · have hbig : ¬ n < 512 + MAX_IN_OVERHEAD + 512 + MAX_OUT_OVERHEAD := Nat.not_lt.mpr hn
    have hw : (if n < 16384 + MAX_IN_OVERHEAD + 512 + MAX_OUT_OVERHEAD then 512 + MAX_OUT_OVERHEAD
        else n - (16384 + MAX_IN_OVERHEAD)) = bidiSplit n := rfl
    have hset : rc.setBuffer W clear n true =
        rc.setBuffersBidi W clear 0 (n - bidiSplit n) (bidiSplit n) (bidiSplit n) := by
      simp only [setBuffer, if_true, if_neg hbig, hw]
    rw [hset, setBuffersBidi] at he
    generalize logFragLen (n - bidiSplit n) (bidiSplit n) 6 = u at hle hlt hfits he
    obtain ⟨v, hv, hvlo, hvhi, hvfits⟩ : ∃ v, (if u = 13 then 12 else u) = v ∧ 9 ≤ v ∧ v ≤ 14 ∧
        FragFits (n - bidiSplit n) (bidiSplit n) v := by
      refine ⟨_, rfl, ?_⟩
      split_ifs with hu
      · subst hu
        simp only [FragFits] at hfits ⊢
        omega
      · exact ⟨hle, by omega, hfits⟩
    have hne : u ≠ 8 := by omega
    simp only [if_neg hne, hv] at he
    subst he
    refine ⟨rfl, rfl, rfl, rfl, rfl, rfl, hvfits.1, hvfits.2, ?_, ?_⟩
    · show 2 ^ 9 ≤ 2 ^ v
      exact Nat.pow_le_pow_right (by decide) hvlo
    · show 2 ^ v ≤ 2 ^ 14
      exact Nat.pow_le_pow_right (by decide) hvhi

/-- The two buffers that a buffer of `n` bytes is split into: they lie apart only where `n` is
at least 33418, and both within it only where `n` is at most that. -/
theorem set_buffer_regions (rc : SslEngine κ ι) (W : RecordOut κ) (clear : κ) (n : ℕ) :
    let e := rc.setBuffer W clear n true
    (n < 1434 ∧ e.iomode = .failed ∧ e.err = BR_ERR_BAD_PARAM) ∨
      (1434 ≤ n ∧ e.iomode = .inout ∧ e.err = 0 ∧ e.ibuf + e.ibufLen ≤ n ∧
        (e.ibuf + e.ibufLen ≤ e.obuf ↔ 33418 ≤ n) ∧ (e.obuf + e.obufLen ≤ n ↔ n ≤ 33418) ∧
        512 ≤ e.maxFragLen ∧ e.maxFragLen ≤ 16384 ∧
        e.maxFragLen + MAX_OUT_OVERHEAD ≤ e.obufLen ∧
        e.maxFragLen + MAX_IN_OVERHEAD ≤ e.ibufLen) := by
  intro e
  have he : rc.setBuffer W clear n true = e := rfl
  rcases Nat.lt_or_ge n 1434 with hn | hn
  · left
    have hsmall : n < 512 + MAX_IN_OVERHEAD + 512 + MAX_OUT_OVERHEAD := hn
    rw [setBuffer, if_pos rfl, if_pos hsmall] at he
    rw [← he]
    exact ⟨hn, rfl, rfl⟩
  · right
    obtain ⟨hibuf, hibufLen, hobuf, hobufLen, hio, herr, hout, hin, hlo, hhi⟩ :=
      set_buffer_bidi rc clear hn he
    refine ⟨hn, hio, herr, ?_, ?_, ?_, hlo, hhi, hout, hin⟩
    all_goals
      simp only [hibuf, hibufLen, hobuf, hobufLen, bidiSplit]
      split_ifs <;> omega

end Buffers

section Program

/-- The buffers of the program. -/
theorem program_buffers {ι : Type} (rc : SslEngine Unit ι) {e : SslEngine Unit ι}
    (he : rc.setBuffer clearOut () BR_SSL_BUFSIZE_BIDI true = e) :
    e.ibuf = 0 ∧ e.ibufLen = 16709 ∧ e.obuf = 16469 ∧ e.obufLen = 16469 ∧
      e.maxFragLen = 16384 ∧ e.iomode = .inout ∧ e.err = 0 := by
  subst he
  exact ⟨rfl, rfl, rfl, rfl, rfl, rfl, rfl⟩

section Started

variable {κ ι : Type} {P : Protection κ ι} {R : RecordIn ι} {W : RecordOut κ}

/-- They overlap, but no record that the protection lets through reaches the overlap. -/
theorem program_layout (hover : P.before + P.after ≤ 64)
    (hok : ∀ d k, P.lengthOk d k = true → k ≤ 16408) :
    Layout P 16384 16704 0 16709 16469 16469 16384 where
  room_eq := rfl
  header_fits := by decide
  body_fits d k hk := by
    have := hok d k hk
    omega
  ibufLen_le := by decide
  maxLen_eq := by omega
  two_le := by decide

theorem started_shows (hP : P.Implements R W) (hover : P.before + P.after ≤ 64)
    (hok : ∀ d k, P.lengthOk d k = true → k ≤ 16408) (rc : SslEngine Unit Unit) (c : κ) (d : ι) :
    Shows P 16384 16704
      (endHandshake
        { (rc.setBuffer clearOut () BR_SSL_BUFSIZE_BIDI true).hsReset with
          outCtx := c
          inCtx := d
          incrypt := true } W) (Endpoint.fresh c d) := by
  generalize he : rc.setBuffer clearOut () BR_SSL_BUFSIZE_BIDI true = e
  obtain ⟨hibuf, hibufLen, hobuf, hobufLen, hfrag, hio, herr⟩ := program_buffers rc he
  refine end_handshake_shows hP ?_ hio rfl herr rfl rfl
  show Layout P 16384 16704 e.ibuf e.ibufLen e.obuf e.obufLen e.maxFragLen
  rw [hibuf, hibufLen, hobuf, hobufLen, hfrag]
  exact program_layout hover hok

end Started

end Program

section Suites

variable (u : Suite)

/-- A suite to run examples with. -/
def sampleSuite : Suite :=
  .chapol (fun _ _ _ i => i.toUInt8) fun _ _ _ data => List.Vector.replicate 16 data.length.toUInt8

/-- And one with nonces in its records. -/
def sampleGcm : Suite :=
  .gcm (fun _ iv cc i => iv.headD 0 + cc.toUInt8 + i.toUInt8)
    (fun _ tag bs => tag.map (· + bs.sum)) 16

def sampleSecrets : SslSecrets := ⟨fun n _ _ _ => List.replicate n 7, [], [], []⟩

/-- Some Finished message. -/
def sampleFinished : List UInt8 := [20, 0, 0, 12] ++ List.replicate 12 5

/-- The contexts that their handshakes leave. -/
def Suite.sampleContext (t : Side) : u.Ctx :=
  (u.finishedOf (fun _ => .zero) sampleSecrets (fun _ => sampleFinished) (fun _ => 16482)
    t).1.outCtx

theorem suite_implements : u.protection.Implements u.recordIn u.recordOut := by
  cases u with
  | gcm ctr gh cipherKeyLen => exact gcm_implements
  | chapol ichacha ipoly => exact chapol_implements

theorem suite_matched : u.protection.Matched 16384 (fun c d : u.Ctx => c = d) := by
  cases u with
  | gcm ctr gh cipherKeyLen => exact gcm_matched (Nat.le_refl _)
  | chapol ichacha ipoly => exact chapol_matched (Nat.le_refl _)

theorem suite_suits : u.protection.Suits 16384 16704 where
  length_encode := (suite_implements u).length_encode
  two_le := by decide
  fits := by
    cases u with
    | gcm ctr gh cipherKeyLen => exact (by decide : 8 + 16384 + 16 ≤ 16704)
    | chapol ichacha ipoly => exact (by decide : 0 + 16384 + 16 ≤ 16704)
  small := by
    cases u with
    | gcm ctr gh cipherKeyLen => exact (by decide : 8 + 16384 + 16 < 65536)
    | chapol ichacha ipoly => exact (by decide : 0 + 16384 + 16 < 65536)

theorem gcm_length_le (d : GcmContext) (k : ℕ) (hk : gcmProtection.lengthOk d k = true) :
    k ≤ 16408 := by
  have hbounds : 24 ≤ k ∧ k ≤ 16384 + 24 := by simpa [gcmProtection, gcmCheckLength] using hk
  exact hbounds.2

theorem chapol_length_le (d : ChapolContext) (k : ℕ) (hk : chapolProtection.lengthOk d k = true) :
    k ≤ 16408 := by
  have hbounds : 16 ≤ k ∧ k ≤ 16384 + 16 := by
    simpa [chapolProtection, chapolCheckLength] using hk
  omega

/-- The two parts of a record in the buffer. -/
theorem load_recordWire (m : Mem) (p : ℕ) (t : UInt8) (body : List UInt8) :
    load (store m p (recordWire t body)) p 5 = recordHeader t body.length ∧
      load (store m p (recordWire t body)) (p + 5) body.length = body := by
  have hwire : load (store m p (recordWire t body)) p (5 + body.length) =
      recordHeader t body.length ++ body := by
    rw [Nat.add_comm, ← length_recordWire t body, load_store_same]
    rfl
  rw [load_add] at hwire
  exact List.append_inj hwire (by rw [length_load]; rfl)

theorem before_le {data : ℕ} (hdata : 13 ≤ data) : u.protection.before + 5 ≤ data := by
  cases u with
  | gcm ctr gh cipherKeyLen => exact hdata
  | chapol ichacha ipoly => exact (by decide : 0 + 5 ≤ 13).trans hdata

/-- What a sender makes of a payload is opened under the same context, wherever it comes to stand,
and leaves the context that it left to the sender. -/
theorem open_sealed (c : u.Ctx) (t : UInt8) (m : Mem) (data : ℕ) {pt body : List UInt8}
    (hlen : pt.length ≤ 16384) (hbody : (u.protection.encode c t pt).2 = body) :
    u.recordIn.decrypt c t BR_TLS12 (store m data body) data body.length =
      ((u.protection.encode c t pt).1, store (store m data body) (data + u.protection.before) pt,
        some (data + u.protection.before, pt.length)) := by
  obtain ⟨d, hdec, rfl⟩ := (suite_matched u).decode c c t pt rfl hlen
  have hok := (suite_matched u).lengthOk c c t pt rfl hlen
  rw [hbody] at hdec hok
  obtain ⟨plain, -, hopen, hpt⟩ :=
    (suite_implements u).decrypt c t (store m data body) data body.length hok
  rw [load_store_same, hdec] at hopen hpt
  obtain rfl := hpt _ rfl
  exact hopen

/-- What one end seals in its buffer the other one opens in its own, wherever the record comes
to stand there, and neither writes outside of the record. -/
theorem record_round_trip (c : u.Ctx) (t : UInt8) (m m' : Mem) {data len : ℕ} (data' : ℕ)
    (hdata : 13 ≤ data) (hlen : len ≤ 16384) {c' : u.Ctx} {m₁ : Mem} {buf total : ℕ}
    (henc : u.recordOut.encrypt c t BR_TLS12 m data len = (c', m₁, buf, total)) :
    (∀ i, i < buf ∨ buf + total ≤ i → m₁ i = m i) ∧
      load m₁ buf 5 = recordHeader t (total - 5) ∧
      u.recordIn.checkLength c (total - 5) = true ∧
      ∃ m₂ p, u.recordIn.decrypt c t BR_TLS12
          (store m' data' (load m₁ (buf + 5) (total - 5))) data' (total - 5) =
            (c', m₂, some (p, len)) ∧
        load m₂ p len = load m data len ∧
        ∀ i, i < data' ∨ data' + (total - 5) ≤ i → m₂ i = m' i := by
  have hI := suite_implements u
  have hpt : (load m data len).length ≤ 16384 := by rwa [length_load]
  have hok := (suite_matched u).lengthOk c c t (load m data len) rfl hpt
  have hsize := hI.length_encode c t (load m data len)
  have hopen := open_sealed u c t m' data' hpt rfl
  rw [length_load] at hsize hopen
  rw [hI.encrypt c t m data len (before_le u hdata), Prod.mk.injEq, Prod.mk.injEq,
    Prod.mk.injEq] at henc
  obtain ⟨rfl, rfl, rfl, rfl⟩ := henc
  generalize (u.protection.encode c t (load m data len)).2 = body at *
  obtain ⟨hhead, htail⟩ := load_recordWire m (data - u.protection.before - 5) t body
  rw [Nat.add_sub_cancel]
  refine ⟨fun i hi => store_outside _ _ _ ?_, hhead, ?_, ?_⟩
  · rwa [length_recordWire]
  · rw [hI.checkLength]
    exact hok
  · rw [htail]
    refine ⟨_, _, hopen, ?_, fun i hi => ?_⟩
    · have hsame := load_store_same (store m' data' body) (data' + u.protection.before)
        (load m data len)
      rwa [length_load] at hsame
    · rw [store_outside _ _ _ (by rw [length_load]; omega), store_outside _ _ _ hi]

/-- Three bytes in the middle of a buffer, sealed. -/
def sealThree : u.Ctx × Mem × ℕ × ℕ :=
  u.recordOut.encrypt (u.sampleContext .client) BR_SSL_ALERT BR_TLS12 (fun i => i.toUInt8) 20 3

/-- And opened at the start of another one. -/
def openThree : u.Ctx × Mem × Option (ℕ × ℕ) :=
  let (_, m, buf, total) := sealThree u
  u.recordIn.decrypt (u.sampleContext .client) BR_SSL_ALERT BR_TLS12
    (store (fun _ => 0) 0 (load m (buf + 5) (total - 5))) 0 (total - 5)

theorem record_round_trip_three :
    (∃ m p, openThree sampleSuite = ((sealThree sampleSuite).1, m, some (p, 3)) ∧
        load m p 3 = [20, 21, 22]) ∧
      (∃ m p, openThree sampleGcm = ((sealThree sampleGcm).1, m, some (p, 3)) ∧
        load m p 3 = [20, 21, 22]) ∧
      (sealThree sampleSuite).2.2.2 = 24 ∧ (sealThree sampleGcm).2.2.2 = 32 := by
  obtain ⟨-, -, -, m, p, hopen, hload, -⟩ := record_round_trip sampleSuite
    (sampleSuite.sampleContext .client) BR_SSL_ALERT (fun i => i.toUInt8) (fun _ => 0) 0
    (show 13 ≤ 20 by decide) (show 3 ≤ 16384 by decide) rfl
  obtain ⟨-, -, -, m', p', hopen', hload', -⟩ := record_round_trip sampleGcm
    (sampleGcm.sampleContext .client) BR_SSL_ALERT (fun i => i.toUInt8) (fun _ => 0) 0
    (show 13 ≤ 20 by decide) (show 3 ≤ 16384 by decide) rfl
  exact ⟨⟨m, p, hopen, hload⟩, ⟨m', p', hopen', hload'⟩, rfl, rfl⟩

theorem suite_decode_iff (c : u.Ctx) (t : UInt8) {body : List UInt8} (pt : List UInt8)
    (hok : u.protection.lengthOk c body.length = true) :
    (u.protection.decode c t body).2 = some pt ↔ u.resealed t body pt c = body := by
  cases u with
  | gcm ctr gh cipherKeyLen =>
    have hbounds : 24 ≤ body.length ∧ body.length ≤ 16384 + 24 := by
      simpa [Suite.protection, gcmProtection, gcmCheckLength] using hok
    exact gcm_decode_iff c t pt hbounds.1
  | chapol ichacha ipoly =>
    have hbounds : 16 ≤ body.length ∧ body.length ≤ 16384 + 16 := by
      simpa [Suite.protection, chapolProtection, chapolCheckLength] using hok
    exact chapol_decode_iff c t pt hbounds.1

/-- A record is let through exactly where a sender with the same keys and the same sequence
number would have sealed it so, and as the payload that it would have sealed. -/
theorem record_accepts (c : u.Ctx) (t : UInt8) (m : Mem) (data : ℕ) {len : ℕ}
    (hok : u.recordIn.checkLength c len = true) (pt : List UInt8) :
    (∃ c' m' p, u.recordIn.decrypt c t BR_TLS12 m data len = (c', m', some (p, pt.length)) ∧
        load m' p pt.length = pt) ↔
      u.resealed t (load m data len) pt c = load m data len := by
  have hI := suite_implements u
  rw [hI.checkLength] at hok
  obtain ⟨plain, -, hopen, hpt⟩ := hI.decrypt c t m data len hok
  rw [← suite_decode_iff u c t pt (by rwa [length_load])]
  constructor
  · rintro ⟨c', m', p, hdec, hload⟩
    rw [hopen] at hdec
    cases hres : (u.protection.decode c t (load m data len)).2 with
    | none =>
      rw [hres] at hdec
      simp at hdec
    | some pt' =>
      obtain rfl := hpt pt' hres
      simp only [hres, Option.map_some, Prod.mk.injEq, Option.some.injEq] at hdec
      obtain ⟨-, rfl, rfl, hlen⟩ := hdec
      rw [← hlen, load_store_same] at hload
      rw [hload]
  · intro hres
    obtain rfl := hpt pt hres
    rw [hres] at hopen
    exact ⟨_, _, _, hopen, load_store_same _ _ _⟩

/-- Seventeen zeroes are no record of the byte 0. -/
theorem record_accepts_zeroes :
    ¬ ∃ c' m' p, sampleSuite.recordIn.decrypt (sampleSuite.sampleContext .client)
        BR_SSL_ALERT BR_TLS12 (fun _ => 0) 5 17 = (c', m', some (p, [(0 : UInt8)].length)) ∧
        load m' p [(0 : UInt8)].length = [0] := by
  rw [record_accepts sampleSuite _ BR_SSL_ALERT (fun _ => 0) 5 (by decide) [0]]
  decide +kernel

/-- An end at the start of its session shows a fresh endpoint, under any contexts. -/
theorem established_shows (rc : SslEngine Unit Unit) (outCtx inCtx : u.Ctx) :
    ShowsPhase u.protection 16384 16704 (u.established rc outCtx inCtx) (u.start outCtx inCtx) := by
  cases u with
  | gcm ctr gh cipherKeyLen => exact started_shows gcm_implements (by decide) gcm_length_le rc _ _
  | chapol ichacha ipoly =>
    exact started_shows chapol_implements (by decide) chapol_length_le rc _ _

section Handshake

variable (rc : SslEngine Unit Unit) (s : SslSecrets) (isClient : Bool) (msg : List UInt8)

end Handshake

theorem left_stays (x : Phase u.Ctx u.Ctx) (c : EngineCall) (hx : ¬ x ≠ .left) :
    ¬ u.endpoints.call x c ≠ .left := by
  rw [not_not] at hx ⊢
  subst hx
  cases c <;> rfl

theorem suite_refines (handshake : SslEngine u.Ctx u.Ctx → SslEngine u.Ctx u.Ctx) :
    (u.engine handshake).Refines u.endpoints (ShowsPhase u.protection 16384 16704) (· ≠ .left) :=
  ssl_engine_refines (suite_implements u)

/-- Over every run of legal calls, from any contexts and with any bytes for records, a caller sees
what the endpoint without buffers shows, up to a renegotiation. -/
theorem engine_run_view (rc : SslEngine Unit Unit) (outCtx inCtx : u.Ctx)
    (handshake : SslEngine u.Ctx u.Ctx → SslEngine u.Ctx u.Ctx) (cs : List EngineCall)
    (hlegal : (u.engine handshake).LegalRun (u.established rc outCtx inCtx) cs)
    (hlive : u.endpoints.run (u.start outCtx inCtx) cs ≠ .left) :
    (u.engine handshake).SameView u.endpoints
      ((u.engine handshake).run (u.established rc outCtx inCtx) cs)
      (u.endpoints.run (u.start outCtx inCtx) cs) := by
  have hrun := (suite_refines u handshake).run (left_stays u)
    (established_shows u rc outCtx inCtx) hlegal hlive
  exact (suite_refines u handshake).view _ _ hrun hlive

/-- A client that sends, and gets a record whose tag is wrong. -/
theorem engine_run_view_damaged :
    let cs := [.sendapp [1], .flush, .sendrec 22, .recvrec [23, 3, 3, 0, 17],
      .recvrec (List.replicate 17 0), .flush]
    let outCtx := sampleSuite.sampleContext .client
    let inCtx := sampleSuite.sampleContext .server
    (sampleSuite.engine id).SameView sampleSuite.endpoints
        ((sampleSuite.engine id).run (sampleSuite.established .zero outCtx inCtx) cs)
        (sampleSuite.endpoints.run (sampleSuite.start outCtx inCtx) cs) ∧
      sampleSuite.endpoints.lastError (sampleSuite.endpoints.run
        (sampleSuite.start outCtx inCtx) cs) = BR_ERR_BAD_MAC := by
  have herr : sampleSuite.endpoints.lastError (sampleSuite.endpoints.run
      (sampleSuite.start (sampleSuite.sampleContext .client) (sampleSuite.sampleContext .server)) [.sendapp [1], .flush,
        .sendrec 22, .recvrec [23, 3, 3, 0, 17], .recvrec (List.replicate 17 0), .flush]) =
      BR_ERR_BAD_MAC := by
    decide +kernel
  refine ⟨engine_run_view sampleSuite .zero _ _ id _ (by decide +kernel) ?_, herr⟩
  intro hleft
  rw [hleft] at herr
  exact absurd herr (by decide)

end Suites

section Reached

variable {κ ι : Type} {P : Protection κ ι} {maxLen room : ℕ} {rel : κ → ι → Prop}

theorem fresh_at (hpos : 0 < maxLen) (c : κ) (d : ι) : (Endpoint.fresh c d).At maxLen .opened where
  alert := rfl
  shutdown := rfl
  inp := ⟨by decide, fun _ => rfl⟩
  live := by decide
  app := rfl
  co := rfl
  typeOut := rfl
  out := ⟨hpos, .inl rfl⟩

theorem fresh_session (hpos : 0 < maxLen) {c : Side → κ} {d : Side → ι}
    (hrel : ∀ s, rel (c s) (d s.other)) :
    Session P maxLen rel (Network.fresh fun s => .established (Endpoint.fresh (c s) (d s)))
      fun _ => .opened where
  stage s := fresh_at hpos (c s) (d s)
  closes s hs := absurd hs (by decide)
  opened s hs := absurd hs Bool.false_ne_true
  flow s := by
    have hread : (Endpoint.fresh (c s.other) (d s.other)).readable = [] := by
      simp [Endpoint.readable, Endpoint.fresh]
    refine ⟨[], [], c s, ordered_nil, ordered_nil, ?_, ?_, rfl, rfl, ⟨[], congrArg (· ++ []) hread⟩,
      fun _ => hread⟩
    · rintro a ⟨rfl⟩
      rfl
    · rintro b ⟨rfl⟩
      exact hrel s

theorem Phase.At.ne_left {x : Phase κ ι} {g : Stage} (h : x.At maxLen g) : x ≠ .left := by
  rintro rfl
  exact h

end Reached

section Networks

variable (u : Suite) (handshake : SslEngine u.Ctx u.Ctx → SslEngine u.Ctx u.Ctx)

/-- What a network of two engines shows is a session. -/
structure Suite.InSession (n : Network (SslEngine u.Ctx u.Ctx)) (m : Network (Phase u.Ctx u.Ctx))
    (stages : Side → Stage) : Prop where
  related : Network.Related (ShowsPhase u.protection 16384 16704) n m
  session : Session u.protection 16384 (fun c d : u.Ctx => c = d) m stages

variable {u} {n n' : Network (SslEngine u.Ctx u.Ctx)} {m : Network (Phase u.Ctx u.Ctx)}
  {stages : Side → Stage} {t : Side} {c : EngineCall}

theorem suite_started (u : Suite) (rc : Side → SslEngine Unit Unit) (ctx : Side → u.Ctx) :
    u.InSession (u.network rc ctx) (Network.fresh fun t => u.start (ctx t) (ctx t.other))
      fun _ => .opened where
  related := ⟨fun t => established_shows u (rc t) _ _, rfl, rfl, rfl, rfl⟩
  session := fresh_session (by decide) fun t => congrArg ctx t.other_other.symm

theorem Suite.InSession.view (h : u.InSession n m stages) (t : Side) :
    (u.engine handshake).SameView u.endpoints (n.ends t) (m.ends t) :=
  (suite_refines u handshake).view _ _ (h.related.ends t) (h.session.stage t).ne_left

theorem Suite.InSession.move (h : u.InSession n m stages)
    (hmove : n.CanMove (u.engine handshake) t c) :
    m.CanMove u.endpoints t c ∧
      Network.Related (ShowsPhase u.protection 16384 16704) (n.move (u.engine handshake) t c)
        (m.move u.endpoints t c) :=
  Network.move_related (suite_refines u handshake) h.related (h.session.stage t).ne_left hmove

/-- Whatever two ends of the program's engine do, they do as the endpoints of a session. -/
theorem suite_reachable {rc : Side → SslEngine Unit Unit} {ctx : Side → u.Ctx}
    (h : (u.network rc ctx).Reachable (u.engine handshake) n) :
    ∃ m stages, u.InSession n m stages := by
  induction h with
  | start => exact ⟨_, _, suite_started u rc ctx⟩
  | move t c _ hmove ih =>
    obtain ⟨m, stages, hm⟩ := ih
    obtain ⟨hcan, hrel⟩ := hm.move handshake hmove
    obtain ⟨g', hsession, -⟩ := session_move (suite_suits u) (suite_matched u) hm.session hcan
    exact ⟨_, _, hrel, hsession⟩

end Networks

end BearTLS
