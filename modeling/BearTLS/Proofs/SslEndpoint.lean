import BearTLS.Spec.SslEndpoint

/-! The engine with its buffers and registers does what the endpoint without them does: one
simulation lemma for each function of `ssl_engine.c` and each word of the processor. -/

namespace BearTLS

open Memory SslEngine

section Representation

variable {κ ι : Type} (P : Protection κ ι) (maxLen room : ℕ)

/-- The record classes work in the buffer as the protection says. -/
structure Protection.Implements (R : RecordIn ι) (W : RecordOut κ) : Prop where
  maxPlaintext : ∀ c start stop, W.maxPlaintext c start stop =
    (start + P.before, start + P.before + min (stop - (start + P.before) - P.after) 16384)
  length_encode : ∀ c t pt, (P.encode c t pt).2.length = P.before + pt.length + P.after
  encrypt : ∀ c t m data len, P.before + 5 ≤ data →
    W.encrypt c t BR_TLS12 m data len =
      ((P.encode c t (load m data len)).1,
        store m (data - P.before - 5) (recordWire t (P.encode c t (load m data len)).2),
        data - P.before - 5, (P.encode c t (load m data len)).2.length + 5)
  checkLength : R.checkLength = P.lengthOk
  decrypt : ∀ c t m data len, P.lengthOk c len = true →
    ∃ plain, plain.length + P.before + P.after = len ∧
      R.decrypt c t BR_TLS12 m data len =
        ((P.decode c t (load m data len)).1, store m (data + P.before) plain,
          ((P.decode c t (load m data len)).2.map fun _ => (data + P.before, plain.length))) ∧
      ∀ pt, (P.decode c t (load m data len)).2 = some pt → pt = plain

/-- Where the buffers stand. No record reaches the output buffer from below, even where the
buffers overlap. -/
structure Layout (ibuf ibufLen obuf obufLen maxFragLen : ℕ) : Prop where
  room_eq : room = ibufLen - 5
  header_fits : ibuf + 5 ≤ obuf
  body_fits : ∀ c n, P.lengthOk c n = true → ibuf + 5 + n ≤ obuf
  ibufLen_le : 5 ≤ ibufLen
  maxLen_eq : maxLen = min (min (obufLen - 5 - (5 + P.before) - P.after) 16384) maxFragLen
  two_le : 2 ≤ maxLen

def SslEngine.Placed (e : SslEngine κ ι) : Prop :=
  Layout P maxLen room e.ibuf e.ibufLen e.obuf e.obufLen e.maxFragLen

def OutShows (e : SslEngine κ ι) : Outgoing → Prop
  | .gathering acc =>
    e.oxc = 5 + P.before ∧ e.oxa = e.oxc + acc.length ∧ e.oxb = e.oxc + maxLen ∧
      acc.length < maxLen ∧ load e.buf (e.obuf + e.oxc) acc.length = acc
  | .sending rest =>
    e.oxb = e.oxa ∧ e.oxc = e.oxa + rest.length ∧ rest ≠ [] ∧
      load e.buf (e.obuf + e.oxa) rest.length = rest

def InShows (e : SslEngine κ ι) : Incoming → Prop
  | .header got =>
    e.ixa = got.length ∧ e.ixb = e.ixa ∧ e.ixc = 5 - got.length ∧ got.length < 5 ∧
      load e.buf e.ibuf got.length = got
  | .body type len got =>
    e.recordTypeIn = type ∧ e.ixa = 5 + got.length ∧ e.ixb = e.ixa ∧
      e.ixc = len - got.length ∧ got.length < len ∧ P.lengthOk e.inCtx len = true ∧
      len ≤ room ∧ load e.buf (e.ibuf + 5) got.length = got
  | .plain type rest =>
    e.recordTypeIn = type ∧ e.ixb = e.ixa + rest.length ∧ e.ixc = 0 ∧ rest ≠ [] ∧
      e.ibuf + e.ixb ≤ e.obuf ∧ load e.buf (e.ibuf + e.ixa) rest.length = rest

/-- The engine `e` is the endpoint `a`, its buffers apart. -/
structure ShowsRegisters (e : SslEngine κ ι) (a : Endpoint κ ι) : Prop where
  placed : e.Placed P maxLen room
  iomode : e.iomode = .inout
  incrypt : e.incrypt = true
  versionIn : e.versionIn = BR_TLS12
  versionOut : e.versionOut = BR_TLS12
  closeReceived : e.closeReceived = false
  err : e.err = 0
  outCtx : e.outCtx = a.outCtx
  inCtx : e.inCtx = a.inCtx
  typeOut : e.recordTypeOut = a.typeOut
  app : e.applicationData = a.app
  alert : e.alert = a.alert
  shutdown : e.shutdownRecv = a.shutdown
  co : e.co = a.co

/-- The engine `e` is the endpoint `a`, its output buffer apart. -/
structure ShowsBut (e : SslEngine κ ι) (a : Endpoint κ ι) : Prop
    extends ShowsRegisters P maxLen room e a where
  inp : InShows P room e a.inp

/-- The engine `e` is the endpoint `a`. -/
structure Shows (e : SslEngine κ ι) (a : Endpoint κ ι) : Prop
    extends ShowsBut P maxLen room e a where
  out : OutShows P maxLen e a.out

/-- Nothing is said of a connection that has gone back to a handshake. -/
def ShowsPhase (e : SslEngine κ ι) : Phase κ ι → Prop
  | .established a => Shows P maxLen room e a
  | .closed err => e.iomode = .failed ∧ e.err = err
  | .left => True

end Representation

section Output

variable {κ ι : Type} {P : Protection κ ι} {maxLen room : ℕ} {R : RecordIn ι} {W : RecordOut κ}
  {e : SslEngine κ ι} {a : Endpoint κ ι} {acc data rest : List UInt8}

/-- Writing above the output buffer's start leaves the input side as it is. -/
theorem InShows.store_above {i : Incoming} (h : InShows P room e i) (hs : e.Placed P maxLen room)
    {p : ℕ} (hp : e.obuf ≤ p) (bs : List UInt8) :
    InShows P room { e with buf := store e.buf p bs } i := by
  cases i with
  | header got =>
    obtain ⟨hixa, hixb, hixc, hlt, hload⟩ := h
    have hfits := hs.header_fits
    refine ⟨hixa, hixb, hixc, hlt, ?_⟩
    show load (store e.buf p bs) e.ibuf got.length = got
    rw [load_store_disjoint _ _ _ _ _ (.inl (by omega)), hload]
  | body type len got =>
    obtain ⟨htype, hixa, hixb, hixc, hlt, hok, hroom, hload⟩ := h
    have hfits := hs.body_fits _ _ hok
    refine ⟨htype, hixa, hixb, hixc, hlt, hok, hroom, ?_⟩
    show load (store e.buf p bs) (e.ibuf + 5) got.length = got
    rw [load_store_disjoint _ _ _ _ _ (.inl (by omega)), hload]
  | plain type rest =>
    obtain ⟨htype, hixb, hixc, hne, hle, hload⟩ := h
    refine ⟨htype, hixb, hixc, hne, hle, ?_⟩
    show load (store e.buf p bs) (e.ibuf + e.ixa) rest.length = rest
    rw [load_store_disjoint _ _ _ _ _ (.inl (by omega)), hload]

/-- And writing below it leaves the output side. -/
theorem OutShows.store_below {o : Outgoing} (h : OutShows P maxLen e o) (p : ℕ) (bs : List UInt8)
    (hp : p + bs.length ≤ e.obuf) : OutShows P maxLen { e with buf := store e.buf p bs } o := by
  cases o with
  | gathering acc =>
    obtain ⟨hoxc, hoxa, hoxb, hlt, hload⟩ := h
    refine ⟨hoxc, hoxa, hoxb, hlt, ?_⟩
    show load (store e.buf p bs) (e.obuf + e.oxc) acc.length = acc
    rw [load_store_disjoint _ _ _ _ _ (.inr (by omega)), hload]
  | sending rest =>
    obtain ⟨hoxb, hoxc, hne, hload⟩ := h
    refine ⟨hoxb, hoxc, hne, ?_⟩
    show load (store e.buf p bs) (e.obuf + e.oxa) rest.length = rest
    rw [load_store_disjoint _ _ _ _ _ (.inr (by omega)), hload]

theorem make_ready_out_eq (hP : P.Implements R W) (hs : e.Placed P maxLen room)
    (hio : e.iomode = .inout) :
    e.makeReadyOut W =
      { e with oxa := 5 + P.before, oxb := 5 + P.before + maxLen, oxc := 5 + P.before } := by
  have hmax := hs.maxLen_eq
  simp only [makeReadyOut, hP.maxPlaintext, hio, Nat.add_sub_cancel_left]
  congr 1
  split_ifs <;> omega

theorem length_recordWire (type : UInt8) (body : List UInt8) :
    (recordWire type body).length = body.length + 5 := by
  simp only [recordWire, recordHeader, List.length_append, List.length_cons, List.length_nil]
  omega

/-- A record is closed: its wire bytes replace the payload. -/
theorem flush_shows (hP : P.Implements R W) (h : ShowsBut P maxLen room e a)
    (hoxc : e.oxc = 5 + P.before) (hoxa : e.oxa = e.oxc + acc.length) (hne : e.oxa ≠ e.oxb)
    (hload : load e.buf (e.obuf + e.oxc) acc.length = acc) (force : Bool)
    (hforce : acc ≠ [] ∨ force = true) :
    Shows P maxLen room (e.sendpldFlush W force) (a.closeRecord P acc) := by
  have hxlen : e.oxa - e.oxc = acc.length := by omega
  have hgo : ¬ (acc.length = 0 ∧ force = false) := by
    rintro ⟨hz, hf⟩
    rcases hforce with hacc | hforce
    · exact hacc (List.eq_nil_of_length_eq_zero hz)
    · rw [hf] at hforce
      exact absurd hforce (by decide)
  have hstart : e.obuf + e.oxc - P.before - 5 = e.obuf := by omega
  have henc := hP.encrypt e.outCtx e.recordTypeOut e.buf (e.obuf + e.oxc) acc.length (by omega)
  rw [hload, hstart] at henc
  have heq : e.sendpldFlush W force =
      { e with
        outCtx := (P.encode e.outCtx e.recordTypeOut acc).1
        buf := store e.buf e.obuf
          (recordWire e.recordTypeOut (P.encode e.outCtx e.recordTypeOut acc).2)
        oxa := 0
        oxb := 0
        oxc := (P.encode e.outCtx e.recordTypeOut acc).2.length + 5 } := by
    simp only [sendpldFlush, if_neg hne, hxlen, if_neg hgo, h.versionOut, henc, Nat.sub_self,
      Nat.zero_add]
  rw [heq, Endpoint.closeRecord, ← h.outCtx, ← h.typeOut]
  exact
    { h with
      outCtx := rfl
      typeOut := rfl
      inp := h.inp.store_above h.placed (Nat.le_refl _) _
      out := ⟨rfl, by rw [length_recordWire]; exact (Nat.zero_add _).symm, by simp [recordWire, recordHeader],
        load_store_same _ _ _⟩ }

theorem Layout.ne (hs : e.Placed P maxLen room) : e.ibuf ≠ e.obuf := by
  have := hs.header_fits
  omega

/-- Bytes that stand behind those gathered are added to the record. -/
theorem gather_shows (hP : P.Implements R W) (h : ShowsBut P maxLen room e a)
    (ho : a.out = .gathering acc) (hoxc : e.oxc = 5 + P.before) (hoxa : e.oxa = e.oxc + acc.length)
    (hoxb : e.oxb = e.oxc + maxLen) (hle : acc.length + data.length ≤ maxLen)
    (hload : load e.buf (e.obuf + e.oxc) (acc ++ data).length = acc ++ data) :
    Shows P maxLen room (e.sendpldAck W data.length) (a.gather P maxLen data) := by
  have hne : ¬ (e.iomode = .inout ∧ e.ibuf = e.obuf) := fun hc => Layout.ne h.placed hc.2
  have htwo := h.placed.two_le
  simp only [sendpldAck, if_neg hne, Endpoint.gather, ho, ge_iff_le]
  rw [List.length_append] at hload ⊢
  by_cases hfull : maxLen ≤ acc.length + data.length
  · rw [if_pos (by omega), if_pos hfull]
    have hb : ShowsBut P maxLen room
        { e with oxa := e.oxa + data.length, oxb := e.oxa + data.length + 1 } a := { h with }
    apply flush_shows hP hb
    · exact hoxc
    · show e.oxa + data.length = e.oxc + (acc ++ data).length
      rw [List.length_append]
      omega
    · show e.oxa + data.length ≠ e.oxa + data.length + 1
      omega
    · show load e.buf (e.obuf + e.oxc) (acc ++ data).length = acc ++ data
      rw [List.length_append, hload]
    · refine .inl fun hnil => ?_
      rw [← List.length_eq_zero_iff, List.length_append] at hnil
      omega
  · rw [if_neg (by omega), if_neg hfull]
    refine { h with out := ⟨hoxc, ?_, hoxb, ?_, ?_⟩ }
    · show e.oxa + data.length = e.oxc + (acc ++ data).length
      rw [List.length_append]
      omega
    · rw [List.length_append]
      omega
    · rw [List.length_append]
      exact hload

/-- `br_ssl_engine_flush`, between records too. -/
theorem flush_record_shows (hP : P.Implements R W) (h : Shows P maxLen room e a) :
    Shows P maxLen room (e.sendpldFlush W false) (a.flush P) := by
  have hout := h.out
  cases ho : a.out with
  | gathering acc =>
    rw [ho] at hout
    obtain ⟨hoxc, hoxa, hoxb, hlt, hload⟩ := hout
    have hne : e.oxa ≠ e.oxb := by omega
    simp only [Endpoint.flush, ho]
    by_cases hacc : acc = []
    · have hz : e.oxa - e.oxc = 0 := by
        rw [hoxa, hacc]
        exact Nat.add_sub_cancel_left _ _
      rw [if_pos hacc]
      simpa only [sendpldFlush, if_neg hne, hz, and_self, if_true] using h
    · rw [if_neg hacc]
      exact flush_shows hP h.toShowsBut hoxc hoxa hne hload false (.inl hacc)
  | sending rest =>
    rw [ho] at hout
    simp only [Endpoint.flush, ho, sendpldFlush, if_pos hout.1.symm]
    exact h

/-- The last bytes of a record are sent, and the next one can be gathered. -/
theorem sendrec_ack_shows (hP : P.Implements R W) (h : Shows P maxLen room e a)
    (ho : a.out = .sending rest) {n : ℕ} (hn : n ≤ rest.length) :
    Shows P maxLen room (e.sendrecAck W n)
      { a with out := if n < rest.length then .sending (rest.drop n) else .gathering [] } := by
  have hout := h.out
  rw [ho] at hout
  obtain ⟨hoxb, hoxc, hne, hload⟩ := hout
  simp only [sendrecAck]
  by_cases hlt : n < rest.length
  · rw [if_neg (by omega), if_pos hlt]
    refine { h with out := ⟨rfl, ?_, ?_, ?_⟩ }
    · rw [List.length_drop]
      show e.oxc = e.oxa + n + _
      omega
    · simpa using hlt
    · rw [List.length_drop]
      show load e.buf (e.obuf + (e.oxa + n)) (rest.length - n) = rest.drop n
      obtain ⟨k, hk⟩ := Nat.exists_eq_add_of_le hn
      rw [hk, load_add] at hload
      rw [hk, Nat.add_sub_cancel_left, ← Nat.add_assoc]
      calc load e.buf (e.obuf + e.oxa + n) k
          = (load e.buf (e.obuf + e.oxa) n ++ load e.buf (e.obuf + e.oxa + n) k).drop n := by
            rw [List.drop_left' (length_load _ _ _)]
        _ = rest.drop n := by rw [hload]
  · rw [if_pos (by omega), if_neg hlt]
    have hb : ShowsBut P maxLen room
        { e with oxa := e.oxa + n, oxb := e.oxa + n } { a with out := .gathering [] } := { h with }
    have htwo := h.placed.two_le
    rw [make_ready_out_eq hP hb.placed hb.iomode]
    exact { hb with out := ⟨rfl, rfl, rfl, by simpa using (by omega : 0 < maxLen), rfl⟩ }

end Output

section Input

variable {κ ι : Type} {P : Protection κ ι} {maxLen room : ℕ} {R : RecordIn ι} {W : RecordOut κ}
  {e : SslEngine κ ι} {a : Endpoint κ ι} {type : UInt8} {got data rest body : List UInt8}

theorem fail_shows (h : ShowsRegisters P maxLen room e a) (n : ℤ) :
    ShowsPhase P maxLen room (e.fail n) (.closed n) := by
  have hio : e.iomode ≠ .failed := by
    rw [h.iomode]
    decide
  rw [fail, if_pos hio]
  exact ⟨rfl, rfl⟩

/-- Decrypted bytes are read. -/
theorem recvpld_ack_shows (h : Shows P maxLen room e a) (hi : a.inp = .plain type rest) {n : ℕ}
    (hn : n ≤ rest.length) : Shows P maxLen room (e.recvpldAck n) (a.take n) := by
  have hin := h.inp
  rw [hi] at hin
  obtain ⟨htype, hixb, hixc, hne, hle, hload⟩ := hin
  simp only [recvpldAck, Endpoint.take, hi, hixc, if_true]
  by_cases hall : rest.length ≤ n
  · rw [if_pos (by omega), if_pos hall]
    have hio : (if e.iomode = .input then .inout else e.iomode) = IoMode.inout := by
      rw [h.iomode]
      rfl
    exact { h with iomode := hio, inp := ⟨rfl, rfl, rfl, by simp, rfl⟩ }
  · rw [if_neg (by omega), if_neg hall]
    refine { h with inp := ⟨htype, ?_, rfl, ?_, hle, ?_⟩ }
    · rw [List.length_drop]
      show e.ixb = e.ixa + n + _
      omega
    · simpa using hall
    · obtain ⟨k, hk⟩ := Nat.exists_eq_add_of_le hn
      rw [hk, load_add] at hload
      rw [List.length_drop, hk, Nat.add_sub_cancel_left]
      show load e.buf (e.ibuf + (e.ixa + n)) k = rest.drop n
      rw [← hload, List.drop_left' (length_load _ _ _), ← Nat.add_assoc]

theorem load_five {m : Mem} {p : ℕ} {a b c d e : UInt8} (h : load m p 5 = [a, b, c, d, e]) :
    m p = a ∧ brDec16be m (p + 1) = (b.toUInt16 <<< 8) ||| c.toUInt16 ∧
      brDec16be m (p + 3) = (d.toUInt16 <<< 8) ||| e.toUInt16 := by
  have hbytes : load m p 5 = [m p, m (p + 1), m (p + 2), m (p + 3), m (p + 4)] := rfl
  rw [hbytes] at h
  injection h with h₀ h
  injection h with h₁ h
  injection h with h₂ h
  injection h with h₃ h
  injection h with h₄
  exact ⟨h₀, by rw [brDec16be, h₁, h₂], by rw [brDec16be, h₃, h₄]⟩

/-- A complete header is checked, whatever the input registers were. -/
theorem recv_header_shows (hP : P.Implements R W) (h : ShowsRegisters P maxLen room e a)
    (hout : OutShows P maxLen e a.out) {v₁ v₀ l₁ l₀ : UInt8}
    (hload : load e.buf e.ibuf 5 = [type, v₁, v₀, l₁, l₀]) :
    ShowsPhase P maxLen room (e.recvHeader R)
      (a.absorbHeader P room type ((v₁.toUInt16 <<< 8) ||| v₀.toUInt16)
        ((l₁.toUInt16 <<< 8) ||| l₀.toUInt16).toNat) := by
  obtain ⟨htype, hversion, hlen⟩ := load_five hload
  generalize (v₁.toUInt16 <<< 8) ||| v₀.toUInt16 = version at hversion ⊢
  generalize (l₁.toUInt16 <<< 8) ||| l₀.toUInt16 = len at hlen ⊢
  simp only [recvHeader, Endpoint.absorbHeader, htype, hversion, hlen, ne_eq, gt_iff_lt]
  have hset : e.versionIn ≠ 0 := by
    rw [h.versionIn]
    decide
  have ht : ShowsRegisters P maxLen room { e with recordTypeIn := type } a := { h with }
  by_cases hmajor : version >>> 8 = 3
  · rw [if_neg (not_not.mpr hmajor), if_neg (not_not.mpr hmajor)]
    by_cases hsame : version = BR_TLS12
    · subst hsame
      have hb : ShowsRegisters P maxLen room
          { e with recordTypeIn := type, versionIn := BR_TLS12 } a :=
        { h with versionIn := rfl }
      rw [if_neg (not_not.mpr rfl), if_neg fun hc => hc.2 h.versionIn, hP.checkLength,
        ← h.placed.room_eq]
      by_cases hok : P.lengthOk e.inCtx len.toNat = false
      · rw [if_pos ⟨h.incrypt, hok⟩,
          if_pos (show P.lengthOk a.inCtx len.toNat = false by rwa [← h.inCtx])]
        exact fail_shows hb _
      · rw [if_neg fun hc => hok hc.2,
          if_neg (show ¬ P.lengthOk a.inCtx len.toNat = false by rwa [← h.inCtx])]
        by_cases hroom : room < len.toNat
        · rw [if_pos ⟨h.incrypt, hroom⟩, if_pos hroom]
          exact fail_shows hb _
        · rw [if_neg fun hc => hroom hc.2, if_neg hroom,
            if_neg fun hc => Bool.noConfusion (h.incrypt.symm.trans hc.1)]
          by_cases hzero : len.toNat = 0
          · rw [if_pos hzero, if_pos hzero]
            have hio : (if e.iomode = .input then .inout else e.iomode) = IoMode.inout := by
              rw [h.iomode]
              rfl
            exact { hb with iomode := hio, inp := ⟨rfl, rfl, rfl, by simp, rfl⟩, out := hout }
          · rw [if_neg hzero, if_neg hzero]
            exact
              { hb with
                inp := ⟨rfl, rfl, rfl, rfl, Nat.pos_of_ne_zero hzero, by simpa using hok,
                  Nat.le_of_not_lt hroom, rfl⟩
                out := hout }
    · rw [if_pos hsame, if_pos ⟨hset, fun hc => hsame (hc.symm.trans h.versionIn)⟩]
      exact fail_shows ht _
  · rw [if_pos hmajor, if_pos hmajor]
    exact fail_shows ht _

/-- A complete body is decrypted. -/
theorem recv_record_shows (hP : P.Implements R W) (h : ShowsRegisters P maxLen room e a)
    (hout : OutShows P maxLen e a.out) (htype : e.recordTypeIn = type)
    (hixa : e.ixa = 5 + body.length) (hixc : e.ixc = 0)
    (hok : P.lengthOk e.inCtx body.length = true) (hload : load e.buf (e.ibuf + 5) body.length = body) :
    ShowsPhase P maxLen room (e.recvRecord R) (a.absorbBody P type body) := by
  subst htype
  obtain ⟨plain, hplain, hdec, heq⟩ :=
    hP.decrypt e.inCtx e.recordTypeIn e.buf (e.ibuf + 5) body.length hok
  have hfits := h.placed.body_fits _ _ hok
  have hlen : e.ixa - 5 = body.length := by omega
  rw [hload] at hdec heq
  rw [← h.versionIn, ← hlen] at hdec
  simp only [recvRecord, hdec, Endpoint.absorbBody, ← h.inCtx]
  rcases hd : P.decode e.inCtx e.recordTypeIn body with ⟨c, payload⟩
  rw [hd] at heq
  have hb : ShowsRegisters P maxLen room
      { e with inCtx := c, buf := store e.buf (e.ibuf + 5 + P.before) plain }
      { a with inCtx := c } :=
    { h with inCtx := rfl }
  have hout' := hout.store_below (e.ibuf + 5 + P.before) plain (by omega)
  cases payload with
  | none => exact fail_shows hb _
  | some pt =>
    obtain rfl := heq pt rfl
    have hixa' : e.ibuf + 5 + P.before - e.ibuf = 5 + P.before := by omega
    simp only [Option.map_some, hixa']
    cases pt with
    | nil =>
      have hio : (if e.iomode = .input then .inout else e.iomode) = IoMode.inout := by
        rw [h.iomode]
        rfl
      rw [List.length_nil, Nat.add_zero, if_pos rfl]
      exact { hb with iomode := hio, inp := ⟨rfl, rfl, rfl, by simp, rfl⟩, out := hout' }
    | cons x xs =>
      have hne : ¬ 5 + P.before = 5 + P.before + (x :: xs).length := by
        rw [List.length_cons]
        omega
      rw [if_neg hne]
      refine { hb with inp := ⟨rfl, rfl, hixc, by simp, ?_, ?_⟩, out := hout' }
      · show e.ibuf + (5 + P.before + (x :: xs).length) ≤ e.obuf
        omega
      · show load (store e.buf (e.ibuf + 5 + P.before) (x :: xs)) (e.ibuf + (5 + P.before))
          (x :: xs).length = x :: xs
        rw [← Nat.add_assoc]
        exact load_store_same _ _ _

theorem five_of_length {l : List UInt8} (h : l.length = 5) :
    ∃ a b c d e, l = [a, b, c, d, e] := by
  match l, h with
  | [a, b, c, d, e], _ => exact ⟨a, b, c, d, e, rfl⟩

/-- Bytes of the wire are received. -/
theorem recvrec_ack_shows (hP : P.Implements R W) (h : Shows P maxLen room e a) (hne : data ≠ [])
    (hle : data.length ≤ a.wanted) :
    ShowsPhase P maxLen room
      (recvrecAck R { e with buf := store e.buf (e.ibuf + e.ixa) data } data.length)
      (a.absorb P room data) := by
  have hpos : 0 < data.length := List.length_pos_of_ne_nil hne
  have hmode : ¬ (e.iomode = .inout ∧ e.ibuf = e.obuf) := fun hc => Layout.ne h.placed hc.2
  have hin := h.inp
  have hfits := h.placed.header_fits
  cases hi : a.inp with
  | header got =>
    rw [hi] at hin
    obtain ⟨hixa, hixb, hixc, hlt, hload⟩ := hin
    have hn : (got ++ data).length = e.ixa + data.length := by rw [List.length_append, hixa]
    have hle' : data.length ≤ 5 - got.length := by
      simp only [Endpoint.wanted, hi] at hle
      split_ifs at hle
      · omega
      · exact hle
    have hload' : load (store e.buf (e.ibuf + e.ixa) data) e.ibuf (got ++ data).length =
        got ++ data := by
      rw [hn, load_store_behind, hixa, hload]
    have hout := h.out.store_below (e.ibuf + e.ixa) data (by omega)
    have hb : ShowsRegisters P maxLen room
        { e with
          buf := store e.buf (e.ibuf + e.ixa) data
          ixa := e.ixa + data.length
          ixb := e.ixa + data.length
          ixc := e.ixc - data.length } a := { h with }
    simp only [recvrecAck, if_neg hmode, Endpoint.absorb, hi]
    by_cases hfull : e.ixa + data.length = 5
    · obtain ⟨type, v₁, v₀, l₁, l₀, hl⟩ := five_of_length (hn.trans hfull)
      rw [if_neg (by omega), if_pos hfull, hl]
      rw [hn, hfull, hl] at hload'
      exact recv_header_shows hP hb hout hload'
    · rw [if_pos (by omega)]
      split
      · next hl =>
        rw [hl] at hn
        exact absurd hn.symm hfull
      · refine { hb with inp := ⟨hn.symm, rfl, ?_, by omega, hload'⟩, out := hout }
        show e.ixc - data.length = 5 - (got ++ data).length
        omega
  | body type len got =>
    rw [hi] at hin
    obtain ⟨htype, hixa, hixb, hixc, hlt, hok, hroom, hload⟩ := hin
    have hbody := h.placed.body_fits _ _ hok
    have hn : (got ++ data).length = got.length + data.length := List.length_append
    have hle' : data.length ≤ len - got.length := by
      simp only [Endpoint.wanted, hi] at hle
      split_ifs at hle
      · omega
      · exact hle
    have hload' : load (store e.buf (e.ibuf + e.ixa) data) (e.ibuf + 5) (got ++ data).length =
        got ++ data := by
      rw [hn, hixa, ← Nat.add_assoc, load_store_behind, hload]
    have hout := h.out.store_below (e.ibuf + e.ixa) data (by omega)
    have hb : ShowsRegisters P maxLen room
        { e with
          buf := store e.buf (e.ibuf + e.ixa) data
          ixa := e.ixa + data.length
          ixb := e.ixa + data.length
          ixc := e.ixc - data.length } a := { h with }
    have hincrypt : ¬ e.incrypt = false := by
      rw [h.incrypt]
      decide
    simp only [recvrecAck, if_neg hmode, Endpoint.absorb, hi]
    rw [if_neg (by omega), if_neg (by omega), if_neg hincrypt]
    by_cases hfull : (got ++ data).length < len
    · rw [if_pos (by omega), if_pos hfull]
      refine { hb with inp := ⟨htype, ?_, rfl, ?_, hfull, hok, hroom, hload'⟩, out := hout }
      · show e.ixa + data.length = 5 + (got ++ data).length
        omega
      · show e.ixc - data.length = len - (got ++ data).length
        omega
    · have hlen : (got ++ data).length = len := by omega
      rw [if_neg (by omega), if_neg hfull]
      apply recv_record_shows hP hb hout htype
      · show e.ixa + data.length = 5 + (got ++ data).length
        omega
      · show e.ixc - data.length = 0
        omega
      · rw [hlen]
        exact hok
      · exact hload'
  | plain type rest =>
    simp only [Endpoint.wanted, hi, ite_self] at hle
    omega

end Input

end BearTLS
