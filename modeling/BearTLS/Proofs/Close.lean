import BearTLS.Proofs.Reading
import BearTLS.Sanity.Schedules

/-! What `wm_tls_close` leaves unsent. With the `closed` flag clear it drains the
engine; with the flag set it does not, so what was written behind an end of
stream may stay in the engine. -/

namespace BearTLS

open Relation Trace

variable {σ α : Type} {E : Engine σ} {H : History σ} {os : Host σ}
  {reset : α → List UInt8 → Bool × σ} {base : Log σ}

variable (H) in
/-- `send` has accepted the records that carry `data`, whole, in order and once. -/
structure AllSent (own : Log σ) (e : σ) (data : List UInt8) : Prop where
  inOrder : sentBytes own <+: H.wire e
  carried : ∃ rs ts, H.recs e = rs ++ ts ∧ wireOf rs <+: sentBytes own ∧ payloadOf rs = data

variable (H) in
/-- The records that are not wholly sent carry no plaintext. -/
def NoDataPending (own : Log σ) (e : σ) : Prop :=
  ∃ rs ts, H.recs e = rs ++ ts ∧ wireOf rs <+: sentBytes own ∧ payloadOf ts = []

def SendFailed (l : Log σ) : Prop := ∃ sock buf wr, Event.send sock buf wr ∈ l ∧ wr.getD 0 = 0

variable (E) in
/-- The engine is not closed with an error. -/
def Sound (e : σ) : Prop := (E.currentState e).closed = true → E.lastError e = 0

variable (H) in
/-- The outgoing half of the ledger; it also holds after `br_ssl_engine_close`. -/
structure Outbox (own : Log σ) (e : σ) (data : List UInt8) : Prop where
  valid : H.Valid e
  acc : H.acc e = []
  sent : sentBytes own = (H.wire e).take (H.acked e)
  payload : payloadOf (H.recs e) = data

theorem Ledger.outbox {own : Log σ} {e : σ} (h : Ledger E H own e) :
    Outbox H own e (sendappBytes own) :=
  ⟨h.isOpen.valid, h.acc, h.sent, h.injected.symm⟩

theorem SendFailed.append_right {l m : Log σ} (h : SendFailed m) : SendFailed (l ++ m) := by
  obtain ⟨sock, buf, wr, hmem, h0⟩ := h
  exact ⟨sock, buf, wr, List.mem_append_right _ hmem, h0⟩

theorem outbox_close (hE : E.Lawful H) {own : Log σ} {e : σ} {data : List UInt8} (ho : H.Open e)
    (h : Outbox H own e data) : Outbox H own (E.close e) data := by
  obtain ⟨hvalid, hadv⟩ := hE.close e ho
  obtain ⟨hacc, hpay, hwire⟩ := Advance.output hadv h.acc
  refine ⟨hvalid, hacc, ?_, hpay.trans h.payload⟩
  rw [h.sent, hadv.acked, Nat.add_zero, take_eq_of_prefix hwire (hE.acked_le e h.valid)]

theorem outbox_send (hE : E.Lawful H) {own : Log σ} {e : σ} {data : List UInt8}
    (h : Outbox H own e data) (hb : E.sendrecBuf e ≠ []) {n : ℕ} (hn : 0 < n)
    (hle : n ≤ (E.sendrecBuf e).length) (sock : Option Socket) :
    Outbox H (own ++ [.send sock (E.sendrecBuf e) (some n)]) (E.sendrecAck e n) data := by
  have hopen : (E.currentState e).closed = false := by
    by_contra hc
    exact hb (hE.sendrec_closed e h.valid (by simpa using hc))
  have hpend := hE.sendrec_pending e h.valid hopen
  have hstep := hE.sendrec_ack e n h.valid hopen hn hle
  obtain ⟨hacc, hpay, hwire⟩ := Advance.output hstep.toAdvance h.acc
  have hroom : H.acked e + n ≤ (H.wire e).length := by
    have := hE.acked_le e h.valid
    rw [hpend, List.length_drop] at hle
    omega
  refine ⟨hstep.valid, hacc, ?_, hpay.trans h.payload⟩
  rw [sentBytes_append, h.sent, hstep.acked, take_eq_of_prefix hwire hroom, List.take_add]
  simp [sentBytes, hpend]

theorem send_pending_outbox (hE : E.Lawful H) (fuel : ℕ) {c : Conn σ} {own : Log σ}
    {data : List UInt8} (h : Outbox H own c.eng data) :
    ∃ evs, (wmTlsSendPendingRecords E os fuel c none).conn.log = c.log ++ evs ∧
      Outbox H (own ++ evs) (wmTlsSendPendingRecords E os fuel c none).conn.eng data ∧
      ((wmTlsSendPendingRecords E os fuel c none).ret = some false → SendFailed evs) := by
  induction fuel generalizing c own with
  | zero =>
    exact ⟨[], by simp [wmTlsSendPendingRecords], by rwa [List.append_nil], by intro h; cases h⟩
  | succ fuel ih =>
    simp only [wmTlsSendPendingRecords]
    split_ifs with hlen hwr
    · refine ⟨[.send c.sock (E.sendrecBuf c.eng) _], rfl, ⟨h.valid, h.acc, ?_, h.payload⟩,
        fun _ => ⟨_, _, _, List.mem_singleton_self _, hwr⟩⟩
      rw [sentBytes_append, h.sent]
      cases hw : (os.send c.log (E.sendrecBuf c.eng)).map Fin.val with
      | none => simp [sentBytes]
      | some n =>
        rw [hw] at hwr
        obtain rfl : n = 0 := hwr
        simp [sentBytes]
    · cases hw : (os.send c.log (E.sendrecBuf c.eng)).map Fin.val with
      | none => simp [hw] at hwr
      | some n =>
        have hn : 0 < n := by simp only [hw, Option.getD_some] at hwr; omega
        have hle : n ≤ (E.sendrecBuf c.eng).length := by
          obtain ⟨m, -, rfl⟩ := Option.map_eq_some_iff.mp hw
          exact Nat.lt_succ_iff.mp m.isLt
        have hnext := outbox_send hE h (List.ne_nil_of_length_pos hlen) hn hle c.sock
        obtain ⟨evs, hlog, hout, hfail⟩ := ih (c := { c.did (.send c.sock (E.sendrecBuf c.eng)
          (some n)) with eng := E.sendrecAck c.eng n }) hnext
        refine ⟨[.send c.sock (E.sendrecBuf c.eng) (some n)] ++ evs,
          hlog.trans (by simp [Conn.did]), ?_, fun hret => (hfail hret).append_right⟩
        rw [← List.append_assoc]
        exact hout
    · exact ⟨[], by simp, by simpa using h, by simp⟩

theorem close_drain_outbox (hE : E.Lawful H) (fuel : ℕ) {c : Conn σ} {own : Log σ}
    {data : List UInt8} (h : Outbox H own c.eng data)
    (hdone : (wmTlsCloseDrain E os fuel c).1 = some ()) :
    ∃ evs, (wmTlsCloseDrain E os fuel c).2.log = c.log ++ evs ∧
      Outbox H (own ++ evs) (wmTlsCloseDrain E os fuel c).2.eng data ∧
      (SendFailed evs ∨
        (E.currentState (wmTlsCloseDrain E os fuel c).2.eng).sendrec = false) := by
  induction fuel generalizing c own with
  | zero => cases hdone
  | succ fuel ih =>
    simp only [wmTlsCloseDrain] at hdone ⊢
    obtain ⟨evs, hlog, hout, hfail⟩ : ∃ evs, (wmTlsSendPendingRecords E os fuel c none).conn.log =
        c.log ++ evs ∧ _ := send_pending_outbox hE fuel h
    split_ifs at hdone ⊢ with hs
    · cases hr : (wmTlsSendPendingRecords E os fuel c none).ret with
      | none =>
        simp only [hr] at hdone
        simp at hdone
      | some ok =>
        cases ok with
        | false => exact ⟨evs, hlog, hout, .inl (hfail hr)⟩
        | true =>
          simp only [hr] at hdone ⊢
          obtain ⟨evs', hlog', hout', hend⟩ := ih hout hdone
          refine ⟨evs ++ evs', by rw [hlog', hlog, List.append_assoc], ?_, ?_⟩
          · rw [← List.append_assoc]
            exact hout'
          · exact hend.imp_left SendFailed.append_right
    · exact ⟨[], by simp, by simpa using h, .inr (by simpa using hs)⟩

/-- An outbox with nothing pending has sent everything. -/
theorem outbox_drained (hE : E.Lawful H) {own : Log σ} {e : σ} {data : List UInt8}
    (h : Outbox H own e data) (hs : (E.currentState e).sendrec = false) (hsound : Sound E e) :
    AllSent H own e data := by
  have hall : (H.wire e).length ≤ H.acked e := by
    cases hc : (E.currentState e).closed with
    | true => exact (hE.closed_drained e h.valid hc (hsound hc)).1.ge
    | false =>
      have hbuf : E.sendrecBuf e = [] := by
        by_contra hne
        exact absurd ((hE.sendrec_iff e h.valid hc).mpr hne) (by simp [hs])
      rw [hE.sendrec_pending e h.valid hc] at hbuf
      exact List.drop_eq_nil_iff.mp hbuf
  have hwire : sentBytes own = H.wire e := by rw [h.sent, List.take_of_length_le hall]
  exact ⟨hwire ▸ List.prefix_refl _, H.recs e, [], (List.append_nil _).symm,
    hwire ▸ List.prefix_refl _, h.payload⟩

/-- For data that is all in records: it is all sent if the rest carries none. -/
theorem all_sent_iff {own : Log σ} {e : σ} {data : List UInt8} (h : Outbox H own e data) :
    AllSent H own e data ↔ NoDataPending H own e := by
  constructor
  · rintro ⟨-, rs, ts, hrecs, hwire, hpay⟩
    refine ⟨rs, ts, hrecs, hwire, ?_⟩
    have hall := h.payload
    rw [hrecs, payloadOf_append, hpay] at hall
    exact List.append_right_eq_self.mp hall
  · rintro ⟨rs, ts, hrecs, hwire, hpay⟩
    refine ⟨h.sent ▸ List.take_prefix _ _, rs, ts, hrecs, hwire, ?_⟩
    rw [← h.payload, hrecs, payloadOf_append, hpay, List.append_nil]

theorem setup_sent {evs : Log σ} (h : ∀ ev ∈ evs, ev.isSetup = true) : sentBytes evs = [] := by
  induction evs with
  | nil => rfl
  | cons ev evs ih =>
    have hev := h ev List.mem_cons_self
    have htail := ih fun ev' hev' => h ev' (List.mem_cons_of_mem _ hev')
    cases ev with
    | send => cases hev
    | _ => exact htail

section Flag

/-! While no plaintext goes in behind the flag, the flag means that all data is sent. -/

variable (E H) in
def FlagSent (c : Conn σ) (own : Log σ) : Prop :=
  c.closed = true → NoDataPending H own c.eng ∨ ¬ Sound E c.eng

/-- A step that accumulates nothing adds no record with data. -/
theorem no_data_pending_advance {own evs : Log σ} {e e' : σ} {n k : ℕ} {bs : List UInt8}
    (hacc : H.acc e = []) (hadv : H.Advance e e' n [] bs k) (h : NoDataPending H own e) :
    NoDataPending H (own ++ evs) e' := by
  obtain ⟨rs, ts, hrecs, hwire, hpay⟩ := h
  obtain ⟨new, hnew, hput⟩ := hadv.recs
  rw [hacc, List.append_nil, List.append_eq_nil_iff] at hput
  refine ⟨rs, ts ++ new, by rw [hnew, hrecs, List.append_assoc], ?_, ?_⟩
  · rw [sentBytes_append]
    exact hwire.trans (List.prefix_append _ _)
  · rw [payloadOf_append, hpay, hput.1, List.append_nil]

theorem no_data_pending_log {own evs : Log σ} {e : σ} (h : NoDataPending H own e) :
    NoDataPending H (own ++ evs) e := by
  obtain ⟨rs, ts, hrecs, hwire, hpay⟩ := h
  exact ⟨rs, ts, hrecs, sentBytes_append own evs ▸ hwire.trans (List.prefix_append _ _), hpay⟩

theorem recv_quiet_no_data {own : Log σ} {e : σ} (h : RecvQuiet E H own e) :
    NoDataPending H own e :=
  ⟨H.recs e, [], (List.append_nil _).symm, h.sent ▸ List.prefix_refl _, rfl⟩

theorem flag_sent_step (hE : E.Lawful H) {c c' : Conn σ} {own : Log σ}
    (hled : Ledger E H own c.eng)
    (h : FlagSent E H c own) (hs : DriverStep E os False c c') :
    ∃ evs, c'.log = c.log ++ evs ∧ FlagSent E H c' (own ++ evs) := by
  have hsound : (E.currentState c.eng).closed = false → ¬ ¬ Sound E c.eng := fun hopen hn =>
    hn fun hc => absurd (hopen.symm.trans hc) Bool.false_ne_true
  cases hs with
  | record hs =>
    cases hs with
    | send n hb hw hn =>
      have hopen := (ledger_send_next hE hled hb).1
      have hstep := (sendrec_step hE hled hb hw hn).2
      exact ⟨[_], rfl, fun hf => .inl (no_data_pending_advance hled.acc hstep.toAdvance
        ((h hf).resolve_right (hsound hopen)))⟩
    | sendFail wr hb hw h0 => exact ⟨[_], rfl, fun hf => (h hf).imp_left no_data_pending_log⟩
    | recv want b bs hready hl hr =>
      have hstep := recvrec_step hE hled hready hl hr
      exact ⟨[_], rfl, fun hf => .inl (no_data_pending_advance hled.acc hstep.toAdvance
        (recv_quiet_no_data (ledger_recv_quiet hE hled hready)))⟩
    | recvEof want hready hr =>
      exact ⟨[_], rfl, fun _ => .inl (no_data_pending_log
        (recv_quiet_no_data (ledger_recv_quiet hE hled hready)))⟩
    | recvFail want hready hr => exact ⟨[_], rfl, fun hf => (h hf).imp_left no_data_pending_log⟩
    | markClosed hc =>
      refine ⟨[], by simp, fun _ => ?_⟩
      by_cases hs : Sound E c.eng
      · have hall := (hE.closed_drained c.eng hled.isOpen.valid hc (hs hc)).1
        have hwire : sentBytes own = H.wire c.eng := by
          rw [hled.sent, hall, List.take_length]
        refine .inl ⟨H.recs c.eng, [], (List.append_nil _).symm, ?_, rfl⟩
        rw [List.append_nil, hwire]
        exact List.prefix_refl _
      · exact .inr hs
  | sendapp d hc hs hd hl hf => exact ⟨[_], rfl, fun hflag => (hf hflag).elim⟩
  | recvapp n hc hs hn hl =>
    have hstep := (hE.recvapp_ack c.eng n hled.isOpen hc hs hn hl).1
    exact ⟨[_], rfl, fun hf => .inl (no_data_pending_advance hled.acc hstep.toAdvance
      ((h hf).resolve_right (hsound hc)))⟩

theorem flag_sent_steps (hE : E.Lawful H) {c c' : Conn σ} {own : Log σ}
    (hled : Ledger E H own c.eng) (h : FlagSent E H c own) (hs : DriverSteps E os False c c') :
    ∃ evs, c'.log = c.log ++ evs ∧ Ledger E H (own ++ evs) c'.eng ∧
      FlagSent E H c' (own ++ evs) := by
  induction hs with
  | refl => exact ⟨[], by simp, by rwa [List.append_nil], by rwa [List.append_nil]⟩
  | tail _ hs ih =>
    obtain ⟨evs, hlog₁, hled₁, hflag₁⟩ := ih
    obtain ⟨evs', hlog₂, hflag₂⟩ := flag_sent_step hE hled₁ hflag₁ hs
    obtain ⟨evs'', hlog₃, hled₃⟩ := ledger_step hE hled₁ hs
    obtain rfl : evs' = evs'' := List.append_cancel_left (hlog₂.symm.trans hlog₃)
    refine ⟨evs ++ evs', by rw [hlog₂, hlog₁, List.append_assoc], ?_, ?_⟩
    · rwa [← List.append_assoc]
    · rwa [← List.append_assoc]

/-- A write that has anything to write starts with the `closed` flag clear. -/
def ClearAtWrite (c : Conn σ) : CallRecord → Prop
  | .write data _ _ _ => data ≠ [] → c.closed = false
  | .read .. => True

variable (E os) in
def ClearStep (c : Conn σ) (a : CallRecord) (c' : Conn σ) : Prop :=
  CallStep E os c a c' ∧ ClearAtWrite c a

variable (E os) in
/-- The runs in which no write is made behind an end of stream. -/
def ClearRun (reset : α → List UInt8 → Bool × σ) (base : Log σ) :
    Conn σ → List CallRecord → Prop :=
  Run (Opened E os reset base) (ClearStep E os)

theorem empty_write {fuel : ℕ} {c c' : Conn σ} {data : InBuf} {bw : Option ℕ} {r : ResultPtr}
    (hdata : data.bytes = []) (h : (wmTlsWrite E os fuel (some c) data bw r).conn = some c') :
    c' = c := by
  simp only [wmTlsWrite, hdata] at h
  split_ifs at h with hnull
  · exact (Option.some.inj h).symm
  · cases fuel with
    | zero => exact (Option.some.inj h).symm
    | succ fuel =>
      rw [write_loop_done [] fuel 0 c _ _ (Nat.le_refl _)] at h
      exact (Option.some.inj h).symm

theorem clear_steps {c c' : Conn σ} {a : CallRecord} (h : ClearStep E os c a c') :
    DriverSteps E os False c c' := by
  obtain ⟨hs, hclear⟩ := h
  cases hs with
  | @write _ fuel n data bw bw' r r' ok hw hn =>
    have hconn := congrArg WriteOut.conn hw
    by_cases hdata : data.bytes = []
    · rw [empty_write hdata hconn]
      exact ReflTransGen.refl
    · have hopen := hclear hdata
      exact (write_steps hconn).mono fun (h : c.closed = true) => by simp [hopen] at h
  | read hr => exact read_steps (congrArg ReadOut.conn hr)

theorem clear_run_flag (hE : E.Lawful H)
    (hreset : ∀ a name e, reset a name = (true, e) → H.Fresh e) {c : Conn σ}
    {hist : List CallRecord} (h : ClearRun E os reset base c hist) :
    ∃ own, c.log = base ++ own ∧ Ledger E H own c.eng ∧ FlagSent E H c own := by
  refine Run.invariant (fun c _ => ∃ own, c.log = base ++ own ∧ Ledger E H own c.eng ∧
    FlagSent E H c own) ?_ ?_ h
  · intro c hc
    obtain ⟨own, hacc⟩ := open_account hE hreset hc
    exact ⟨own, hacc.log, hacc.ledger,
      fun hf => absurd ((open_flag hc).symm.trans hf) Bool.false_ne_true⟩
  · rintro c hist a c' ⟨own, hlog, hled, hflag⟩ hs
    obtain ⟨evs, hlog', hled', hflag'⟩ := flag_sent_steps hE hled hflag (clear_steps hs)
    exact ⟨own ++ evs, by rw [hlog', hlog, List.append_assoc], hled', hflag'⟩

end Flag

/-- What `wm_tls_close` does to the connection. -/
theorem close_outbox (hE : E.Lawful H) {fuel : ℕ} {c c' : Conn σ} {own : Log σ}
    (hled : Ledger E H own c.eng)
    (h : wmTlsClose E os fuel (some c) = (some (), some c')) :
    ∃ evs, c'.log = c.log ++ evs ∧ Outbox H (own ++ evs) c'.eng (sendappBytes own) ∧
      (c.closed = true → c'.eng = c.eng ∧ sentBytes evs = []) ∧
      (c.closed = false → SendFailed evs ∨ (E.currentState c'.eng).sendrec = false) := by
  simp only [wmTlsClose] at h
  set c₀ : Conn σ := { c with eng := E.close c.eng }
  cases hc : c.closed with
  | true =>
    simp only [hc, if_true, Prod.mk.injEq, Option.some.injEq, true_and] at h
    obtain ⟨evs, hlog, hevs⟩ := disconnect_log c.sock c.log
    subst h
    refine ⟨evs, hlog, ?_, fun _ => ⟨rfl, setup_sent hevs⟩, by simp⟩
    have hout := hled.outbox
    exact ⟨hout.valid, hout.acc, by rw [sentBytes_append, setup_sent hevs, List.append_nil,
      hout.sent], hout.payload⟩
  | false =>
    simp only [hc, Bool.false_eq_true, if_false] at h
    have hout : Outbox H own c₀.eng (sendappBytes own) :=
      outbox_close hE hled.isOpen hled.outbox
    cases hd : (wmTlsCloseDrain E os fuel c₀).1 with
    | none =>
      rw [hd] at h
      simp at h
    | some u =>
      rw [hd] at h
      obtain ⟨evs, hlog, hout', hend⟩ := close_drain_outbox hE fuel hout hd
      obtain ⟨evs', hlog', hevs'⟩ := disconnect_log (wmTlsCloseDrain E os fuel c₀).2.sock
        (wmTlsCloseDrain E os fuel c₀).2.log
      simp only [Prod.mk.injEq, Option.some.injEq, true_and] at h
      subst h
      refine ⟨evs ++ evs', ?_, ?_, by simp, fun _ => ?_⟩
      · simp only
        rw [hlog', hlog, List.append_assoc]
      · exact ⟨hout'.valid, hout'.acc, by rw [← List.append_assoc, sentBytes_append,
          setup_sent hevs', List.append_nil, hout'.sent], hout'.payload⟩
      · rcases hend with ⟨sock, buf, wr, hmem, h0⟩ | hend
        · exact .inl ⟨sock, buf, wr, List.mem_append_left _ hmem, h0⟩
        · exact .inr hend

/-- For every run and the `wm_tls_close` behind it, without a failing `send` and
without an engine error. All that the writes accepted has been sent exactly when
the drain ran or nothing was left for it; and it has been sent in every run whose
writes all start with the `closed` flag clear. -/
theorem close_sends_all_iff (hE : E.Lawful H)
    (hreset : ∀ a name e, reset a name = (true, e) → H.Fresh e) {c c' : Conn σ}
    {hist : List CallRecord} (h : ApiRun E os reset base c hist) {fuel : ℕ}
    (hclose : wmTlsClose E os fuel (some c) = (some (), some c')) :
    ∃ own own', c.log = base ++ own ∧ c'.log = base ++ own' ∧
      (¬ SendFailed own' → Sound E c.eng → Sound E c'.eng →
        (AllSent H own' c'.eng (accepted hist) ↔
          c.closed = false ∨ NoDataPending H own c.eng) ∧
        (ClearRun E os reset base c hist → AllSent H own' c'.eng (accepted hist))) := by
  obtain ⟨own, hacc⟩ := run_account hE hreset h
  obtain ⟨evs, hlog, hout, hkept, hdrained⟩ := close_outbox hE hacc.ledger hclose
  rw [hacc.accepted] at hout
  refine ⟨own, own ++ evs, hacc.log, by rw [hlog, hacc.log, List.append_assoc], ?_⟩
  intro hsend hsound hsound'
  have hopen : c.closed = false → AllSent H (own ++ evs) c'.eng (accepted hist) := by
    intro hc
    exact outbox_drained hE hout ((hdrained hc).resolve_left fun hf => hsend hf.append_right)
      hsound'
  have hset : c.closed = true →
      (AllSent H (own ++ evs) c'.eng (accepted hist) ↔ NoDataPending H own c.eng) := by
    intro hc
    obtain ⟨heng, hsent⟩ := hkept hc
    rw [all_sent_iff hout, heng]
    unfold NoDataPending
    rw [sentBytes_append, hsent, List.append_nil]
  constructor
  · cases hc : c.closed with
    | false => exact iff_of_true (hopen hc) (.inl rfl)
    | true => exact (hset hc).trans ⟨.inr, fun h => h.resolve_left (by simp)⟩
  · intro hclear
    obtain ⟨own₁, hlog₁, -, hflag⟩ := clear_run_flag hE hreset hclear
    obtain rfl : own = own₁ := List.append_cancel_left (hacc.log.symm.trans hlog₁)
    cases hc : c.closed with
    | false => exact hopen hc
    | true => exact (hset hc).mpr ((hflag hc).resolve_right fun hn => hn hsound)

/-- A write behind a half-close is accepted, and `wm_tls_close` drops its record. -/
theorem close_loses_late_write :
    ∃ c hist c', runScript PlainEngine.engine (scriptHost (fun _ => 8) []) PlainEngine.reset 9 ()
        [.read 4, .write [65]] = some (c, hist) ∧
      wmTlsClose PlainEngine.engine (scriptHost (fun _ => 8) []) 9 (some c) = (some (), some c') ∧
      accepted hist = [65] ∧ ¬ SendFailed c'.log ∧ Sound PlainEngine.engine c.eng ∧
      Sound PlainEngine.engine c'.eng ∧
      ¬ AllSent PlainEngine.history c'.log c'.eng (accepted hist) := by
  obtain ⟨c, hist, c', hrun, hclose, hacc, hopen, hopen', hsends, hsent, hrecs⟩ :
      ∃ c hist c', runScript PlainEngine.engine (scriptHost (fun _ => 8) []) PlainEngine.reset 9 ()
        [.read 4, .write [65]] = some (c, hist) ∧
      wmTlsClose PlainEngine.engine (scriptHost (fun _ => 8) []) 9 (some c) = (some (), some c') ∧
      accepted hist = [65] ∧ c.eng.state.closed = false ∧ c'.eng.state.closed = false ∧
      c'.log.all Event.taken = true ∧
      sentBytes c'.log = [22] ∧ c'.eng.recs = [⟨[22], []⟩, ⟨[23, 65], [65]⟩] :=
    ⟨_, _, _, rfl, rfl, rfl, rfl, rfl, rfl, rfl, rfl⟩
  refine ⟨c, hist, c', hrun, hclose, hacc, ?_, ?_, ?_, ?_⟩
  · rintro ⟨sock, buf, wr, hmem, h0⟩
    have := List.all_eq_true.mp hsends _ hmem
    simp [Event.taken, h0] at this
  · intro h
    exact absurd (hopen.symm.trans h) Bool.false_ne_true
  · intro h
    exact absurd (hopen'.symm.trans h) Bool.false_ne_true
  · rintro ⟨-, rs, ts, hsplit, hwire, hpay⟩
    rw [hacc] at hpay
    rw [hsent] at hwire
    have hsplit' : [⟨[22], []⟩, ⟨[23, 65], [65]⟩] = rs ++ ts := hrecs.symm.trans hsplit
    -- only the whole of both records carries the byte, and it is longer than what was sent
    have hlen := hwire.length_le
    rcases rs with _ | ⟨a, _ | ⟨b, rs⟩⟩
    · simp at hpay
    · simp only [List.cons_append, List.cons.injEq] at hsplit'
      simp [← hsplit'.1, payloadOf] at hpay
    · simp only [List.cons_append, List.cons.injEq] at hsplit'
      simp [← hsplit'.1, ← hsplit'.2.1, wireOf] at hlen

/-- Without the half-close nothing is lost. -/
theorem close_sends_all_iff_drained :
    ∃ c hist c' own own',
      runScript PlainEngine.engine (scriptHost (fun _ => 8) []) PlainEngine.reset 9 ()
        [.write [65]] = some (c, hist) ∧
      wmTlsClose PlainEngine.engine (scriptHost (fun _ => 8) []) 9 (some c) = (some (), some c') ∧
      c.log = own ∧ c'.log = own' ∧ AllSent PlainEngine.history own' c'.eng [65] := by
  obtain ⟨c, hist, c', hrun, hclose, hacc, hflag, hopen, hopen', hsends⟩ :
      ∃ c hist c', runScript PlainEngine.engine (scriptHost (fun _ => 8) []) PlainEngine.reset 9 ()
        [.write [65]] = some (c, hist) ∧
      wmTlsClose PlainEngine.engine (scriptHost (fun _ => 8) []) 9 (some c) = (some (), some c') ∧
      accepted hist = [65] ∧ c.closed = false ∧ c.eng.state.closed = false ∧
      c'.eng.state.closed = false ∧
      c'.log.all Event.taken = true :=
    ⟨_, _, _, rfl, rfl, rfl, rfl, rfl, rfl, rfl⟩
  obtain ⟨own, own', hlog, hlog', hall⟩ := close_sends_all_iff PlainEngine.lawful
    PlainEngine.reset_fresh (runScript_run hrun) hclose
  have hclean : ¬ SendFailed own' := by
    rintro ⟨sock, buf, wr, hmem, h0⟩
    have hown : c'.log = own' := hlog'
    have := List.all_eq_true.mp hsends _ (hown ▸ hmem)
    simp [Event.taken, h0] at this
  have hiff := (hall hclean (fun h => absurd (hopen.symm.trans h) Bool.false_ne_true)
    fun h => absurd (hopen'.symm.trans h) Bool.false_ne_true).1
  exact ⟨c, hist, c', own, own', hrun, hclose, hlog, hlog', hacc ▸ hiff.mpr (.inl hflag)⟩

end BearTLS
